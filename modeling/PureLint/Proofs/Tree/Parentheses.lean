import PureLint.Proofs.Tree.Placement
import PureLint.Tree.Expression

/-!
# Parentheses

An expression in parentheses is found in the node that these are. In a tree of distinct nodes there
is one way up from an expression through its parentheses, and so one place outside all of them.
-/

namespace PureLint.Node

open Event

/-- Parentheses and the expression directly inside them. -/
structure Encloses (outer inner : Node) : Prop where
  kind : outer.kind = "ParenthesizedExpression"
  child : outer.child "expression" = some inner

/-- What is seen through parentheses is what is seen in them. -/
theorem Encloses.unparenthesized_eq {outer inner : Node} (h : Encloses outer inner) :
    outer.unparenthesized = inner.unparenthesized := by
  rw [unparenthesized, if_pos h.kind]
  split
  · rename_i other hother
    cases h.child.symm.trans hother
    rfl
  · rename_i hnone
    cases h.child.symm.trans hnone

/-- What stands in no parentheses is seen as it is. -/
theorem unparenthesized_eq_self {n : Node} (h : n.kind ≠ "ParenthesizedExpression") :
    n.unparenthesized = n := by
  rw [unparenthesized, if_neg h]

/-- Steps into parentheses lead to the expression inside all of them. -/
theorem encloses_unparenthesized (n : Node) :
    Relation.ReflTransGen Encloses n n.unparenthesized := by
  induction n using unparenthesized.induct with
  | case1 n hkind inner hchild ih =>
    have hstep : Encloses n inner := ⟨hkind, hchild⟩
    rw [hstep.unparenthesized_eq]
    exact ih.head hstep
  | case2 n hkind hchild =>
    have hself : n.unparenthesized = n := by
      rw [unparenthesized, if_pos hkind]
      split
      · rename_i other hother
        cases hchild.symm.trans hother
      · rfl
    rw [hself]
  | case3 n hkind =>
    rw [unparenthesized_eq_self hkind]

/-- From each step into parentheses the same is seen. -/
theorem unparenthesized_of_steps {outer inner : Node}
    (h : Relation.ReflTransGen Encloses outer inner) :
    outer.unparenthesized = inner.unparenthesized := by
  induction h using Relation.ReflTransGen.head_induction_on with
  | refl => rfl
  | head hstep _ ih => exact hstep.unparenthesized_eq.trans ih

/-- What holds of no parentheses holds of what is seen where steps lead to something that it
holds of. -/
theorem holds_unparenthesized_iff {p : Node → Prop}
    (hp : ∀ n, p n → n.kind ≠ "ParenthesizedExpression") (n : Node) :
    p n.unparenthesized ↔ ∃ inner, Relation.ReflTransGen Encloses n inner ∧ p inner := by
  constructor
  · intro h
    exact ⟨_, n.encloses_unparenthesized, h⟩
  · rintro ⟨inner, hsteps, hinner⟩
    rw [unparenthesized_of_steps hsteps, unparenthesized_eq_self (hp inner hinner)]
    exact hinner

variable {root n other parent otherParent : Node} {key otherKey : String}

/-- The walk comes to what stands in parentheses that it comes to. -/
theorem Reaches.of_encloses {inner : Node} (h : root.Reaches n)
    (hsteps : Relation.ReflTransGen Encloses n inner) : root.Reaches inner := by
  induction hsteps with
  | refl => exact h
  | tail _ hstep ih => exact (ih.places_child hstep.child).reaches

/-- The expression inside all parentheses is the node itself, or found directly inside some. -/
theorem eq_or_encloses_unparenthesized (hn : root.Reaches n) :
    n.unparenthesized = n ∨
      ∃ outer, Encloses outer n.unparenthesized ∧
        root.Places outer "expression" n.unparenthesized := by
  rcases n.encloses_unparenthesized.cases_tail with heq | ⟨outer, hsteps, hstep⟩
  · exact Or.inl heq
  · exact Or.inr ⟨outer, hstep, (hn.of_encloses hsteps).places_child hstep.child⟩

/-- One step up, out of the field that parentheses hold their expression in. -/
def StandsIn (root inner outer : Node) : Prop := root.Places outer "expression" inner

/-- In a tree of distinct nodes there is one step up. -/
theorem Distinct.standsIn_rightUnique (hroot : root.Distinct) :
    Relator.RightUnique root.StandsIn := by
  intro inner outer other hplace hother
  exact (hroot.place_unique hplace hother).1

/-- Steps lead up from an expression inside parentheses to what these are. -/
theorem standsIn_of_unparenthesized (hn : root.Reaches n) :
    Relation.ReflTransGen root.StandsIn n.unparenthesized n := by
  have hsteps := n.encloses_unparenthesized
  generalize n.unparenthesized = inner at hsteps
  induction hsteps using Relation.ReflTransGen.head_induction_on with
  | refl => exact .refl
  | head hstep _ ih =>
    have hplace := hn.places_child hstep.child
    exact (ih hplace.reaches).tail hplace

/-- **In a tree of distinct nodes an expression stands in one place outside its parentheses.** -/
theorem Distinct.outside_unique (hroot : root.Distinct) (hn : root.Places parent key n)
    (hother : root.Places otherParent otherKey other) (hkey : key ≠ "expression")
    (hotherKey : otherKey ≠ "expression") (heq : n.unparenthesized = other.unparenthesized) :
    parent = otherParent ∧ key = otherKey ∧ n = other := by
  -- no step leads further up from a node in another field
  have hend {parent top outer : Node} {key : String} (hplace : root.Places parent key top)
      (hkey : key ≠ "expression") (hsteps : Relation.ReflTransGen root.StandsIn top outer) :
      outer = top := by
    rcases hsteps.cases_head with rfl | ⟨next, hnext, -⟩
    · rfl
    · exact absurd (hroot.place_unique hplace hnext).2 hkey
  have hup := standsIn_of_unparenthesized hn.reaches
  have hotherUp := standsIn_of_unparenthesized hother.reaches
  rw [← heq] at hotherUp
  have hsame : n = other := by
    rcases hup.total_of_right_unique hroot.standsIn_rightUnique hotherUp with h | h
    · exact (hend hn hkey h).symm
    · exact hend hother hotherKey h
  subst hsame
  obtain ⟨rfl, rfl⟩ := hroot.place_unique hn hother
  exact ⟨rfl, rfl, rfl⟩

/-! ## Children -/

/-- The walk over items visits the nodes among them in their order. -/
theorem sublist_entered_itemEvents (parent : Option Node) (key : String) (items : List Value) :
    ((items.filterMap Value.node?).map fun c => (⟨c, parent, some key⟩ : Visit)).Sublist
      (entered (Value.itemEvents parent key items)) := by
  induction items with
  | nil => exact List.nil_sublist _
  | cons item items ih =>
    rw [Value.itemEvents, entered_append]
    cases hnode : item.node? with
    | none =>
      rw [List.filterMap_cons_none hnode]
      exact ih.trans (List.sublist_append_right _ _)
    | some c =>
      have hvisit : ∃ rest, entered (item.events parent key) = ⟨c, parent, some key⟩ :: rest := by
        cases item with
        | object id fields =>
          obtain ⟨-, -, htype⟩ := Value.node?_object hnode
          rcases Value.events_object_cases id fields parent key with
            ⟨node, hother, hevents⟩ | ⟨hnone, -, -⟩ | ⟨hnone, -⟩
          · cases hnode.symm.trans hother
            exact ⟨_, by rw [hevents, entered_enter]⟩
          · cases hnode.symm.trans hnone
          · rw [hnone] at htype
            cases htype
        | _ => cases hnode
      obtain ⟨rest, hrest⟩ := hvisit
      rw [List.filterMap_cons_some hnode, List.map_cons, hrest, List.cons_append]
      exact (ih.trans (List.sublist_append_right _ _)).cons_cons _

/-- The nodes among the items of an array in a field are visited in their order. -/
theorem children_sublist_visitsInside (n : Node) (key : String) :
    ((n.children key).map fun c => (⟨c, some n, some key⟩ : Visit)).Sublist n.visitsInside := by
  unfold children
  split
  · rename_i items hlookup
    obtain ⟨before, after, hfields, -⟩ := List.lookup_eq_some_iff.mp hlookup
    have hitems : ((Value.array items).held.map fun item => (key, item)).flatMap
        (fun entry => Value.events (some n) entry.1 entry.2) =
          Value.itemEvents (some n) key items := by
      rw [Value.itemEvents_eq, List.flatMap_map]
      rfl
    rw [visitsInside, Value.fieldEvents_eq, hfields, Value.contents, List.flatMap_append,
      List.flatMap_cons, List.flatMap_append, List.flatMap_append, hitems, entered_append,
      entered_append]
    exact (sublist_entered_itemEvents _ key items).trans
      ((List.sublist_append_left _ _).trans (List.sublist_append_right _ _))
  · exact List.nil_sublist _

/-- In a tree of distinct nodes a node has each child once. -/
theorem Distinct.nodup_children (hroot : root.Distinct) (hn : root.Reaches n) (key : String) :
    (n.children key).Nodup := by
  obtain ⟨before, visit, after, hsplit, rfl⟩ := hn.exists_enter
  have hinside : visit.node.visitsInside.Sublist root.visits := by
    have hcomplete := root.complete_events
    rw [hsplit] at hcomplete
    have hvisits : root.visits = entered root.events := rfl
    rw [hvisits, hsplit, entered_append, entered_enter]
    exact (hcomplete.visitsInside_prefix.sublist.cons visit).trans (List.sublist_append_right _ _)
  have hvisits := List.Nodup.of_map _ hroot
  exact List.Nodup.of_map _
    (hvisits.sublist ((visit.node.children_sublist_visitsInside key).trans hinside))

end PureLint.Node
