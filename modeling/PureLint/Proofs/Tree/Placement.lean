import PureLint.Proofs.Tree.Identity

/-!
# Where nodes are found

In a tree of distinct nodes each node is found in one place: the root, or one field of one other
node. So from an identifier there is one way up through the fields that patterns hold their parts
in, and what it leads to at last is found in one place as well.
-/

namespace PureLint

open Event

/-- The parent of a visit, if it has one, is a given node or that of one of some visits. -/
def Visit.ParentIn (visit : Visit) (parent : Option Node) (visits : List Visit) : Prop :=
  visit.parent = none ∨ visit.parent = parent ∨ ∃ outer ∈ visits, visit.parent = some outer.node

/-- What the parent of a visit is among, it is among more than that. -/
theorem Visit.ParentIn.mono {visit : Visit} {parent : Option Node} {visits more : List Visit}
    (h : visit.ParentIn parent visits) (hmore : visits ⊆ more) : visit.ParentIn parent more :=
  h.imp_right (Or.imp_right fun ⟨outer, houter, hparent⟩ => ⟨outer, hmore houter, hparent⟩)

namespace Value

variable {fields : List (String × Value)} {parent : Option Node} {visit : Visit}

/-- The walk over fields enters a node below another one that it enters, if so does the walk over
each of their contents. -/
theorem parentIn_fieldEvents
    (h : ∀ entry ∈ contents fields, ∀ visit ∈ entered (events parent entry.1 entry.2),
      visit.ParentIn parent (entered (events parent entry.1 entry.2)))
    (hvisit : visit ∈ entered (fieldEvents parent fields)) :
    visit.ParentIn parent (entered (fieldEvents parent fields)) := by
  rw [fieldEvents_eq, entered, List.filterMap_flatMap] at hvisit ⊢
  obtain ⟨entry, hentry, hinside⟩ := List.mem_flatMap.mp hvisit
  exact (h entry hentry visit hinside).mono fun outer houter =>
    List.mem_flatMap.mpr ⟨entry, hentry, houter⟩

/-- The walk over a value enters a node below another one that it enters, or below the one that the
value is found in. -/
theorem parentIn_events {value : Value} {key : String}
    (hvisit : visit ∈ entered (value.events parent key)) :
    visit.ParentIn parent (entered (value.events parent key)) := by
  induction value using inductionOnContents generalizing parent key visit with
  | object id fields ih =>
    have hfields (parent : Option Node) {visit : Visit}
        (h : visit ∈ entered (fieldEvents parent fields)) :
        visit.ParentIn parent (entered (fieldEvents parent fields)) :=
      parentIn_fieldEvents (fun entry hentry _ => ih entry hentry) h
    rcases events_object_cases id fields parent key with
      ⟨node, -, hevents⟩ | ⟨-, -, hevents⟩ | ⟨-, hevents⟩
    · rw [hevents, entered_enter, entered_append, entered_leave, entered_nil, List.append_nil]
        at hvisit ⊢
      rcases List.mem_cons.mp hvisit with rfl | hinside
      · exact Or.inr (Or.inl rfl)
      · rcases hfields (some node) hinside with hnone | hparent | ⟨outer, houter, hparent⟩
        · exact Or.inl hnone
        · exact Or.inr (Or.inr ⟨_, List.mem_cons_self, hparent⟩)
        · exact Or.inr (Or.inr ⟨outer, List.mem_cons_of_mem _ houter, hparent⟩)
    · rw [hevents] at hvisit ⊢
      rcases hfields none hvisit with hnone | hnone | houter
      · exact Or.inl hnone
      · exact Or.inl hnone
      · exact Or.inr (Or.inr houter)
    · rw [hevents] at hvisit
      cases hvisit
  | other value hother =>
    rw [events_of_ne_object hother] at hvisit
    cases hvisit

end Value

namespace Node

/-- Whether the walk over a tree comes to a node. -/
def Reaches (root n : Node) : Prop := ∃ visit ∈ root.visits, visit.node = n

/-- Whether the walk finds a node under a key in another one. -/
def Places (root parent : Node) (key : String) (n : Node) : Prop :=
  ⟨n, some parent, some key⟩ ∈ root.visits

variable {root n parent other : Node} {key otherKey : String}

/-- The walk comes to the nodes that it finds somewhere. -/
theorem Places.reaches (h : root.Places parent key n) : root.Reaches n := ⟨_, h, rfl⟩

/-- The walk enters the nodes that it comes to. -/
theorem Reaches.exists_enter (h : root.Reaches n) :
    ∃ before visit after, root.events = before ++ .enter visit :: after ∧ visit.node = n := by
  obtain ⟨visit, hvisit, hnode⟩ := h
  obtain ⟨before, after, hsplit⟩ := List.append_of_mem (mem_entered.mp hvisit)
  exact ⟨before, visit, after, hsplit, hnode⟩

/-- What is visited inside a node is visited wherever the node is. -/
theorem Reaches.visitsInside_subset (h : root.Reaches n) : n.visitsInside ⊆ root.visits := by
  obtain ⟨before, visit, after, hsplit, rfl⟩ := h.exists_enter
  have hcomplete := root.complete_events
  rw [hsplit] at hcomplete
  intro inner hinner
  change inner ∈ entered root.events
  rw [hsplit, entered_append, entered_enter]
  exact List.mem_append_right _ (List.mem_cons_of_mem _ (hcomplete.visitsInside_subset hinner))

/-- The node in a field is found there. -/
theorem Reaches.places_child (h : root.Reaches parent) (hchild : parent.child key = some n) :
    root.Places parent key n :=
  h.visitsInside_subset (visit_child hchild)

/-- The nodes among the items of an array in a field are found there. -/
theorem Reaches.places_children (h : root.Reaches parent) (hchild : n ∈ parent.children key) :
    root.Places parent key n :=
  h.visitsInside_subset (visit_children hchild)

/-- The walk comes to the parent of a node that it enters. -/
theorem reaches_parent {visit : Visit} (hvisit : visit ∈ root.visits)
    (hparent : visit.parent = some parent) : root.Reaches parent := by
  rw [visits_eq] at hvisit
  rcases List.mem_cons.mp hvisit with rfl | hinside
  · cases hparent
  · have hin : visit.ParentIn (some root) root.visitsInside :=
      Value.parentIn_fieldEvents (fun _ _ _ => Value.parentIn_events) hinside
    rcases hin with hnone | hroot | ⟨outer, houter, hnode⟩
    · rw [hnone] at hparent
      cases hparent
    · cases hroot.symm.trans hparent
      exact ⟨⟨root, none, none⟩, by simp [visits_eq], rfl⟩
    · cases hnode.symm.trans hparent
      exact ⟨outer, by simp [visits_eq, houter], rfl⟩

/-- The walk comes to what is inside the nodes that it comes to. -/
theorem Reaches.of_holds (h : root.Reaches n) {inner : Node} (hinner : n.Holds inner) :
    root.Reaches inner := by
  obtain ⟨visit, hvisit, rfl⟩ := hinner
  exact ⟨visit, h.visitsInside_subset hvisit, rfl⟩

/-- The walk comes to what is bound by the patterns that it comes to. -/
theorem Reaches.of_mem_boundIdentifiers {pattern : Node} (h : root.Reaches pattern)
    (hn : n ∈ pattern.boundIdentifiers) : root.Reaches n := by
  rcases eq_or_holds_of_mem_boundIdentifiers hn with rfl | hholds
  · exact h
  · exact h.of_holds hholds

/-- In a tree of distinct nodes there is one visit to a node. -/
theorem Distinct.visit_unique (h : root.Distinct) {visit found : Visit}
    (hvisit : visit ∈ root.visits) (hfound : found ∈ root.visits)
    (hid : visit.node.id = found.node.id) : visit = found :=
  List.inj_on_of_nodup_map h hvisit hfound hid

/-- In a tree of distinct nodes an object is one node. -/
theorem Distinct.node_unique (h : root.Distinct) (hn : root.Reaches n) (hother : root.Reaches other)
    (hid : n.id = other.id) : n = other := by
  obtain ⟨visit, hvisit, rfl⟩ := hn
  obtain ⟨found, hfound, rfl⟩ := hother
  rw [h.visit_unique hvisit hfound hid]

/-- In a tree of distinct nodes a node is found in one place. -/
theorem Distinct.place_unique (h : root.Distinct) (hplace : root.Places parent key n)
    (hother : root.Places other otherKey n) : parent = other ∧ key = otherKey := by
  have hvisit := h.visit_unique hplace hother rfl
  cases hvisit
  exact ⟨rfl, rfl⟩

/-! ## The way up through patterns -/

/-- The fields that patterns hold their parts in. -/
def patternFields : List String :=
  ["properties", "value", "argument", "elements", "left", "parameter"]

/-- One step up, out of a field that a pattern holds a part in. -/
def Rises (root inner outer : Node) : Prop := ∃ key ∈ patternFields, root.Places outer key inner

/-- In a tree of distinct nodes there is one step up. -/
theorem Distinct.rises_rightUnique (h : root.Distinct) : Relator.RightUnique root.Rises := by
  rintro inner outer other ⟨key, -, hplace⟩ ⟨otherKey, -, hother⟩
  exact (h.place_unique hplace hother).1

/-- What a pattern is made of is found in a field that a pattern holds a part in, and from there
steps lead up to the pattern. A default is the only pattern that holds a part on its left. -/
theorem PatternStep.placed {pattern inner : Node} (h : PatternStep pattern inner)
    (hpattern : root.Reaches pattern) :
    ∃ holder, ∃ key ∈ patternFields, root.Places holder key inner ∧
      (key = "left" → holder.kind = "AssignmentPattern") ∧
      Relation.ReflTransGen root.Rises holder pattern := by
  cases h with
  | @property property _ hkind hproperty hinner =>
    have hplace := hpattern.places_children hproperty
    have hfield : property.bindingField = "argument" ∨ property.bindingField = "value" := by
      unfold bindingField
      split <;> simp
    refine ⟨property, _, ?_, hplace.reaches.places_child hinner, ?_,
      .single ⟨"properties", by decide, hplace⟩⟩
    · rcases hfield with hfield | hfield <;> rw [hfield] <;> decide
    · intro hleft
      rcases hfield with hfield | hfield <;> simp [hfield] at hleft
  | element hkind hinner =>
    exact ⟨pattern, "elements", by decide, hpattern.places_children hinner, by simp, .refl⟩
  | @wrapped _ key hkind hinner =>
    have hkey : key ∈ patternFields ∧ (key = "left" → pattern.kind = "AssignmentPattern") := by
      simp only [wrapperFields, List.mem_cons, Prod.mk.injEq, List.not_mem_nil, or_false] at hkind
      rcases hkind with ⟨hkind, rfl⟩ | ⟨-, rfl⟩ | ⟨-, rfl⟩
      · exact ⟨by decide, fun _ => hkind⟩
      · exact ⟨by decide, by simp⟩
      · exact ⟨by decide, by simp⟩
    exact ⟨pattern, key, hkey.1, hpattern.places_child hinner, hkey.2, .refl⟩

/-- An identifier that a pattern binds is the pattern, or found in a field that a pattern holds a
part in, from where steps lead up to the pattern. -/
theorem placed_of_mem_boundIdentifiers {pattern identifier : Node} (hpattern : root.Reaches pattern)
    (h : identifier ∈ pattern.boundIdentifiers) :
    identifier = pattern ∨ ∃ holder, ∃ key ∈ patternFields, root.Places holder key identifier ∧
      (key = "left" → holder.kind = "AssignmentPattern") ∧
      Relation.ReflTransGen root.Rises holder pattern := by
  obtain ⟨-, hsteps⟩ := mem_boundIdentifiers_iff.mp h
  clear h
  induction hsteps using Relation.ReflTransGen.head_induction_on with
  | refl => exact Or.inl rfl
  | @head pattern inner hstep _ ih =>
    right
    obtain ⟨outer, key, hkey, hplace, hleft, hrise⟩ := hstep.placed hpattern
    rcases ih hplace.reaches with
      rfl | ⟨holder, innerKey, hinnerKey, hinnerPlace, hinnerLeft, hinnerRise⟩
    · exact ⟨outer, key, hkey, hplace, hleft, hrise⟩
    · exact ⟨holder, innerKey, hinnerKey, hinnerPlace, hinnerLeft,
        hinnerRise.trans (hrise.head ⟨key, hkey, hplace⟩)⟩

/-- Steps lead up from an identifier to each pattern that binds it. -/
theorem rises_of_mem_boundIdentifiers {pattern identifier : Node} (hpattern : root.Reaches pattern)
    (h : identifier ∈ pattern.boundIdentifiers) :
    Relation.ReflTransGen root.Rises identifier pattern := by
  rcases placed_of_mem_boundIdentifiers hpattern h with rfl | ⟨holder, key, hkey, hplace, -, hrise⟩
  · exact .refl
  · exact hrise.head ⟨key, hkey, hplace⟩

/-- The way up from a node through patterns ends at `top`, which is found in another field. -/
structure Outermost (root n parent : Node) (key : String) (top : Node) : Prop where
  rises : Relation.ReflTransGen root.Rises n top
  places : root.Places parent key top
  outside : key ∉ patternFields

namespace Outermost

variable {top outer otherTop : Node}

/-- No step leads further up from where the way ends. -/
theorem eq_of_rises (h : root.Outermost n parent key top) (hroot : root.Distinct)
    (hrises : Relation.ReflTransGen root.Rises top outer) : outer = top := by
  rcases hrises.cases_head with rfl | ⟨next, ⟨nextKey, hnextKey, hplace⟩, -⟩
  · rfl
  · obtain ⟨-, rfl⟩ := hroot.place_unique h.places hplace
    exact absurd hnextKey h.outside

/-- In a tree of distinct nodes the way up from a node ends in one place. -/
theorem unique (h : root.Outermost n parent key top) (hroot : root.Distinct)
    (hother : root.Outermost n other otherKey otherTop) :
    parent = other ∧ key = otherKey ∧ top = otherTop := by
  have htop : top = otherTop := by
    rcases h.rises.total_of_right_unique hroot.rises_rightUnique hother.rises with hup | hup
    · exact (h.eq_of_rises hroot hup).symm
    · exact hother.eq_of_rises hroot hup
  subst htop
  obtain ⟨rfl, rfl⟩ := hroot.place_unique h.places hother.places
  exact ⟨rfl, rfl, rfl⟩

end Outermost

/-- A pattern in another field is outermost for what it binds. -/
theorem outermost_of_mem_boundIdentifiers {pattern identifier : Node}
    (hplace : root.Places parent key pattern) (hkey : key ∉ patternFields)
    (h : identifier ∈ pattern.boundIdentifiers) : root.Outermost identifier parent key pattern :=
  ⟨rises_of_mem_boundIdentifiers hplace.reaches h, hplace, hkey⟩

end Node

end PureLint
