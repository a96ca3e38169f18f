import Mathlib.Data.List.Induction
import Mathlib.Data.List.Nodup
import PureLint.Proofs.Tree.Identity

/-!
# Positions of visited nodes

A position is a path from the root: it says at each object with which of the contents to go on.
Which nodes are visited, and where they stand, is described by the paths alone. The walk visits the
nodes at all paths that lead to one, each once, in the order of the paths as in a dictionary: a node
before what is inside it, and what is in an earlier place before what is in a later one.
-/

namespace PureLint

open Event

namespace Value

/-- What is visited at the end of a path into a value that stands under `key` in `parent`: the node
that is there. A path goes on in any object with a text `type`, but an object that is no node is no
parent. -/
inductive VisitedAt : Option Node → String → Value → List Nat → Visit → Prop
  | here {parent : Option Node} {key : String} {value : Value} {node : Node} :
    value.node? = some node → VisitedAt parent key value [] ⟨node, parent, some key⟩
  | inside {parent : Option Node} {key inner : String} {id place : Nat}
    {fields : List (String × Value)} {item : Value} {path : List Nat} {visit : Visit} :
    (textField? fields "type").isSome → (contents fields)[place]? = some (inner, item) →
      VisitedAt (object id fields).node? inner item path visit →
      VisitedAt parent key (.object id fields) (place :: path) visit

/-- What is visited at the end of a path that begins with a place among entries in `parent`. -/
def VisitedAmong (parent : Option Node) (entries : List (String × Value)) (path : List Nat)
    (visit : Visit) : Prop :=
  ∃ place rest key item, path = place :: rest ∧ entries[place]? = some (key, item) ∧
    VisitedAt parent key item rest visit

variable {parent : Option Node} {entries : List (String × Value)} {path : List Nat} {visit : Visit}

/-- A path begins with a place. -/
theorem not_visitedAmong_nil : ¬VisitedAmong parent entries [] visit := by
  rintro ⟨_, _, _, _, hpath, -⟩
  cases hpath

/-- With one more entry, the paths are those from before and those that begin with its place. -/
theorem visitedAmong_concat {key : String} {item : Value} :
    VisitedAmong parent (entries ++ [(key, item)]) path visit ↔
      VisitedAmong parent entries path visit ∨
        ∃ rest, path = entries.length :: rest ∧ VisitedAt parent key item rest visit := by
  constructor
  · rintro ⟨place, rest, other, found, rfl, hentry, hvisited⟩
    by_cases hplace : place < entries.length
    · rw [List.getElem?_append_left hplace] at hentry
      exact Or.inl ⟨place, rest, other, found, rfl, hentry, hvisited⟩
    · have hlength := (List.getElem?_eq_some_iff.mp hentry).1
      have hlast : place = entries.length := by
        rw [List.length_append, List.length_singleton] at hlength
        omega
      subst hlast
      rw [List.getElem?_concat_length] at hentry
      cases hentry
      exact Or.inr ⟨rest, rfl, hvisited⟩
  · rintro (⟨place, rest, other, found, rfl, hentry, hvisited⟩ | ⟨rest, rfl, hvisited⟩)
    · have hplace := (List.getElem?_eq_some_iff.mp hentry).1
      rw [← List.getElem?_append_left hplace] at hentry
      exact ⟨place, rest, other, found, rfl, hentry, hvisited⟩
    · exact ⟨entries.length, rest, key, item, rfl, List.getElem?_concat_length, hvisited⟩

end Value

/-- What is visited at the end of a path from the root of a tree. -/
def Node.VisitedAt (root : Node) (path : List Nat) (visit : Visit) : Prop :=
  path = [] ∧ visit = ⟨root, none, none⟩ ∨
    Value.VisitedAmong (some root) (Value.contents root.fields) path visit

/-- The visits are those at the ends of the described paths, one for each path, in their order. -/
def InPathOrder (visits : List Visit) (leads : List Nat → Visit → Prop) : Prop :=
  ∃ located : List (List Nat × Visit), located.map Prod.snd = visits ∧
    located.Pairwise (fun earlier later => earlier.1 < later.1) ∧
    ∀ path visit, (path, visit) ∈ located ↔ leads path visit

namespace InPathOrder

variable {visits inside : List Visit} {leads other : List Nat → Visit → Prop}

/-- No visits are in order where no path leads to one. -/
theorem nil (h : ∀ path visit, ¬leads path visit) : InPathOrder [] leads := by
  refine ⟨[], rfl, List.Pairwise.nil, ?_⟩
  intro path visit
  simp [h path visit]

/-- Another description of the same paths is as good. -/
theorem congr (h : InPathOrder visits leads)
    (hsame : ∀ path visit, leads path visit ↔ other path visit) : InPathOrder visits other := by
  obtain ⟨located, hvisits, hsorted, hmem⟩ := h
  exact ⟨located, hvisits, hsorted, fun path visit => (hmem path visit).trans (hsame path visit)⟩

/-- The visit at the empty path comes before those at the other paths. -/
theorem cons (visit : Visit) (h : InPathOrder inside leads) (hinside : ∀ visit, ¬leads [] visit) :
    InPathOrder (visit :: inside) fun path found =>
      path = [] ∧ found = visit ∨ leads path found := by
  obtain ⟨located, rfl, hsorted, hmem⟩ := h
  refine ⟨([], visit) :: located, rfl, List.pairwise_cons.mpr ⟨?_, hsorted⟩, ?_⟩
  · rintro ⟨path, found⟩ hfound
    have hleads := (hmem path found).mp hfound
    cases path with
    | nil => exact absurd hleads (hinside found)
    | cons place rest => exact List.nil_lt_cons place rest
  · intro path found
    rw [List.mem_cons, hmem, Prod.mk.injEq]

/-- Visits behind one more place come after those behind the places before it. -/
theorem concat {parent : Option Node} {entries : List (String × Value)} {key : String}
    {item : Value}
    (h : InPathOrder visits (Value.VisitedAmong parent entries))
    (hitem : InPathOrder inside (Value.VisitedAt parent key item)) :
    InPathOrder (visits ++ inside) (Value.VisitedAmong parent (entries ++ [(key, item)])) := by
  obtain ⟨before, rfl, hbefore, hmem⟩ := h
  obtain ⟨last, rfl, hlast, hmemLast⟩ := hitem
  let behind (entry : List Nat × Visit) := (entries.length :: entry.1, entry.2)
  refine ⟨before ++ last.map behind, by simp [behind, Function.comp_def], ?_, ?_⟩
  · rw [List.pairwise_append, List.pairwise_map]
    refine ⟨hbefore, hlast.imp ?_, ?_⟩
    · intro earlier later hlt
      exact List.cons_lt_cons_iff.mpr (Or.inr ⟨rfl, hlt⟩)
    · rintro ⟨path, visit⟩ hfound later hlater
      obtain ⟨place, rest, other, found, rfl, hentry, -⟩ := (hmem path visit).mp hfound
      obtain ⟨entry, -, rfl⟩ := List.mem_map.mp hlater
      have hplace := (List.getElem?_eq_some_iff.mp hentry).1
      exact List.cons_lt_cons_iff.mpr (Or.inl hplace)
  · intro path visit
    rw [List.mem_append, hmem, List.mem_map, Value.visitedAmong_concat]
    refine or_congr_right ⟨?_, ?_⟩
    · rintro ⟨⟨rest, found⟩, hrest, hbehind⟩
      cases hbehind
      exact ⟨rest, rfl, (hmemLast rest found).mp hrest⟩
    · rintro ⟨rest, rfl, hvisited⟩
      exact ⟨(rest, visit), (hmemLast rest visit).mpr hvisited, rfl⟩

end InPathOrder

namespace Value

/-- The walk over entries is in the order of paths if the walk over each of them is. -/
theorem inPathOrder_entries {parent : Option Node} {entries : List (String × Value)}
    (h : ∀ entry ∈ entries,
      InPathOrder (entered (events parent entry.1 entry.2)) (VisitedAt parent entry.1 entry.2)) :
    InPathOrder (entered (entries.flatMap fun entry => events parent entry.1 entry.2))
      (VisitedAmong parent entries) := by
  induction entries using List.reverseRecOn with
  | nil =>
    apply InPathOrder.nil
    rintro path visit ⟨place, rest, key, item, -, hentry, -⟩
    cases hentry
  | append_singleton entries entry ih =>
    have hbefore := ih fun other hother => h other (List.mem_append_left _ hother)
    have hlast := h entry (List.mem_append_right _ (List.mem_singleton_self entry))
    rw [List.flatMap_append, List.flatMap_singleton, entered_append]
    exact hbefore.concat hlast

/-- The walk over a value is in the order of paths. -/
theorem inPathOrder_events (value : Value) (parent : Option Node) (key : String) :
    InPathOrder (entered (value.events parent key)) (VisitedAt parent key value) := by
  induction value using inductionOnContents generalizing parent key with
  | object id fields ih =>
    have hfields (outer : Option Node) : InPathOrder (entered (fieldEvents outer fields))
        (VisitedAmong outer (contents fields)) := by
      rw [fieldEvents_eq]
      apply inPathOrder_entries
      intro entry hentry
      exact ih entry hentry outer entry.1
    rcases events_object_cases id fields parent key with
      ⟨node, hnode, hevents⟩ | ⟨hnode, htype, hevents⟩ | ⟨htype, hevents⟩
    · obtain ⟨-, -, htype⟩ := node?_object hnode
      have hinside := (hfields (some node)).cons ⟨node, parent, some key⟩
        fun _ => not_visitedAmong_nil
      rw [hevents, entered_enter, entered_append, entered_leave, entered_nil, List.append_nil]
      refine hinside.congr fun path visit => ⟨?_, ?_⟩
      · rintro (⟨rfl, rfl⟩ | ⟨place, rest, inner, item, rfl, hentry, hvisited⟩)
        · exact .here hnode
        · rw [← hnode] at hvisited
          exact .inside htype hentry hvisited
      · rintro (hvalue | ⟨-, hentry, hvisited⟩)
        · cases hnode.symm.trans hvalue
          exact Or.inl ⟨rfl, rfl⟩
        · rw [hnode] at hvisited
          exact Or.inr ⟨_, _, _, _, rfl, hentry, hvisited⟩
    · rw [hevents]
      refine (hfields none).congr fun path visit => ⟨?_, ?_⟩
      · rintro ⟨place, rest, inner, item, rfl, hentry, hvisited⟩
        rw [← hnode] at hvisited
        exact .inside htype hentry hvisited
      · rintro (hvalue | ⟨-, hentry, hvisited⟩)
        · cases hnode.symm.trans hvalue
        · rw [hnode] at hvisited
          exact ⟨_, _, _, _, rfl, hentry, hvisited⟩
    · rw [hevents]
      apply InPathOrder.nil
      rintro path visit (hvalue | ⟨htyped, -, -⟩)
      · obtain ⟨-, -, htyped⟩ := node?_object hvalue
        rw [htype] at htyped
        cases htyped
      · rw [htype] at htyped
        cases htyped
  | other value h =>
    rw [events_of_ne_object h]
    apply InPathOrder.nil
    rintro path visit (hvalue | ⟨-, -, -⟩)
    · cases value with
      | object id fields => exact h id fields rfl
      | _ => cases hvalue
    · exact h _ _ rfl

end Value

namespace Node

/-- **The walk visits just what paths lead to, in the order of the paths.** -/
theorem inPathOrder_visits (root : Node) : InPathOrder root.visits root.VisitedAt := by
  have hinside : InPathOrder root.visitsInside
      (Value.VisitedAmong (some root) (Value.contents root.fields)) := by
    rw [visitsInside, Value.fieldEvents_eq]
    exact Value.inPathOrder_entries fun entry _ => entry.2.inPathOrder_events _ _
  rw [visits_eq]
  exact hinside.cons ⟨root, none, none⟩ fun _ => Value.not_visitedAmong_nil

/-- A later visit is at the end of a later path. -/
theorem pairwise_visits (root : Node) :
    root.visits.Pairwise fun visit later =>
      ∃ path other, root.VisitedAt path visit ∧ root.VisitedAt other later ∧ path < other := by
  obtain ⟨located, hvisits, hsorted, hmem⟩ := root.inPathOrder_visits
  rw [← hvisits, List.pairwise_map]
  refine hsorted.imp_of_mem ?_
  rintro ⟨path, visit⟩ ⟨other, later⟩ hvisit hlater hlt
  exact ⟨path, other, (hmem path visit).mp hvisit, (hmem other later).mp hlater, hlt⟩

/-- In a tree of distinct nodes only one path leads to a node. -/
theorem Distinct.path_unique {root : Node} (h : root.Distinct) {path other : List Nat}
    {visit found : Visit} (hvisit : root.VisitedAt path visit) (hfound : root.VisitedAt other found)
    (hid : visit.node.id = found.node.id) : path = other := by
  obtain ⟨located, hvisits, -, hmem⟩ := root.inPathOrder_visits
  have hnodup : (located.map fun entry => entry.2.node.id).Nodup := by
    rw [Distinct, ← hvisits, List.map_map] at h
    exact h
  have heq := List.inj_on_of_nodup_map hnodup ((hmem path visit).mpr hvisit)
    ((hmem other found).mpr hfound) hid
  exact congrArg Prod.fst heq

/-- What paths lead to is what is visited. -/
theorem exists_visitedAt_iff {root : Node} {visit : Visit} :
    (∃ path, root.VisitedAt path visit) ↔ visit ∈ root.visits := by
  obtain ⟨located, hvisits, -, hmem⟩ := root.inPathOrder_visits
  simp [← hvisits, ← hmem]

end Node

end PureLint
