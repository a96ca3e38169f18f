import PureLint.Proofs.Lists
import PureLint.Proofs.Tree.Contents
import PureLint.Proofs.Tree.Pattern

/-!
# What is visited inside a node

Whatever a node holds in a field, be it directly or among the items of an array, is visited inside
the node, and so is whatever is visited inside that. In particular the identifiers that a pattern
binds are visited no earlier than the pattern.
-/

namespace PureLint

namespace Event

/-- The visit that an event enters. -/
def entered? : Event → Option Visit
  | .enter visit => some visit
  | .leave _ => none

/-- The visits that events enter, in their order. -/
def entered (events : List Event) : List Visit := events.filterMap entered?

/-- No events enter nothing. -/
@[simp] theorem entered_nil : entered [] = [] := rfl

/-- An enter comes before what the other events enter. -/
@[simp] theorem entered_enter (visit : Visit) (rest : List Event) :
    entered (.enter visit :: rest) = visit :: entered rest := rfl

/-- A leave enters nothing. -/
@[simp] theorem entered_leave (visit : Visit) (rest : List Event) :
    entered (.leave visit :: rest) = entered rest := rfl

/-- Events one after the other enter what the first do and then what the second do. -/
@[simp] theorem entered_append (first second : List Event) :
    entered (first ++ second) = entered first ++ entered second := List.filterMap_append

/-- A visit is entered exactly if there is an event that does so. -/
theorem mem_entered {visit : Visit} {events : List Event} :
    visit ∈ entered events ↔ .enter visit ∈ events := by
  rw [entered, List.mem_filterMap]
  constructor
  · rintro ⟨event, hmem, hentered⟩
    cases event with
    | enter other =>
      cases hentered
      exact hmem
    | leave other => cases hentered
  · intro hmem
    exact ⟨.enter visit, hmem, rfl⟩

end Event

open Event

/-- The visits inside a node, in the order of the walk. -/
def Node.visitsInside (n : Node) : List Visit := entered (Value.fieldEvents (some n) n.fields)

/-- The visits of a tree are those to its root and inside it. -/
theorem Node.visits_eq (root : Node) : root.visits = ⟨root, none, none⟩ :: root.visitsInside := by
  change entered root.events = _
  rw [Node.events, entered_enter, entered_append, entered_leave, entered_nil, List.append_nil]
  rfl

namespace Event

/-- Events in which every enter is followed by the visits inside the node, whatever comes later. -/
def Complete : List Event → Prop
  | [] => True
  | .enter visit :: rest => visit.node.visitsInside <+: entered rest ∧ Complete rest
  | .leave _ :: rest => Complete rest

/-- Complete events one after the other are complete. -/
theorem Complete.append {first second : List Event} (hfirst : Complete first)
    (hsecond : Complete second) : Complete (first ++ second) := by
  induction first with
  | nil => exact hsecond
  | cons event first ih =>
    cases event with
    | enter visit =>
      obtain ⟨hinside, hrest⟩ := hfirst
      refine ⟨?_, ih hrest⟩
      change _ <+: entered (first ++ second)
      rw [entered_append]
      exact hinside.trans (List.prefix_append _ _)
    | leave visit => exact ih hfirst

/-- A visit to a node is complete if what is walked inside it is. -/
theorem Complete.node (visit : Visit)
    (h : Complete (Value.fieldEvents (some visit.node) visit.node.fields)) :
    Complete (.enter visit ::
      (Value.fieldEvents (some visit.node) visit.node.fields ++ [.leave visit])) := by
  have hleave : Complete [.leave visit] := trivial
  refine ⟨?_, h.append hleave⟩
  rw [entered_append]
  exact List.prefix_append _ _

/-- Right after the enter of a node, complete events enter what is inside the node. -/
theorem Complete.visitsInside_prefix {before after : List Event} {visit : Visit}
    (h : Complete (before ++ .enter visit :: after)) :
    visit.node.visitsInside <+: entered after := by
  induction before with
  | nil => exact h.1
  | cons event before ih =>
    cases event with
    | enter other => exact ih h.2
    | leave other => exact ih h

/-- After the enter of a node, complete events enter all that is inside the node. -/
theorem Complete.visitsInside_subset {before after : List Event} {visit : Visit}
    (h : Complete (before ++ .enter visit :: after)) :
    visit.node.visitsInside ⊆ entered after := h.visitsInside_prefix.subset

end Event

namespace Node

/-- The walk inside a node is complete. -/
theorem complete_fieldEvents (n : Node) : Complete (Value.fieldEvents (some n) n.fields) :=
  Value.of_walk_fields trivial Complete.append Complete.node (some n) n.fields

/-- The walk over a tree is complete. -/
theorem complete_events (root : Node) : Complete root.events :=
  Complete.node ⟨root, none, none⟩ root.complete_fieldEvents

/-- Whether a node is visited inside another. -/
def Holds (n inner : Node) : Prop := ∃ visit ∈ n.visitsInside, visit.node = inner

/-- What is inside a node inside is inside. -/
theorem Holds.trans {n middle inner : Node} (h : n.Holds middle) (hinner : middle.Holds inner) :
    n.Holds inner := by
  obtain ⟨visit, hvisit, rfl⟩ := h
  obtain ⟨innerVisit, hinnerVisit, rfl⟩ := hinner
  obtain ⟨before, after, hsplit⟩ := List.append_of_mem (mem_entered.mp hvisit)
  have hcomplete := n.complete_fieldEvents
  rw [hsplit] at hcomplete
  refine ⟨innerVisit, ?_, rfl⟩
  rw [visitsInside, hsplit, entered_append, entered_enter]
  exact List.mem_append_right _
    (List.mem_cons_of_mem _ (hcomplete.visitsInside_subset hinnerVisit))

/-- A node among the contents of a node is visited there. -/
theorem visit_of_mem_contents {n inner : Node} {key : String} {value : Value}
    (hmem : (key, value) ∈ Value.contents n.fields) (hinner : value.node? = some inner) :
    ⟨inner, some n, some key⟩ ∈ n.visitsInside := by
  apply mem_entered.mpr
  rw [Value.fieldEvents_eq]
  refine List.mem_flatMap.mpr ⟨(key, value), hmem, ?_⟩
  cases value with
  | object id fields =>
    obtain ⟨-, -, htype⟩ := Value.node?_object hinner
    rcases Value.events_object_cases id fields (some n) key with
      ⟨node, hnode, hevents⟩ | ⟨hnode, -, -⟩ | ⟨hnone, -⟩
    · cases hinner.symm.trans hnode
      rw [hevents]
      exact List.mem_cons_self
    · cases hinner.symm.trans hnode
    · rw [hnone] at htype
      cases htype
  | _ => cases hinner

/-- The node in a field is visited there. -/
theorem visit_child {n c : Node} {key : String} (h : n.child key = some c) :
    ⟨c, some n, some key⟩ ∈ n.visitsInside := by
  obtain ⟨value, hlookup, hnode⟩ := Option.bind_eq_some_iff.mp h
  have hcontents : (key, value) ∈ Value.contents n.fields := by
    refine List.mem_flatMap.mpr ⟨(key, value), mem_of_lookup hlookup, ?_⟩
    cases value with
    | object id fields => exact List.mem_singleton_self _
    | _ => cases hnode
  exact visit_of_mem_contents hcontents hnode

/-- The nodes among the items of an array in a field are visited there. -/
theorem visit_children {n c : Node} {key : String} (h : c ∈ n.children key) :
    ⟨c, some n, some key⟩ ∈ n.visitsInside := by
  unfold children at h
  split at h
  · rename_i items hlookup
    obtain ⟨value, hmem, hnode⟩ := List.mem_filterMap.mp h
    have hcontents : (key, value) ∈ Value.contents n.fields := by
      refine List.mem_flatMap.mpr ⟨(key, .array items), mem_of_lookup hlookup, ?_⟩
      exact List.mem_map.mpr ⟨value, hmem, rfl⟩
    exact visit_of_mem_contents hcontents hnode
  · cases h

/-- The node in a field is inside. -/
theorem holds_child {n c : Node} {key : String} (h : n.child key = some c) : n.Holds c :=
  ⟨_, visit_child h, rfl⟩

/-- The nodes among the items of an array in a field are inside. -/
theorem holds_children {n c : Node} {key : String} (h : c ∈ n.children key) : n.Holds c :=
  ⟨_, visit_children h, rfl⟩

/-- What a node inside is or holds is inside. -/
theorem Holds.of_eq_or {n middle inner : Node} (h : n.Holds middle)
    (hinner : inner = middle ∨ middle.Holds inner) : n.Holds inner := by
  rcases hinner with rfl | hinner
  · exact h
  · exact h.trans hinner

/-- What a pattern is made of is inside it. -/
theorem PatternStep.holds {pattern inner : Node} (h : PatternStep pattern inner) :
    pattern.Holds inner := by
  cases h with
  | property _ hproperty hinner => exact (holds_children hproperty).trans (holds_child hinner)
  | element _ hinner => exact holds_children hinner
  | wrapped _ hinner => exact holds_child hinner

/-- An identifier that a pattern binds is the pattern itself or inside it. -/
theorem eq_or_holds_of_mem_boundIdentifiers {pattern identifier : Node}
    (h : identifier ∈ pattern.boundIdentifiers) :
    identifier = pattern ∨ pattern.Holds identifier := by
  obtain ⟨-, hsteps⟩ := mem_boundIdentifiers_iff.mp h
  clear h
  induction hsteps using Relation.ReflTransGen.head_induction_on with
  | refl => exact Or.inl rfl
  | head hstep _ ih => exact Or.inr (hstep.holds.of_eq_or ih)

end Node

end PureLint
