import Mathlib.Data.List.Basic
import PureLint.Proofs.Tree.Contents

/-!
# Lineages

The lineage of a visited node is the chain of visited nodes from it up to the root, the node itself
first. It is defined on the tree alone. The events of a walk nest like brackets, and the nodes that
the walk has entered and not yet left are at every node just its lineage.
-/

namespace PureLint

namespace Value

mutual

/-- The lineages of the nodes visited in a value found under `key` in `parent`, where `above` is the
lineage of the nearest visited node around the value. -/
def lineages (above : List Visit) (parent : Option Node) (key : String) :
    Value → List (List Visit)
  | .object id fields =>
    match textField? fields "type" with
    | none => []
    | some _ =>
      match (Value.object id fields).node? with
      | some node =>
        let lineage := ⟨node, parent, some key⟩ :: above
        lineage :: fieldLineages lineage (some node) fields
      | none => fieldLineages above none fields
  | _ => []

/-- The lineages of the nodes visited in the fields of an object. -/
def fieldLineages (above : List Visit) (parent : Option Node) :
    List (String × Value) → List (List Visit)
  | [] => []
  | (key, .array items) :: rest =>
    itemLineages above parent key items ++ fieldLineages above parent rest
  | (key, value) :: rest => lineages above parent key value ++ fieldLineages above parent rest

/-- The lineages of the nodes visited in the items of an array. -/
def itemLineages (above : List Visit) (parent : Option Node) (key : String) :
    List Value → List (List Visit)
  | [] => []
  | item :: rest => lineages above parent key item ++ itemLineages above parent key rest

end

/-- The lineages in items are those in each. -/
theorem itemLineages_eq (above : List Visit) (parent : Option Node) (key : String)
    (items : List Value) :
    itemLineages above parent key items = items.flatMap (lineages above parent key) := by
  induction items with
  | nil => rfl
  | cons item rest ih => rw [itemLineages, ih, List.flatMap_cons]

/-- The lineages in fields are those in their contents. -/
theorem fieldLineages_eq (above : List Visit) (parent : Option Node)
    (fields : List (String × Value)) :
    fieldLineages above parent fields =
      (contents fields).flatMap fun entry => lineages above parent entry.1 entry.2 := by
  induction fields with
  | nil => rfl
  | cons entry rest ih =>
    obtain ⟨key, value⟩ := entry
    rw [contents_cons, List.flatMap_append, ← ih, List.flatMap_map]
    cases value with
    | array items =>
      rw [fieldLineages, itemLineages_eq]
      rfl
    | _ => simp [fieldLineages, held]

end Value

/-- The lineages of the nodes of a tree, in the order the walk enters the nodes. -/
def Node.lineages (root : Node) : List (List Visit) :=
  let lineage := [⟨root, none, none⟩]
  lineage :: Value.fieldLineages lineage (some root) root.fields

/-- No visited node of a tree lies inside itself. -/
def Node.Acyclic (root : Node) : Prop :=
  ∀ lineage ∈ root.lineages, (lineage.map fun visit => visit.node.id).Nodup

instance (root : Node) : Decidable root.Acyclic :=
  inferInstanceAs (Decidable (∀ lineage ∈ root.lineages, _))

namespace Event

/-- The nodes that are entered and not left after further events, the last entered first. -/
def openAfter (opened : List Visit) : List Event → List Visit
  | [] => opened
  | .enter visit :: rest => openAfter (visit :: opened) rest
  | .leave _ :: rest => openAfter opened.tail rest

/-- The nodes that are entered and not left right after each enter. -/
def openAtEnters (opened : List Visit) : List Event → List (List Visit)
  | [] => []
  | .enter visit :: rest => (visit :: opened) :: openAtEnters (visit :: opened) rest
  | .leave _ :: rest => openAtEnters opened.tail rest

/-- Every leave is of the node entered last, and no node is entered inside itself. -/
def Nests (opened : List Visit) : List Event → Prop
  | [] => True
  | .enter visit :: rest =>
    (∀ outer ∈ opened, outer.node.id ≠ visit.node.id) ∧ Nests (visit :: opened) rest
  | .leave visit :: rest => opened.head? = some visit ∧ Nests opened.tail rest

/-- A part of a walk in which every node that is entered is left again, and no other. -/
inductive Balanced : List Event → Prop
  | nil : Balanced []
  | node (visit : Visit) {inside rest : List Event} :
    Balanced inside → Balanced rest → Balanced (.enter visit :: (inside ++ .leave visit :: rest))

/-- Events one after the other open what the second part opens after the first. -/
theorem openAfter_append (opened : List Visit) (first second : List Event) :
    openAfter opened (first ++ second) = openAfter (openAfter opened first) second := by
  induction first generalizing opened with
  | nil => rfl
  | cons event first ih => cases event <;> exact ih _

/-- What is open at the enters of two parts is what is open at those of the first, and at those of
the second after the first. -/
theorem openAtEnters_append (opened : List Visit) (first second : List Event) :
    openAtEnters opened (first ++ second) =
      openAtEnters opened first ++ openAtEnters (openAfter opened first) second := by
  induction first generalizing opened with
  | nil => rfl
  | cons event first ih =>
    cases event with
    | enter visit => exact congrArg _ (ih (visit :: opened))
    | leave _ => exact ih opened.tail

namespace Balanced

/-- Balanced parts one after the other are balanced. -/
theorem append {first second : List Event} (hfirst : Balanced first) (hsecond : Balanced second) :
    Balanced (first ++ second) := by
  induction hfirst with
  | nil => exact hsecond
  | node visit hinside _ _ ih =>
    have h := Balanced.node visit hinside ih
    simpa only [List.cons_append, List.append_assoc] using h

/-- A balanced part leaves open what was open. -/
theorem openAfter_eq {events : List Event} (h : Balanced events) (opened : List Visit) :
    openAfter opened events = opened := by
  induction h generalizing opened with
  | nil => rfl
  | node visit _ _ hinside hrest =>
    rw [openAfter, openAfter_append, hinside, openAfter, hrest]
    rfl

/-- A balanced part nests in front of all that nests after it, unless it enters a node inside
itself. -/
theorem nests {events rest : List Event} {opened : List Visit} (h : Balanced events)
    (hdistinct : ∀ lineage ∈ openAtEnters opened events,
      (lineage.map fun visit => visit.node.id).Nodup)
    (hrest : Nests opened rest) : Nests opened (events ++ rest) := by
  induction h generalizing opened rest with
  | nil => exact hrest
  | @node visit inside after hinside _ ihinside ihafter =>
    rw [openAtEnters, openAtEnters_append, hinside.openAfter_eq] at hdistinct
    have hvisit := hdistinct _ List.mem_cons_self
    rw [List.map_cons, List.nodup_cons] at hvisit
    rw [List.cons_append, List.append_assoc]
    refine ⟨?_, ihinside ?_ ⟨rfl, ihafter ?_ hrest⟩⟩
    · intro outer houter heq
      exact hvisit.1 (List.mem_map.mpr ⟨outer, houter, heq⟩)
    · intro lineage hlineage
      exact hdistinct lineage (List.mem_cons_of_mem _ (List.mem_append_left _ hlineage))
    · intro lineage hlineage
      exact hdistinct lineage (List.mem_cons_of_mem _ (List.mem_append_right _ hlineage))

end Balanced

/-- What is open at the enters of several balanced parts is what is open at those of each. -/
theorem openAtEnters_flatMap {α : Type} {items : List α} {f : α → List Event}
    (h : ∀ item ∈ items, Balanced (f item)) (opened : List Visit) :
    openAtEnters opened (items.flatMap f) =
      items.flatMap fun item => openAtEnters opened (f item) := by
  induction items with
  | nil => rfl
  | cons item items ih =>
    have hitem := h item List.mem_cons_self
    have hitems := ih (fun other hother => h other (List.mem_cons_of_mem _ hother))
    rw [List.flatMap_cons, openAtEnters_append, hitem.openAfter_eq, hitems, List.flatMap_cons]

end Event

open Event

namespace Value

/-- The walk over fields is balanced. -/
theorem balanced_fieldEvents (parent : Option Node) (fields : List (String × Value)) :
    Balanced (fieldEvents parent fields) :=
  of_walk_fields Balanced.nil Balanced.append (fun visit h => Balanced.node visit h Balanced.nil)
    parent fields

/-- The walk over a value is balanced. -/
theorem balanced_events (value : Value) (parent : Option Node) (key : String) :
    Balanced (value.events parent key) :=
  of_walk Balanced.nil Balanced.append (fun visit h => Balanced.node visit h Balanced.nil)
    value parent key

/-- What is open at the enters of the walk over fields are the lineages in them, if this is so for
each of their contents. -/
theorem openAtEnters_fieldEvents {fields : List (String × Value)} {opened : List Visit}
    {parent : Option Node}
    (h : ∀ entry ∈ contents fields,
      openAtEnters opened (events parent entry.1 entry.2) =
        lineages opened parent entry.1 entry.2) :
    openAtEnters opened (fieldEvents parent fields) = fieldLineages opened parent fields := by
  rw [fieldEvents_eq, fieldLineages_eq,
    openAtEnters_flatMap fun entry _ => entry.2.balanced_events _ _]
  exact List.flatMap_congr h

/-- The nodes that are open at the enters of the walk over a value are their lineages. -/
theorem openAtEnters_events (value : Value) (opened : List Visit) (parent : Option Node)
    (key : String) : openAtEnters opened (value.events parent key) =
      value.lineages opened parent key := by
  induction value using inductionOnContents generalizing opened parent key with
  | object id fields ih =>
    have hfields (opened : List Visit) (parent : Option Node) :
        openAtEnters opened (fieldEvents parent fields) = fieldLineages opened parent fields :=
      openAtEnters_fieldEvents fun entry hentry => ih entry hentry opened parent entry.1
    rcases events_object_cases id fields parent key with
      ⟨node, hnode, hevents⟩ | ⟨hnode, htype, hevents⟩ | ⟨htype, hevents⟩
    · obtain ⟨-, -, htype⟩ := node?_object hnode
      obtain ⟨kind, hkind⟩ := Option.isSome_iff_exists.mp htype
      simp only [hevents, lineages, hkind, hnode, openAtEnters, openAtEnters_append, hfields,
        List.append_nil]
    · obtain ⟨kind, hkind⟩ := Option.isSome_iff_exists.mp htype
      simp only [hevents, lineages, hkind, hnode, hfields]
    · simp only [hevents, lineages, htype, openAtEnters]
  | other value h =>
    rw [events_of_ne_object h]
    cases value with
    | object id fields => exact absurd rfl (h id fields)
    | _ => rfl

end Value

namespace Node

/-- The walk over a tree is balanced. -/
theorem balanced_events (root : Node) : Balanced root.events :=
  Balanced.node _ (Value.balanced_fieldEvents _ _) Balanced.nil

/-- The nodes that are open at the enters of the walk over a tree are their lineages. -/
theorem openAtEnters_events (root : Node) : openAtEnters [] root.events = root.lineages := by
  have hfields : openAtEnters [⟨root, none, none⟩] (Value.fieldEvents (some root) root.fields) =
      Value.fieldLineages [⟨root, none, none⟩] (some root) root.fields :=
    Value.openAtEnters_fieldEvents fun entry _ => entry.2.openAtEnters_events _ _ _
  simp only [events, lineages, openAtEnters, openAtEnters_append, hfields, List.append_nil]

/-- The walk over a tree nests if no node lies inside itself. -/
theorem nests_events {root : Node} (h : root.Acyclic) : Nests [] root.events := by
  rw [Acyclic, ← openAtEnters_events] at h
  have hend : Nests [] [] := trivial
  have hnests := root.balanced_events.nests h hend
  rwa [List.append_nil] at hnests

end Node

end PureLint
