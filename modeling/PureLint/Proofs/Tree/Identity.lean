import Mathlib.Data.List.Flatten
import Mathlib.Data.List.Nodup
import PureLint.Parse
import PureLint.Proofs.Tree.Inside
import PureLint.Proofs.Tree.Lineage

/-!
# Trees of distinct nodes

In a tree of distinct nodes no node is visited twice, and none lies inside itself. A tree read from
plain data is such a tree, as its objects are numbered one by one.
-/

namespace PureLint

open Event

/-- The nodes visited in a tree are distinct objects. -/
def Node.Distinct (root : Node) : Prop := (root.visits.map fun visit => visit.node.id).Nodup

instance (root : Node) : Decidable root.Distinct := inferInstanceAs (Decidable (List.Nodup _))

namespace Event

/-- The open nodes are entered in the order in which they stand around each other. -/
theorem reverse_sublist_of_mem_openAtEnters {events : List Event} {opened lineage seen : List Visit}
    (hopened : opened.reverse.Sublist seen) (h : lineage ∈ openAtEnters opened events) :
    lineage.reverse.Sublist (seen ++ entered events) := by
  induction events generalizing opened seen with
  | nil => cases h
  | cons event events ih =>
    cases event with
    | enter visit =>
      have hcons : (visit :: opened).reverse.Sublist (seen ++ [visit]) := by
        rw [List.reverse_cons]
        exact hopened.append_right [visit]
      rw [entered_enter, List.append_cons]
      rcases List.mem_cons.mp h with rfl | h
      · exact hcons.trans (List.sublist_append_left _ _)
      · exact ih hcons h
    | leave visit =>
      have htail : opened.tail.reverse.Sublist seen :=
        (List.reverse_sublist.mpr (List.tail_sublist opened)).trans hopened
      exact ih htail h

end Event

/-- In a tree of distinct nodes no node lies inside itself. -/
theorem Node.Distinct.acyclic {root : Node} (h : root.Distinct) : root.Acyclic := by
  intro lineage hlineage
  rw [← openAtEnters_events] at hlineage
  have hstart : ([] : List Visit).reverse.Sublist [] := List.Sublist.slnil
  have hsublist : lineage.reverse.Sublist root.visits :=
    reverse_sublist_of_mem_openAtEnters hstart hlineage
  have hids : (lineage.reverse.map fun visit => visit.node.id).Nodup :=
    List.Nodup.sublist (hsublist.map _) h
  rwa [List.map_reverse, List.nodup_reverse] at hids

/-- The identities of the nodes that events enter. -/
def Event.enteredIds (events : List Event) : List Nat :=
  (entered events).map fun visit => visit.node.id

namespace Value

/-- The walk over fields enters nodes in the order of the identities, if so does the walk over each
of their contents. -/
theorem enteredIds_fieldEvents {fields : List (String × Value)} (parent : Option Node)
    (h : ∀ entry ∈ contents fields,
      (enteredIds (events parent entry.1 entry.2)).Sublist entry.2.ids) :
    (enteredIds (fieldEvents parent fields)).Sublist (fieldIds fields) := by
  rw [fieldEvents_eq, fieldIds_eq, enteredIds, entered, List.filterMap_flatMap, List.map_flatMap]
  exact List.Sublist.flatMap_right _ h

/-- The walk over a value enters nodes in the order of the identities in the value. -/
theorem enteredIds_events (value : Value) (parent : Option Node) (key : String) :
    (enteredIds (value.events parent key)).Sublist value.ids := by
  induction value using inductionOnContents generalizing parent key with
  | object id fields ih =>
    have hfields (parent : Option Node) :
        (enteredIds (fieldEvents parent fields)).Sublist (fieldIds fields) :=
      enteredIds_fieldEvents parent fun entry hentry => ih entry hentry parent entry.1
    rw [ids]
    rcases events_object_cases id fields parent key with
      ⟨node, hnode, hevents⟩ | ⟨-, -, hevents⟩ | ⟨-, hevents⟩
    · obtain ⟨rfl, -, -⟩ := node?_object hnode
      have hinside := (hfields (some node)).cons_cons node.id
      rw [hevents, enteredIds, entered_enter, entered_append, entered_leave, entered_nil,
        List.append_nil]
      exact hinside
    · rw [hevents]
      exact (hfields none).cons id
    · rw [hevents]
      exact List.nil_sublist _
  | other value h =>
    rw [events_of_ne_object h]
    exact List.nil_sublist _

/-- Identities that are the numbers from one up to another. -/
def Numbered (next : Nat) (ids : List Nat) (after : Nat) : Prop :=
  next ≤ after ∧ ids = List.range' next (after - next)

namespace Numbered

variable {next middle after : Nat} {first second : List Nat}

/-- No identities take no numbers. -/
theorem nil (next : Nat) : Numbered next [] next := ⟨Nat.le_refl next, by simp⟩

/-- Identities one after the other take the numbers one after the other. -/
theorem append (hfirst : Numbered next first middle) (hsecond : Numbered middle second after) :
    Numbered next (first ++ second) after := by
  obtain ⟨hle, rfl⟩ := hfirst
  obtain ⟨hle', rfl⟩ := hsecond
  refine ⟨Nat.le_trans hle hle', ?_⟩
  have hstart : middle = next + (middle - next) := by omega
  have hlength : after - next = (middle - next) + (after - middle) := by omega
  rw [hlength, ← List.range'_append_1, ← hstart]

/-- An identity in front takes a number in front. -/
theorem cons (h : Numbered (next + 1) first after) : Numbered next (next :: first) after := by
  obtain ⟨hle, rfl⟩ := h
  refine ⟨by omega, ?_⟩
  have hlength : after - next = (after - (next + 1)) + 1 := by omega
  rw [hlength, List.range'_succ]

end Numbered

mutual

/-- The objects of a piece of data are numbered one by one. -/
theorem ids_ofJson (next : Nat) (data : Json) :
    Numbered next (ofJson next data).1.ids (ofJson next data).2 := by
  cases data with
  | array items => exact ids_ofJsonItems next items
  | object fields => exact (ids_ofJsonFields (next + 1) fields).cons
  | _ => exact Numbered.nil next

/-- The objects among items are numbered one by one. -/
theorem ids_ofJsonItems (next : Nat) (items : List Json) :
    Numbered next (itemIds (ofJsonItems next items).1) (ofJsonItems next items).2 := by
  cases items with
  | nil => exact Numbered.nil next
  | cons item rest => exact (ids_ofJson next item).append (ids_ofJsonItems _ rest)

/-- The objects among fields are numbered one by one. -/
theorem ids_ofJsonFields (next : Nat) (fields : List (String × Json)) :
    Numbered next (fieldIds (ofJsonFields next fields).1) (ofJsonFields next fields).2 := by
  match fields with
  | [] => exact Numbered.nil next
  | (key, value) :: rest => exact (ids_ofJson next value).append (ids_ofJsonFields _ rest)

end

end Value

/-- A tree read from plain data is one of distinct nodes. -/
theorem Node.distinct_of_ofJson {next : Nat} {data : Json} {root : Node}
    (h : (Value.ofJson next data).1.node? = some root) : root.Distinct := by
  obtain ⟨-, hids⟩ := Value.ids_ofJson next data
  cases hvalue : (Value.ofJson next data).1 with
  | object id fields =>
    rw [hvalue] at h hids
    obtain ⟨rfl, rfl, -⟩ := Value.node?_object h
    have hinside : (enteredIds (Value.fieldEvents (some root) root.fields)).Sublist
        (Value.fieldIds root.fields) :=
      Value.enteredIds_fieldEvents _ fun entry _ => entry.2.enteredIds_events _ _
    rw [Distinct, visits_eq]
    refine List.Nodup.sublist (hinside.cons_cons root.id) ?_
    rw [← Value.ids, hids]
    exact List.nodup_range'
  | _ =>
    rw [hvalue] at h
    cases h

/-- The program of a parse result that is read from data is a tree of distinct nodes, and none of
them lies inside itself. -/
theorem RawParse.distinct_program {data : Json} {program : Node}
    (h : (RawParse.ofJson data).read.program = some program) :
    program.Distinct ∧ program.Acyclic := by
  have hdistinct : program.Distinct := Node.distinct_of_ofJson h
  exact ⟨hdistinct, hdistinct.acyclic⟩

end PureLint
