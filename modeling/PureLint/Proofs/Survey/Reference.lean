import Mathlib.Data.List.Nodup
import PureLint.Proofs.Analysis.Calls
import PureLint.Proofs.Survey.Names
import PureLint.Proofs.Tree.Identity

/-!
# References during the walk

How an identifier reads its name is decided as the walk enters it, from what is bound so far. In a
tree of distinct nodes this is also what is decided at the end: an identifier is bound only by nodes
around it, and those are entered before it.
-/

namespace PureLint

open Event

namespace Survey

/-- The visits of the stages are those that the events enter. -/
theorem stages_fst (s : Survey) (events : List Event) :
    (s.stages events).map Prod.fst = entered events := by
  induction events generalizing s with
  | nil => rfl
  | cons event events ih =>
    cases event with
    | enter visit => exact congrArg _ (ih (s.enter visit))
    | leave visit => exact ih (s.leave visit.node)

/-- A stage is a visit with what is known after the events up to its enter. -/
theorem exists_split_of_mem_stages {s : Survey} {events : List Event} {stage : Visit × Survey}
    (h : stage ∈ s.stages events) :
    ∃ before after, events = before ++ [.enter stage.1] ++ after ∧
      stage.2 = s.run (before ++ [.enter stage.1]) := by
  induction events generalizing s with
  | nil => cases h
  | cons event events ih =>
    have hlater (h : stage ∈ (s.step event).stages events) :
        ∃ before after, event :: events = before ++ [.enter stage.1] ++ after ∧
          stage.2 = s.run (before ++ [.enter stage.1]) := by
      obtain ⟨before, after, rfl, hstage⟩ := ih h
      exact ⟨event :: before, after, rfl, hstage⟩
    cases event with
    | enter visit =>
      rcases List.mem_cons.mp h with rfl | h
      · exact ⟨[], events, rfl, rfl⟩
      · exact hlater h
    | leave visit => exact hlater h

/-- A visit with what is known right after it is a stage of the walk. -/
theorem mem_stages_of_split {root : Node} {before after : List Event} {visit : Visit}
    (h : root.events = before ++ .enter visit :: after) (s : Survey) :
    (visit, (s.run before).enter visit) ∈ s.stages root.events := by
  rw [h, stages_append]
  exact List.mem_append_right _ List.mem_cons_self

/-- The identifiers known to be bound after events are those known before and those bound by a node
that was entered. -/
theorem mem_bindings_run (s : Survey) (events : List Event) (id : Nat) :
    id ∈ (s.run events).names.bindings ↔
      id ∈ s.names.bindings ∨
        ∃ visit ∈ entered events, ∃ n ∈ Names.boundAt visit.node, n.id = id := by
  induction events generalizing s with
  | nil => simp
  | cons event events ih =>
    rw [run_cons, ih]
    cases event with
    | enter visit =>
      have hstep : (s.step (.enter visit)).names = s.names.enter visit := rfl
      rw [hstep, Names.mem_bindings_enter, entered_enter, or_assoc]
      simp only [List.mem_cons, exists_eq_or_imp]
    | leave visit => rfl

/-- What is bound stays bound. -/
theorem bindings_run_subset (s : Survey) (events : List Event) :
    s.names.bindings ⊆ (s.run events).names.bindings := by
  intro id h
  exact (mem_bindings_run s events id).mpr (Or.inl h)

/-- In a tree of distinct nodes, no node that was entered is bound later. -/
theorem bound_before {root : Node} (hroot : root.Distinct) {s : Survey} {before after : List Event}
    (hsplit : root.events = before ++ after) {visit : Visit} (hvisit : visit ∈ entered before)
    (h : visit.node.id ∈ (s.run root.events).names.bindings) :
    visit.node.id ∈ (s.run before).names.bindings := by
  rw [mem_bindings_run] at h ⊢
  rcases h with h | ⟨binder, hbinder, n, hn, hid⟩
  · exact Or.inl h
  · rw [hsplit, entered_append] at hbinder
    rcases List.mem_append.mp hbinder with hbinder | hbinder
    · exact Or.inr ⟨binder, hbinder, n, hn, hid⟩
    · -- what is bound after `before` stands inside its binder, so it is entered later
      exfalso
      obtain ⟨inner, hinner, rfl⟩ := Names.holds_of_mem_boundAt hn
      obtain ⟨between, late, rfl⟩ := List.append_of_mem (mem_entered.mp hbinder)
      have hcomplete := root.complete_events
      rw [hsplit, ← List.append_assoc] at hcomplete
      have hlate : inner ∈ entered (between ++ .enter binder :: late) := by
        rw [entered_append, entered_enter]
        exact List.mem_append_right _
          (List.mem_cons_of_mem _ (hcomplete.visitsInside_subset hinner))
      have hdistinct : (enteredIds root.events).Nodup := hroot
      rw [hsplit, enteredIds, entered_append, List.map_append] at hdistinct
      exact (List.nodup_append.mp hdistinct).2.2 visit.node.id (List.mem_map_of_mem hvisit)
        inner.node.id (List.mem_map_of_mem hlate) hid.symm

/-- How an identifier reads its name depends on whether it is known to be bound, and on no other
knowledge. -/
theorem reference_congr {s t : Survey} {visit : Visit}
    (h : visit.node.id ∈ s.names.bindings ↔ visit.node.id ∈ t.names.bindings) :
    s.reference visit = t.reference visit ∧ s.reference? visit = t.reference? visit := by
  unfold reference reference? Visit.reference Visit.reference?
  rw [contains_congr h]
  exact ⟨rfl, rfl⟩

/-- In a tree of distinct nodes, a node is known to be bound at its visit if it is at the end. -/
theorem mem_bindings_stage {root : Node} (hroot : root.Distinct) {s : Survey}
    {stage : Visit × Survey} (h : stage ∈ s.stages root.events) :
    stage.1.node.id ∈ stage.2.names.bindings ↔
      stage.1.node.id ∈ (s.run root.events).names.bindings := by
  obtain ⟨before, after, hsplit, hstage⟩ := exists_split_of_mem_stages h
  rw [hstage]
  have hentered : stage.1 ∈ entered (before ++ [.enter stage.1]) := by
    rw [entered_append]
    exact List.mem_append_right _ List.mem_cons_self
  constructor
  · intro hbound
    rw [hsplit, run_append]
    exact bindings_run_subset _ _ hbound
  · intro hbound
    exact bound_before hroot hsplit hentered hbound

/-- In a tree of distinct nodes, the look-up of a reference is answered at its visit as at the
end. -/
theorem reference_stage {root : Node} (hroot : root.Distinct) {s : Survey}
    {stage : Visit × Survey} (h : stage ∈ s.stages root.events) :
    stage.2.reference stage.1 = (s.run root.events).reference stage.1 :=
  (reference_congr (mem_bindings_stage hroot h)).1

/-- In a tree of distinct nodes, a reference is the same at its visit as at the end. -/
theorem reference?_stage {root : Node} (hroot : root.Distinct) {s : Survey}
    {stage : Visit × Survey} (h : stage ∈ s.stages root.events) :
    stage.2.reference? stage.1 = (s.run root.events).reference? stage.1 :=
  (reference_congr (mem_bindings_stage hroot h)).2

/-- The names known to be read after events are those known before and those of the identifiers that
read them at a stage. -/
theorem mem_used_run (s : Survey) (events : List Event) (name : String) :
    name ∈ (s.run events).names.used ↔
      name ∈ s.names.used ∨ ∃ stage ∈ s.stages events,
        stage.1.node.name? = some name ∧ (stage.2.reference? stage.1).isSome := by
  induction events generalizing s with
  | nil => simp [stages]
  | cons event events ih =>
    rw [run_cons, ih]
    cases event with
    | enter visit =>
      have hstep : (s.step (.enter visit)).names = s.names.enter visit := rfl
      rw [hstep, Names.mem_used_enter, stages, or_assoc]
      simp only [List.mem_cons, exists_eq_or_imp]
      rfl
    | leave visit => rfl

/-- In a tree of distinct nodes, the names known to be read at the end are those of the identifiers
that then read them. -/
theorem mem_used_final {root : Node} (hroot : root.Distinct) (s : Survey) (name : String) :
    name ∈ (s.run root.events).names.used ↔
      name ∈ s.names.used ∨ ∃ visit ∈ root.visits,
        visit.node.name? = some name ∧ ((s.run root.events).reference? visit).isSome := by
  have hvisits : (s.stages root.events).map Prod.fst = root.visits := stages_fst s root.events
  rw [mem_used_run, ← hvisits]
  refine or_congr_right ⟨?_, ?_⟩
  · rintro ⟨stage, hstage, hname, hkind⟩
    rw [reference?_stage hroot hstage] at hkind
    exact ⟨stage.1, List.mem_map_of_mem hstage, hname, hkind⟩
  · rintro ⟨visit, hvisit, hname, hkind⟩
    obtain ⟨stage, hstage, rfl⟩ := List.mem_map.mp hvisit
    rw [← reference?_stage hroot hstage] at hkind
    exact ⟨stage, hstage, hname, hkind⟩

end Survey

end PureLint
