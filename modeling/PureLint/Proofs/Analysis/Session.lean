import Mathlib.Data.List.Induction
import PureLint.Proofs.Analysis.Calls
import PureLint.Proofs.Diagnostic.Messages

/-!
# The run of an analysis

A check that is run hands messages to the sink, notes features and may fail. Under its own name it
adds diagnostics and a failure, under any other name nothing. So two runs that agree on a name go on
to do so, however many checks under other names one of them has between.
-/

namespace PureLint

/-- A report as the message of a rule. -/
def Report.messageOf (rule : String) (report : Report) : Message :=
  ⟨rule, report.message, report.span⟩

/-- A check that comes to the same whatever features were noted. -/
def Call.Steady (due : Call) : Prop := ∀ used, due.run used = due.run []

/-- The features that a check notes if none were noted before. -/
def Call.uses (due : Call) : List Feature := (due.run []).uses

namespace Session

variable {s t : Session} {id : String}

/-- A check is run if none under its name has failed. -/
theorem call_of_not_failed {due : Call} (h : due.id ∉ s.failed) :
    s.call due = s.take due.id (due.run s.used) :=
  if_neg fun hfailed => h (List.contains_iff_mem.mp hfailed)

/-- The sink takes over all that a check reports. -/
theorem take_sink (s : Session) (id : String) (outcome : Outcome) :
    (s.take id outcome).sink = s.sink.submitAll (outcome.reports.map (Report.messageOf id)) := by
  rw [Sink.submitAll, List.foldl_map]
  unfold take
  cases outcome.failure <;> rfl

/-- The features that a check notes come after those noted before. -/
theorem take_used (s : Session) (id : String) (outcome : Outcome) :
    (s.take id outcome).used = s.used ++ outcome.uses := by
  unfold take
  cases outcome.failure <;> rfl

/-- Only a check that fails adds its name to the failed ones. -/
theorem take_failed (s : Session) (id : String) (outcome : Outcome) :
    (s.take id outcome).failed = s.failed ++ if outcome.failure.isSome then [id] else [] := by
  unfold take
  cases outcome.failure with
  | none => exact (List.append_nil _).symm
  | some reason => rfl

/-- The diagnostics that are stored under a name. -/
def storedOf (s : Session) (id : String) : List Diagnostic :=
  s.sink.stored.filter fun diagnostic => diagnostic.rule == id

/-- A check stores what is kept of its messages, and only under its own name. -/
theorem storedOf_take (s : Session) (id other : String) (outcome : Outcome) :
    (s.take other outcome).storedOf id =
      s.storedOf id ++
        if other = id then
          ((outcome.reports.map (Report.messageOf other)).filter
            fun m => s.sink.fateOf m = .kept).map s.sink.diagnosticOf
        else [] := by
  unfold storedOf
  rw [take_sink, Sink.stored_submitAll, List.filter_append]
  congr 1
  have hrule : ∀ diagnostic ∈ ((outcome.reports.map (Report.messageOf other)).filter
      fun m => s.sink.fateOf m = .kept).map s.sink.diagnosticOf, diagnostic.rule = other := by
    intro diagnostic hdiagnostic
    obtain ⟨m, hm, rfl⟩ := List.mem_map.mp hdiagnostic
    obtain ⟨report, -, rfl⟩ := List.mem_map.mp (List.mem_filter.mp hm).1
    rfl
  split
  · rename_i hid
    rw [List.filter_eq_self]
    intro diagnostic hdiagnostic
    rw [hrule diagnostic hdiagnostic, hid, beq_self_eq_true]
  · rename_i hid
    rw [List.filter_eq_nil_iff]
    intro diagnostic hdiagnostic
    rw [hrule diagnostic hdiagnostic, beq_iff_eq]
    exact hid

/-- Two runs on one file that agree on what is known under a name. -/
structure Agree (id : String) (s t : Session) : Prop where
  sink : s.sink.Alike t.sink
  stored : s.storedOf id = t.storedOf id
  failed : id ∈ s.failed ↔ id ∈ t.failed

/-- A run agrees with itself. -/
theorem Agree.refl (id : String) (s : Session) : Agree id s s := ⟨Sink.Alike.refl _, rfl, Iff.rfl⟩

/-- A check under another name, in one of two runs, changes nothing under the name. -/
theorem Agree.call_left (h : Agree id s t) {due : Call} (hdue : due.id ≠ id) :
    Agree id (s.call due) t := by
  unfold call
  split
  · exact h
  · have hne : id ≠ due.id := hdue.symm
    refine ⟨?_, ?_, ?_⟩
    · rw [take_sink]
      exact (Sink.alike_submitAll _ _).symm.trans h.sink
    · rw [storedOf_take, if_neg hdue, List.append_nil, h.stored]
    · rw [take_failed, List.mem_append, ← h.failed]
      apply or_iff_left
      intro hmem
      split at hmem
      · exact hne (List.mem_singleton.mp hmem)
      · cases hmem

/-- A check under the name does the same in both runs, if it comes to the same. -/
theorem Agree.call (h : Agree id s t) {due : Call} (hdue : due.id = id)
    (hrun : due.run s.used = due.run t.used) : Agree id (s.call due) (t.call due) := by
  have hfailed : s.failed.contains due.id = t.failed.contains due.id := by
    rw [hdue]
    exact contains_congr h.failed
  unfold Session.call
  rw [hfailed, hrun]
  split
  · exact h
  · refine ⟨?_, ?_, ?_⟩
    · rw [take_sink, take_sink]
      have halike := h.sink
      exact (Sink.alike_submitAll _ _).symm.trans (halike.trans (Sink.alike_submitAll _ _))
    · have hfate : s.sink.fateOf = t.sink.fateOf := funext h.sink.fateOf_eq
      have hdiagnostic : s.sink.diagnosticOf = t.sink.diagnosticOf :=
        funext h.sink.diagnosticOf_eq
      rw [storedOf_take, storedOf_take, h.stored, hfate, hdiagnostic]
    · simp only [take_failed, List.mem_append, h.failed]

/-- **Checks under other names change nothing.** A run over all checks agrees on a name with the run
over the checks under the name alone, if each of these comes to the same in both runs. -/
theorem Agree.foldl (h : Agree id s t) {calls : List Call}
    (hrun : ∀ before due, before ++ [due] <+: calls → due.id = id →
      due.run (before.foldl Session.call s).used =
        due.run ((before.filter (Call.named id)).foldl Session.call t).used) :
    Agree id (calls.foldl Session.call s)
      ((calls.filter (Call.named id)).foldl Session.call t) := by
  induction calls using List.reverseRecOn with
  | nil => exact h
  | append_singleton before due ih =>
    have hbefore : Agree id (before.foldl Session.call s)
        ((before.filter (Call.named id)).foldl Session.call t) := by
      apply ih
      intro earlier other hpart
      exact hrun earlier other (hpart.trans (List.prefix_append _ _))
    rw [List.foldl_append, List.filter_append, List.foldl_append]
    by_cases hdue : due.id = id
    · have hnamed : due.named id = true := beq_iff_eq.mpr hdue
      rw [List.filter_cons_of_pos hnamed]
      exact hbefore.call hdue (hrun before due (List.prefix_refl _) hdue)
    · have hnamed : ¬due.named id = true := by
        intro heq
        exact hdue (beq_iff_eq.mp heq)
      rw [List.filter_cons_of_neg hnamed]
      exact hbefore.call_left hdue

end Session

end PureLint
