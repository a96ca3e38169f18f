import PureLint.Proofs.Analysis.Session
import PureLint.Proofs.Diagnostic.Accounting

/-!
# The checks that are run

Of the checks that are due, those are run under whose name none has failed before. What they come to
is all that an analysis is made of: the messages, the features noted, the failures and the warnings
can be read off the list of runs.
-/

namespace PureLint

/-- A check that was run, and what it came to. -/
structure Run where
  due : Call
  outcome : Outcome

namespace Run

/-- The name that a check was run under. -/
def id (run : Run) : String := run.due.id

/-- Whether a check failed. -/
def fails (run : Run) : Bool := run.outcome.failure.isSome

/-- The messages that a check handed to the sink. -/
def messages (run : Run) : List Message := run.outcome.reports.map (Report.messageOf run.id)

/-- The run of a check that is told of no feature. -/
def ofCall (due : Call) : Run := ⟨due, due.run []⟩

/-- The warning about a check that failed on a file with something that has a text. -/
def warning? (filePath : String) (run : Run) : Option String :=
  (run.outcome.failure.bind Thrown.text?).map (Session.failureWarning run.id filePath)

end Run

/-- Messages one after the other can be handed over in two parts. -/
theorem Sink.submitAll_append (s : Sink) (first second : List Message) :
    s.submitAll (first ++ second) = (s.submitAll first).submitAll second := List.foldl_append

namespace Session

/-- The checks that are run, of those that are due, in their order. -/
def runs (s : Session) : List Call → List Run
  | [] => []
  | due :: rest =>
    (if due.id ∈ s.failed then [] else [⟨due, due.run s.used⟩]) ++ (s.call due).runs rest

/-- Where nothing is due nothing is run. -/
@[simp] theorem runs_nil (s : Session) : s.runs [] = [] := rfl

/-- The checks due one after the other are run one after the other. -/
theorem runs_append (s : Session) (first second : List Call) :
    s.runs (first ++ second) = s.runs first ++ (first.foldl call s).runs second := by
  induction first generalizing s with
  | nil => rfl
  | cons due first ih =>
    rw [List.cons_append, runs, runs, ih, List.append_assoc]
    rfl

/-- A check is not run if one under its name has failed, and changes nothing then. -/
theorem call_of_failed {s : Session} {due : Call} (h : due.id ∈ s.failed) : s.call due = s :=
  if_pos (List.contains_iff_mem.mpr h)

/-- Only a check that fails adds a warning, with the text of what was thrown. -/
theorem take_warnings (s : Session) (id : String) (outcome : Outcome) :
    (s.take id outcome).warnings = s.warnings ++
      ((outcome.failure.bind Thrown.text?).map (failureWarning id s.sink.filePath)).toList := by
  have hsink := take_sink s id outcome
  have hpath := (Sink.alike_submitAll s.sink (outcome.reports.map (Report.messageOf id))).filePath
  rw [← hsink] at hpath
  rw [hpath]
  unfold take
  cases outcome.failure with
  | none => exact (List.append_nil _).symm
  | some thrown => rfl

/-! ## What runs make of an analysis -/

/-- The state of an analysis with the runs it has had since. -/
structure Follows (s : Session) (runs : List Run) (t : Session) : Prop where
  sink : t.sink = s.sink.submitAll (runs.flatMap Run.messages)
  used : t.used = s.used ++ runs.flatMap fun run => run.outcome.uses
  failed : t.failed = s.failed ++ (runs.filter Run.fails).map Run.id
  warnings : t.warnings = s.warnings ++ runs.filterMap (Run.warning? s.sink.filePath)

namespace Follows

variable {s t u : Session} {first second : List Run}

/-- Without a run nothing changes. -/
theorem nil (s : Session) : Follows s [] s := by
  constructor <;> simp

/-- What follows on what follows, follows on all runs. -/
theorem append (h : Follows s first t) (h' : Follows t second u) :
    Follows s (first ++ second) u := by
  have hpath : t.sink.filePath = s.sink.filePath := by
    rw [h.sink]
    exact (Sink.alike_submitAll _ _).filePath.symm
  constructor
  · rw [h'.sink, h.sink, List.flatMap_append, Sink.submitAll_append]
  · rw [h'.used, h.used, List.flatMap_append, List.append_assoc]
  · rw [h'.failed, h.failed, List.filter_append, List.map_append, List.append_assoc]
  · rw [h'.warnings, h.warnings, hpath, List.filterMap_append, List.append_assoc]

/-- What a check comes to is taken over. -/
theorem take (s : Session) (due : Call) (outcome : Outcome) :
    Follows s [⟨due, outcome⟩] (s.take due.id outcome) := by
  constructor
  · rw [take_sink, List.flatMap_singleton]
    rfl
  · rw [take_used, List.flatMap_singleton]
  · rw [take_failed]
    by_cases h : outcome.failure.isSome
    · simp [Run.fails, Run.id, h]
    · simp [Run.fails, h]
  · rw [take_warnings]
    cases htext : outcome.failure.bind Thrown.text? <;> simp [Run.warning?, Run.id, htext]

end Follows

/-- An analysis is made of its runs. -/
theorem follows_foldl (s : Session) (calls : List Call) :
    Follows s (s.runs calls) (calls.foldl call s) := by
  induction calls generalizing s with
  | nil => exact Follows.nil s
  | cons due calls ih =>
    rw [runs, List.foldl_cons]
    by_cases h : due.id ∈ s.failed
    · rw [if_pos h, call_of_failed h]
      exact ih s
    · rw [if_neg h]
      have hcall : Follows s [⟨due, due.run s.used⟩] (s.call due) := by
        rw [call_of_not_failed h]
        exact Follows.take s due _
      exact hcall.append (ih (s.call due))

/-! ## Which checks are run -/

variable {s : Session} {calls : List Call}

/-- What has failed stays failed. -/
theorem failed_subset_foldl (s : Session) (calls : List Call) :
    s.failed ⊆ (calls.foldl call s).failed := by
  rw [(follows_foldl s calls).failed]
  exact List.subset_append_left _ _

/-- A name has failed after some checks if it had failed before, or a run under it failed. -/
theorem mem_failed_foldl {id : String} :
    id ∈ (calls.foldl call s).failed ↔
      id ∈ s.failed ∨ ∃ run ∈ s.runs calls, run.fails = true ∧ run.id = id := by
  rw [(follows_foldl s calls).failed, List.mem_append, List.mem_map]
  simp only [List.mem_filter, and_assoc]

/-- A name has not failed after some checks if it had not before, and no run under it failed. -/
theorem notMem_failed_of_runs {id : String} (hfailed : id ∉ s.failed)
    (hruns : ∀ run ∈ s.runs calls, run.fails = true → run.id ≠ id) :
    id ∉ (calls.foldl call s).failed := by
  rw [mem_failed_foldl, not_or]
  refine ⟨hfailed, ?_⟩
  rintro ⟨run, hrun, hfails, hid⟩
  exact hruns run hrun hfails hid

/-- Nothing is run under a name that has failed. -/
theorem id_notMem_failed {run : Run} (h : run ∈ s.runs calls) : run.id ∉ s.failed := by
  induction calls generalizing s with
  | nil => cases h
  | cons due calls ih =>
    rw [runs] at h
    rcases List.mem_append.mp h with h | h
    · split at h
      · cases h
      · rename_i hdue
        cases List.mem_singleton.mp h
        exact hdue
    · intro hfailed
      exact ih h (failed_subset_foldl s [due] hfailed)

/-- After a run that fails nothing more is run under its name. -/
theorem pairwise_runs (s : Session) (calls : List Call) :
    (s.runs calls).Pairwise fun run later => run.fails = true → later.id ≠ run.id := by
  induction calls generalizing s with
  | nil => exact List.Pairwise.nil
  | cons due calls ih =>
    rw [runs, List.pairwise_append]
    refine ⟨?_, ih (s.call due), ?_⟩
    · split
      · exact List.Pairwise.nil
      · exact List.pairwise_singleton _ _
    · intro run hrun later hlater hfails hid
      split at hrun
      · cases hrun
      · rename_i hdue
        cases List.mem_singleton.mp hrun
        have hfailure : (due.run s.used).failure.isSome = true := hfails
        have hfailed : due.id ∈ (s.call due).failed := by
          rw [call_of_not_failed hdue, take_failed, if_pos hfailure]
          exact List.mem_append_right _ List.mem_cons_self
        exact id_notMem_failed hlater (hid ▸ hfailed)

/-- No name fails twice. -/
theorem nodup_failures (s : Session) (calls : List Call) :
    (((s.runs calls).filter Run.fails).map Run.id).Nodup := by
  rw [List.Nodup, List.pairwise_map, List.pairwise_filter]
  refine (pairwise_runs s calls).imp ?_
  intro run later h hfails _
  exact (h hfails).symm

/-- A check that is due is run unless an earlier run under its name has failed. -/
theorem runs_concat (s : Session) (before : List Call) (due : Call) :
    s.runs (before ++ [due]) = s.runs before ++
      if due.id ∈ (before.foldl call s).failed then []
      else [⟨due, due.run (before.foldl call s).used⟩] := by
  rw [runs_append, runs, runs_nil, List.append_nil]

/-- A check whose name has not failed in the end was run. -/
theorem exists_run_of_mem {due : Call} (h : due ∈ calls)
    (hfailed : due.id ∉ (calls.foldl call s).failed) :
    ∃ used, (⟨due, due.run used⟩ : Run) ∈ s.runs calls := by
  obtain ⟨before, after, rfl⟩ := List.append_of_mem h
  have hbefore : due.id ∉ (before.foldl call s).failed := by
    intro hmem
    rw [List.foldl_append] at hfailed
    exact hfailed (failed_subset_foldl _ _ hmem)
  refine ⟨(before.foldl call s).used, ?_⟩
  rw [runs_append, runs, if_neg hbefore]
  exact List.mem_append_right _ (List.mem_append_left _ List.mem_cons_self)

/-- A run is one of a check that was due. -/
theorem due_of_mem_runs {run : Run} (h : run ∈ s.runs calls) :
    run.due ∈ calls ∧ ∃ used, run.outcome = run.due.run used := by
  induction calls generalizing s with
  | nil => cases h
  | cons due calls ih =>
    rw [runs] at h
    rcases List.mem_append.mp h with h | h
    · split at h
      · cases h
      · cases List.mem_singleton.mp h
        exact ⟨List.mem_cons_self, s.used, rfl⟩
    · obtain ⟨hdue, hused⟩ := ih h
      exact ⟨List.mem_cons_of_mem _ hdue, hused⟩

/-- A run of a check that comes to the same whatever features were noted, came to just that. -/
theorem outcome_of_steady (hsteady : ∀ due ∈ calls, due.Steady) {run : Run}
    (h : run ∈ s.runs calls) : run.outcome = run.due.run [] := by
  obtain ⟨hdue, used, houtcome⟩ := due_of_mem_runs h
  rw [houtcome, hsteady run.due hdue]

/-- A run was told the features that the runs before it noted. -/
theorem outcome_of_split {before after : List Run} {run : Run}
    (h : s.runs calls = before ++ run :: after) :
    run.outcome = run.due.run (s.used ++ before.flatMap fun run => run.outcome.uses) := by
  induction calls generalizing s before with
  | nil => simp at h
  | cons due calls ih =>
    rw [runs] at h
    by_cases hdue : due.id ∈ s.failed
    · rw [if_pos hdue, call_of_failed hdue] at h
      exact ih h
    · rw [if_neg hdue, List.singleton_append] at h
      cases before with
      | nil =>
        obtain ⟨rfl, -⟩ := List.cons.inj h
        simp
      | cons first before =>
        obtain ⟨rfl, hrest⟩ := List.cons.inj h
        rw [ih hrest, call_of_not_failed hdue, take_used, List.flatMap_cons, List.append_assoc]

/-- Under a name that has not failed in the end all checks are run that are due under it. -/
theorem map_due_filter_runs {id : String} (h : id ∉ (calls.foldl call s).failed) :
    ((s.runs calls).filter fun run => run.id == id).map Run.due =
      calls.filter fun due => due.id == id := by
  induction calls generalizing s with
  | nil => rfl
  | cons due calls ih =>
    rw [List.foldl_cons] at h
    rw [runs, List.filter_append, List.map_append, ih h, List.filter_cons]
    by_cases hdue : due.id = id
    · have hrun : id ∉ s.failed := fun hfailed =>
        h (failed_subset_foldl s (due :: calls) hfailed)
      simp [hrun, hdue, Run.id]
    · by_cases hfailed : due.id ∈ s.failed
      · simp [hfailed, hdue]
      · simp [hfailed, hdue, Run.id]

/-- Where no check fails, all that are due are run. -/
theorem map_due_runs (hfailed : s.failed = [])
    (hnever : ∀ due ∈ calls, ∀ used, (due.run used).failure = none) :
    (s.runs calls).map Run.due = calls := by
  induction calls generalizing s with
  | nil => rfl
  | cons due calls ih =>
    have hdue : due.id ∉ s.failed := by simp [hfailed]
    have hcall : (s.call due).failed = [] := by
      rw [call_of_not_failed hdue, take_failed, hfailed, hnever due List.mem_cons_self]
      rfl
    rw [runs, if_neg hdue, List.map_append,
      ih hcall fun other hother => hnever other (List.mem_cons_of_mem _ hother)]
    rfl

/-- Under a name that has not failed in the end, checks that come to the same whatever features were
noted have the runs of those that are told of none. -/
theorem filter_runs_eq_map {id : String} (hsteady : ∀ due ∈ calls, due.Steady)
    (h : id ∉ (calls.foldl call s).failed) :
    (s.runs calls).filter (fun run => run.id == id) =
      (calls.filter fun due => due.id == id).map Run.ofCall := by
  have hsame : ∀ run ∈ (s.runs calls).filter (fun run => run.id == id),
      Run.ofCall run.due = run := by
    intro run hrun
    rw [Run.ofCall, ← outcome_of_steady hsteady (List.mem_filter.mp hrun).1]
  rw [← map_due_filter_runs h, List.map_map]
  exact (List.map_id _).symm.trans (List.map_congr_left fun run hrun => (hsame run hrun).symm)

/-- Of checks that come to the same whatever features were noted, some are run, in their order. -/
theorem runs_sublist_of_steady (hsteady : ∀ due ∈ calls, due.Steady) (s : Session) :
    (s.runs calls).Sublist (calls.map Run.ofCall) := by
  induction calls generalizing s with
  | nil => exact List.Sublist.slnil
  | cons due calls ih =>
    have hrest := ih (fun other hother => hsteady other (List.mem_cons_of_mem _ hother))
      (s.call due)
    rw [runs, List.map_cons]
    split
    · exact hrest.cons _
    · rw [Run.ofCall, ← hsteady due List.mem_cons_self s.used]
      exact hrest.cons_cons _

/-- Where no check fails, the runs are those of all checks that are due, with what each comes to. -/
theorem runs_eq_map {outcome : Call → Outcome} (hfailed : s.failed = [])
    (hnever : ∀ due ∈ calls, ∀ used, (due.run used).failure = none)
    (houtcome : ∀ run ∈ s.runs calls, run.outcome = outcome run.due) :
    s.runs calls = calls.map fun due => ⟨due, outcome due⟩ := by
  conv_rhs => rw [← map_due_runs hfailed hnever, List.map_map]
  conv_lhs => rw [← List.map_id (s.runs calls)]
  apply List.map_congr_left
  intro run hrun
  rw [Function.comp_apply, ← houtcome run hrun]
  rfl

/-- A feature that is noted was noted before, or by a run. -/
theorem mem_used_foldl_iff {feature : Feature} :
    feature ∈ (calls.foldl call s).used ↔
      feature ∈ s.used ∨ ∃ run ∈ s.runs calls, feature ∈ run.outcome.uses := by
  rw [(follows_foldl s calls).used, List.mem_append, List.mem_flatMap]

/-- Checks that note no feature leave the features noted. -/
theorem used_foldl_of_uses_nil (h : ∀ due ∈ calls, ∀ used, (due.run used).uses = [])
    (s : Session) : (calls.foldl call s).used = s.used := by
  rw [(follows_foldl s calls).used, List.append_right_eq_self, List.flatMap_eq_nil_iff]
  intro run hrun
  obtain ⟨hdue, used, houtcome⟩ := due_of_mem_runs hrun
  rw [houtcome, h run.due hdue]

/-- Where the checks note no feature, each is told of those noted before them all. -/
theorem outcome_of_quiet (hquiet : ∀ due ∈ calls, ∀ used, (due.run used).uses = []) {run : Run}
    (h : run ∈ s.runs calls) : run.outcome = run.due.run s.used := by
  induction calls generalizing s with
  | nil => cases h
  | cons due calls ih =>
    rw [runs] at h
    rcases List.mem_append.mp h with h | h
    · split at h
      · cases h
      · cases List.mem_singleton.mp h
        rfl
    · have hdue : ∀ other ∈ [due], ∀ used, (other.run used).uses = [] := by
        intro other hother
        cases List.mem_singleton.mp hother
        exact hquiet due List.mem_cons_self
      have hused : (s.call due).used = s.used := used_foldl_of_uses_nil hdue s
      rw [ih (fun other hother => hquiet other (List.mem_cons_of_mem _ hother)) h, hused]

/-- Where the checks under a name note whatever any check notes, and none of them has failed, their
features are the features noted. -/
theorem mem_used_foldl {id : String} (hsteady : ∀ due ∈ calls, due.Steady)
    (hfailed : id ∉ (calls.foldl call s).failed) {feature : Feature}
    (hown : ∀ due ∈ calls, feature ∈ due.uses → ∃ own ∈ calls, own.id = id ∧ feature ∈ own.uses) :
    feature ∈ (calls.foldl call s).used ↔
      feature ∈ s.used ∨ ∃ own ∈ calls, own.id = id ∧ feature ∈ own.uses := by
  rw [mem_used_foldl_iff]
  refine or_congr_right ⟨?_, ?_⟩
  · rintro ⟨run, hrun, hfeature⟩
    rw [outcome_of_steady hsteady hrun] at hfeature
    exact hown run.due (due_of_mem_runs hrun).1 hfeature
  · rintro ⟨own, hmem, rfl, hfeature⟩
    obtain ⟨used, hrun⟩ := exists_run_of_mem hmem hfailed
    refine ⟨_, hrun, ?_⟩
    rw [hsteady own hmem used]
    exact hfeature

end Session

namespace AnalysisOptions

variable (o : AnalysisOptions) (program : Node) (comments : List Comment)

/-- All checks due on a program. -/
def calls : List Call := Call.all o.rules o.policies (o.file comments) program

/-- The checks that are run on a program. -/
def runs : List Run := o.fresh.runs (o.calls program comments)

/-- What an analysis came to is read off its runs. -/
theorem follows_session :
    Session.Follows o.fresh (o.runs program comments) (o.session program comments) :=
  Session.follows_foldl o.fresh (o.calls program comments)

/-- The messages of an analysis, in the order they were handed to the sink. -/
def messages : List Message := (o.runs program comments).flatMap Run.messages

/-- The diagnostics of an analysis are its messages that no directive takes away, and then those
about announced pairs that no message met. -/
theorem diagnostics_eq :
    let start := Sink.ofSource o.filePath o.source
    let messages := o.messages program comments
    (o.check program comments).diagnostics =
      (messages.filter fun m => start.fateOf m = .kept).map start.diagnosticOf ++
        ((Expectations.announced o.source).filter fun pair => !start.isMet messages pair).map
          (Sink.unmetDiagnostic o.filePath o.source) := by
  intro start messages
  have hsink : (o.session program comments).sink = start.submitAll messages :=
    (o.follows_session program comments).sink
  change (o.session program comments).sink.close.stored = _
  rw [hsink, Sink.close, Sink.stored_submitAll, Sink.unseenDiagnostics_submitAll]
  rfl

end AnalysisOptions

end PureLint
