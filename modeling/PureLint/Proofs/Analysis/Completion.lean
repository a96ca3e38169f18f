import PureLint.Proofs.Analysis.Runs

/-!
# Analyses that come to an end

The analysis goes stage by stage and breaks off at the first look-up that fails and at the first
check that fails without a text. An analysis that comes to an end is the one that leaves both out of
account, and which analyses do so can be told from the stages and the runs of that one.
-/

namespace PureLint

/-- The look-up of how an identifier reads its name meets a member that every record has: nothing
is known to bind the identifier, and the kind of its parent is the name of such a member. -/
def Visit.LooksInherited (bindings : List Nat) (visit : Visit) : Prop :=
  visit.node.id ∉ bindings ∧ visit.key.isSome = true ∧
    ∃ parent ∈ visit.parent, Record.isInherited parent.kind = true

instance (bindings : List Nat) (visit : Visit) : Decidable (visit.LooksInherited bindings) :=
  inferInstanceAs (Decidable (_ ∧ _ ∧ ∃ parent ∈ visit.parent, _))

/-- How an identifier reads its name is told unless the look-up meets such a member. -/
theorem Visit.reference_eq_ok_iff {bindings : List Nat} {visit : Visit}
    {kind : Option ReferenceKind} :
    visit.reference bindings = .ok kind ↔
      ¬visit.LooksInherited bindings ∧ visit.reference? bindings = kind := by
  unfold Visit.reference Visit.reference? LooksInherited
  by_cases hbound : visit.node.id ∈ bindings
  · simp [hbound]
  · cases hparent : visit.parent with
    | none => simp [hbound]
    | some parent =>
      cases hkey : visit.key with
      | none => simp [hbound]
      | some key =>
        have hfield := Reference.inField_eq parent key
        cases hkind : Record.isInherited parent.kind <;> simp [hbound, hfield, hkind]

namespace Run

/-- Whether what a check failed with, if it failed, has a text. -/
def isTold (run : Run) : Bool := run.outcome.failure.all fun thrown => thrown.text?.isSome

end Run

namespace Session

variable {s t : Session} {dispatch : Dispatch} {file : SourceFile}

/-- A check is attempted as it is run, unless it fails without a text. -/
theorem attempt_eq_ok_iff {due : Call} :
    s.attempt due = .ok t ↔ (∀ run ∈ s.runs [due], run.isTold = true) ∧ s.call due = t := by
  rw [attempt, call, runs, runs_nil, List.append_nil]
  by_cases hfailed : due.id ∈ s.failed
  · simp [hfailed]
  · cases hfailure : (due.run s.used).failure with
    | none => simp [hfailed, hfailure, Run.isTold]
    | some thrown => cases htext : thrown.text? <;> simp [hfailed, hfailure, Run.isTold, htext]

/-- Checks are attempted one after the other as they are run, unless one fails without a text. -/
theorem foldlM_attempt_eq_ok_iff {calls : List Call} :
    calls.foldlM attempt s = .ok t ↔
      (∀ run ∈ s.runs calls, run.isTold = true) ∧ calls.foldl call s = t := by
  induction calls generalizing s with
  | nil => simp [pure, Except.pure]
  | cons due calls ih =>
    have hsplit : s.runs (due :: calls) = s.runs [due] ++ (s.call due).runs calls :=
      s.runs_append [due] calls
    rw [List.foldlM_cons, bind_eq_ok_iff, hsplit, List.forall_mem_append, List.foldl_cons]
    simp only [attempt_eq_ok_iff, ih]
    constructor
    · rintro ⟨_, ⟨hfirst, rfl⟩, hrest, rfl⟩
      exact ⟨⟨hfirst, hrest⟩, rfl⟩
    · rintro ⟨⟨hfirst, hrest⟩, rfl⟩
      exact ⟨_, ⟨hfirst, rfl⟩, hrest, rfl⟩

/-- The look-up at a stage does not fail. -/
def Looks (stage : Visit × Survey) : Prop :=
  stage.1.node.kind = "Identifier" → ¬stage.1.LooksInherited stage.2.names.bindings

instance (stage : Visit × Survey) : Decidable (Looks stage) :=
  inferInstanceAs (Decidable (_ → ¬_))

/-- A stage is attempted as its checks are run, unless its look-up fails or one of them fails
without a text. -/
theorem visit_eq_ok_iff {stage : Visit × Survey} :
    s.visit dispatch file stage = .ok t ↔
      Looks stage ∧
        (∀ run ∈ s.runs (Call.atVisit dispatch file stage.1 stage.2), run.isTold = true) ∧
          (Call.atVisit dispatch file stage.1 stage.2).foldl call s = t := by
  rw [← foldlM_attempt_eq_ok_iff, visit]
  by_cases hkind : stage.1.node.kind = "Identifier"
  · simp only [hkind, if_true, Looks, forall_const, bind_eq_ok_iff, Survey.reference,
      Visit.reference_eq_ok_iff]
    constructor
    · rintro ⟨_, ⟨hlooks, -⟩, hrest⟩
      exact ⟨hlooks, hrest⟩
    · rintro ⟨hlooks, hrest⟩
      exact ⟨_, ⟨hlooks, rfl⟩, hrest⟩
  · simp [hkind, Looks]

/-- A walk is attempted as its checks are run, unless a look-up fails or a check fails without a
text. -/
theorem foldlM_visit_eq_ok_iff {stages : List (Visit × Survey)} :
    stages.foldlM (visit dispatch file) s = .ok t ↔
      (∀ stage ∈ stages, Looks stage) ∧
        (∀ run ∈ s.runs (Call.ofWalk dispatch file stages), run.isTold = true) ∧
          (Call.ofWalk dispatch file stages).foldl call s = t := by
  induction stages generalizing s with
  | nil => simp [Call.ofWalk, pure, Except.pure]
  | cons stage stages ih =>
    have hcalls : Call.ofWalk dispatch file (stage :: stages) =
      Call.atVisit dispatch file stage.1 stage.2 ++ Call.ofWalk dispatch file stages := rfl
    rw [List.foldlM_cons, bind_eq_ok_iff, List.forall_mem_cons, hcalls, runs_append,
      List.forall_mem_append, List.foldl_append]
    simp only [visit_eq_ok_iff, ih]
    constructor
    · rintro ⟨_, ⟨hlooks, htold, rfl⟩, hlooksRest, htoldRest, rfl⟩
      exact ⟨⟨hlooks, hlooksRest⟩, ⟨htold, htoldRest⟩, rfl⟩
    · rintro ⟨⟨hlooks, hlooksRest⟩, ⟨htold, htoldRest⟩, rfl⟩
      exact ⟨_, ⟨hlooks, htold, rfl⟩, hlooksRest, htoldRest, rfl⟩

end Session

namespace AnalysisOptions

variable (o : AnalysisOptions) (program : Node) (comments : List Comment)

/-- Nothing makes the analysis of a program break off. -/
structure Completes : Prop where
  /-- How the identifiers read their names can be looked up. -/
  looks : ∀ stage ∈ (Survey.ofProgram program).stages program.events, Session.Looks stage
  /-- What checks failed with has a text. -/
  told : ∀ run ∈ o.runs program comments, run.isTold = true

/-- **An analysis comes to an end exactly if nothing makes it break off**, and then it is the one
that leaves breaking off out of account. -/
theorem attempt_eq_ok_iff {analysis : Analysis} :
    o.attempt program comments = .ok analysis ↔
      o.Completes program comments ∧ o.check program comments = analysis := by
  have hcomplete : o.Completes program comments ↔
      (∀ stage ∈ (Survey.ofProgram program).stages program.events, Session.Looks stage) ∧
        ∀ run ∈ o.runs program comments, run.isTold = true :=
    ⟨fun h => ⟨h.looks, h.told⟩, fun h => ⟨h.1, h.2⟩⟩
  rw [hcomplete, runs, calls, Call.all, Session.runs_append, Session.runs_append,
    List.forall_mem_append, List.forall_mem_append, check, session, Call.all]
  simp only [attempt, bind_eq_ok_iff, Session.foldlM_visit_eq_ok_iff,
    Session.foldlM_attempt_eq_ok_iff, List.foldl_append, pure, Except.pure, Except.ok.injEq]
  constructor
  · rintro ⟨_, ⟨hlooks, hwalk, rfl⟩, _, ⟨hpolicies, rfl⟩, _, ⟨hfinishes, rfl⟩, rfl⟩
    exact ⟨⟨hlooks, ⟨hwalk, hpolicies⟩, hfinishes⟩, rfl⟩
  · rintro ⟨⟨hlooks, ⟨hwalk, hpolicies⟩, hfinishes⟩, rfl⟩
    exact ⟨_, ⟨hlooks, hwalk, rfl⟩, _, ⟨hpolicies, rfl⟩, _, ⟨hfinishes, rfl⟩, rfl⟩

end AnalysisOptions

end PureLint
