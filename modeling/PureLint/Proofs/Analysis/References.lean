import PureLint.Proofs.Analysis.Schedule

/-!
# References in an analysis

An analysis asks for each identifier how it reads its name when the walk enters it. In a tree of
distinct nodes it is answered as it would be at the end, and so the checks for references are run at
the identifiers that read a value then, and at no other.
-/

namespace PureLint

open Event

/-- Whether a check that was run is one for references. -/
def Run.isReferenceCheck (run : Run) : Bool := run.due.isReferenceCheck

/-- Where these identifiers are bound, no look-up of how an identifier of a tree reads its name
meets a member that every record has. -/
def Node.LooksUp (root : Node) (bindings : List Nat) : Prop :=
  ∀ visit ∈ root.visits, visit.node.kind = "Identifier" → ¬visit.LooksInherited bindings

instance (root : Node) (bindings : List Nat) : Decidable (root.LooksUp bindings) :=
  inferInstanceAs (Decidable (∀ visit ∈ root.visits, _ → ¬_))

/-- In a tree of distinct nodes a look-up meets such a member at its visit if it does at the end. -/
theorem Survey.looksInherited_stage {root : Node} (hroot : root.Distinct) {s : Survey}
    {stage : Visit × Survey} (h : stage ∈ s.stages root.events) :
    stage.1.LooksInherited stage.2.names.bindings ↔
      stage.1.LooksInherited (s.run root.events).names.bindings :=
  and_congr_left' (not_congr (mem_bindings_stage hroot h))

namespace Call

variable {rules : List Rule} {policies : List Policy} {file : SourceFile} {root : Node}

/-- A check for references comes to the same whatever was noted. -/
theorem steady_of_isReferenceCheck {due : Call} (hdue : due ∈ all rules policies file root)
    (hreference : due.isReferenceCheck = true) : due.Steady := by
  have hmem := List.mem_filter.mpr ⟨hdue, hreference⟩
  rw [filter_all] at hmem
  obtain ⟨stage, -, hmem⟩ := List.mem_flatMap.mp hmem
  split at hmem
  · obtain ⟨rule, -, entry, -, -, rfl⟩ := (mem_atKind rules file).mp hmem
    intro used
    rfl
  · cases hmem

/-- In a tree of distinct nodes, the checks for references are due at the visits that ask for them
at the end. -/
theorem map_ofCall_filter_all (hroot : root.Distinct) :
    ((all rules policies file root).filter isReferenceCheck).map Run.ofCall =
      (((Survey.ofProgram root).stages root.events).filter fun stage =>
        ((Survey.ofProgram root).run root.events).ChecksReference stage.1).flatMap fun stage =>
          rules.flatMap (Rule.runsAt ⟨file, stage.2⟩ referenceCheckKind stage.1) := by
  rw [filter_all, List.map_flatMap, flatMap_filter]
  apply List.flatMap_congr
  intro stage hstage
  have hchecks : stage.2.ChecksReference stage.1 ↔
      ((Survey.ofProgram root).run root.events).ChecksReference stage.1 := by
    unfold Survey.ChecksReference
    rw [Survey.reference?_stage hroot hstage]
  simp only [hchecks, decide_eq_true_eq, apply_ite (List.map Run.ofCall), map_ofCall_atKind,
    List.map_nil]

end Call

namespace AnalysisOptions

variable (o : AnalysisOptions) (program : Node) (comments : List Comment)

/-- The run of a check for references is that of a check that is told of no feature. -/
theorem ofCall_due {run : Run} (hrun : run ∈ o.runs program comments)
    (hreference : run.isReferenceCheck = true) : Run.ofCall run.due = run := by
  obtain ⟨hdue, used, houtcome⟩ := Session.due_of_mem_runs hrun
  have hsteady : run.due.Steady := Call.steady_of_isReferenceCheck hdue hreference
  rw [Run.ofCall, ← hsteady used, ← houtcome]

/-- Checks for references are run where they are due, and under a name that does not fail wherever
they are. -/
theorem filter_isReferenceCheck_runs (hdistinct : program.Distinct) :
    let runs := o.runs program comments
    let start := Survey.ofProgram program
    let asked := ((start.stages program.events).filter fun stage =>
      (start.run program.events).ChecksReference stage.1).flatMap fun stage =>
        o.rules.flatMap (Rule.runsAt ⟨o.file comments, stage.2⟩ referenceCheckKind stage.1)
    (runs.filter Run.isReferenceCheck).Sublist asked ∧
      ∀ id, (∀ run ∈ runs, run.fails = true → run.id ≠ id) →
        (runs.filter Run.isReferenceCheck).filter (fun run => run.id == id) =
          asked.filter fun run => run.id == id := by
  intro runs start asked
  let calls := o.calls program comments
  have hasked : asked = (calls.filter Call.isReferenceCheck).map Run.ofCall :=
    (Call.map_ofCall_filter_all hdistinct).symm
  -- a run for references can be told from the check that was due
  have hown {part : List Run} (hpart : part ⊆ runs) :
      part.filter Run.isReferenceCheck =
        ((part.map Run.due).filter Call.isReferenceCheck).map Run.ofCall := by
    rw [List.filter_map, List.map_map]
    refine (List.map_id _).symm.trans (List.map_congr_left fun run hrun => ?_)
    obtain ⟨hmem, hreference⟩ := List.mem_filter.mp hrun
    exact (o.ofCall_due program comments (hpart hmem) hreference).symm
  constructor
  · rw [hasked, hown (List.Subset.refl runs)]
    exact ((Session.map_due_runs_sublist o.fresh calls).filter _).map _
  · intro id hid
    have hunfailed : id ∉ (o.session program comments).failed :=
      Session.notMem_failed_of_runs List.not_mem_nil hid
    have hnamed : (runs.filter fun run => run.id == id).map Run.due =
        calls.filter fun due => due.id == id := Session.map_due_filter_runs hunfailed
    rw [List.filter_comm, hown (List.filter_subset_self _), hnamed, hasked, List.filter_comm,
      List.filter_map]
    rfl

end AnalysisOptions

namespace Survey

/-- **References do not depend on when they are asked for.** In a tree of distinct nodes, from a
fresh survey on: what is bound stays bound, and no node is bound after it was entered; so at each
visit, of which there is one to each node, a reference is the same as at the end. The names that are
read are those of the identifiers that read one at the end. In an analysis the checks for references
are run at the identifiers that read a value at the end, and at nodes whose own kind has that name:
under a name that does not fail they are run at each of them once, in that order, and under any name
nowhere else and no more often. The look-up is answered at each identifier where it does not meet a
member that every record has, and if it is answered at all, the analysis comes to an end unless
something thrown has no text. -/
theorem reference_of_final (root : Node) (hroot : root.Distinct) :
    (∀ topLevel : TopLevel,
      let start : Survey := { topLevel := topLevel }
      let final := start.run root.events
      (∀ before after, root.events = before ++ after →
        (start.run before).names.bindings ⊆ final.names.bindings ∧
        ∀ visit ∈ entered before, visit.node.id ∈ final.names.bindings →
          visit.node.id ∈ (start.run before).names.bindings) ∧
      (start.stages root.events).map Prod.fst = root.visits ∧
      (∀ stage ∈ start.stages root.events,
        stage.2.reference stage.1 = final.reference stage.1) ∧
      (∀ stage ∈ start.stages root.events, ¬stage.1.LooksInherited final.names.bindings →
        stage.2.reference stage.1 = .ok (final.reference? stage.1)) ∧
      (∀ name, name ∈ final.names.used ↔
        ∃ visit ∈ root.visits, visit.node.name? = some name ∧ (final.reference? visit).isSome)) ∧
    (∀ (o : AnalysisOptions) (comments : List Comment),
      let runs := o.runs root comments
      let start := Survey.ofProgram root
      let final := start.run root.events
      let asked := ((start.stages root.events).filter fun stage =>
        final.ChecksReference stage.1).flatMap fun stage =>
          o.rules.flatMap (Rule.runsAt ⟨o.file comments, stage.2⟩ referenceCheckKind stage.1)
      (runs.filter Run.isReferenceCheck).Sublist asked ∧
      (∀ id, (∀ run ∈ runs, run.fails = true → run.id ≠ id) →
        (runs.filter Run.isReferenceCheck).filter (fun run => run.id == id) =
          asked.filter fun run => run.id == id) ∧
      Session.Follows o.fresh runs (o.session root comments) ∧
      (root.LooksUp final.names.bindings → (∀ run ∈ runs, run.isTold = true) →
        o.attempt root comments = .ok (AnalysisOptions.answer (o.session root comments)))) := by
  constructor
  · intro topLevel start final
    have hstages : (start.stages root.events).map Prod.fst = root.visits :=
      stages_fst start root.events
    refine ⟨?_, hstages, ?_, ?_, ?_⟩
    · intro before after hsplit
      have hfinal : final = (start.run before).run after := by
        rw [← run_append, ← hsplit]
      constructor
      · rw [hfinal]
        exact bindings_run_subset _ _
      · intro visit hvisit hbound
        exact bound_before hroot hsplit hvisit hbound
    · intro stage hstage
      exact reference_stage hroot hstage
    · intro stage hstage hlooks
      rw [reference_stage hroot hstage]
      exact Visit.reference_eq_ok_iff.mpr ⟨hlooks, rfl⟩
    · intro name
      have hused := mem_used_final hroot start name
      exact hused.trans (or_iff_right List.not_mem_nil)
  · intro o comments runs start final asked
    obtain ⟨hsome, hnamed⟩ := o.filter_isReferenceCheck_runs root comments hroot
    refine ⟨hsome, hnamed, o.follows_session root comments, ?_⟩
    intro hlooks htold
    refine (o.attempt_eq_ok_iff root comments).mpr ⟨⟨?_, htold⟩, rfl⟩
    intro stage hstage hkind
    have hvisits : (start.stages root.events).map Prod.fst = root.visits := stages_fst _ _
    rw [looksInherited_stage hroot hstage]
    exact hlooks stage.1 (hvisits ▸ List.mem_map_of_mem hstage) hkind

/-- The tree of a function `(a = b) => b`. -/
def defaultedParameter : Node :=
  ⟨0, "ArrowFunctionExpression", .int 0, .int 0, [
    ("params", .array [.atStart 1 "AssignmentPattern" [
      ("left", .atStart 2 "Identifier" [("name", .text "a")]),
      ("right", .atStart 3 "Identifier" [("name", .text "b")])]]),
    ("body", .atStart 4 "Identifier" [("name", .text "b")])]⟩

/-- A rule that reports at references. -/
def referenceRules : AnalysisOptions where
  filePath := "src/a.ts"
  source := ""
  traits := Path.classify "src/a.ts"
  rules := [Rule.custom "x" [(referenceCheckKind, .report "r")] none]

/-- The parameter is bound before it is visited, and the name of the default is read, as is the one
that is returned. -/
theorem reference_of_final_defaultedParameter :
    let start : Survey := { topLevel := {} }
    let final := start.run defaultedParameter.events
    let ended := AnalysisOptions.answer (referenceRules.session defaultedParameter [])
    defaultedParameter.Distinct ∧ defaultedParameter.LooksUp final.names.bindings ∧
      (∀ stage ∈ start.stages defaultedParameter.events, stage.1.node.kind = "Identifier" →
        stage.2.reference stage.1 = .ok (final.reference? stage.1)) ∧
      final.names.bindings = [2] ∧ final.names.used = ["b"] ∧
      referenceRules.attempt defaultedParameter [] = .ok ended ∧
      (ended.diagnostics.map fun d => (d.rule, d.message)) = [("x", "r"), ("x", "r")] := by
  intro start final ended
  have hdistinct : defaultedParameter.Distinct := by decide
  have hlooks : defaultedParameter.LooksUp final.names.bindings := by decide +kernel
  obtain ⟨hsurvey, hanalysis⟩ := reference_of_final defaultedParameter hdistinct
  obtain ⟨-, hvisits, -, hanswered, -⟩ := hsurvey {}
  obtain ⟨-, -, -, hattempt⟩ := hanalysis referenceRules []
  refine ⟨hdistinct, hlooks, ?_, by decide +kernel, by decide +kernel,
    hattempt (by decide +kernel) (by decide +kernel), by decide +kernel⟩
  intro stage hstage hkind
  have hvisit : stage.1 ∈ defaultedParameter.visits := hvisits ▸ List.mem_map_of_mem hstage
  exact hanswered stage hstage (hlooks stage.1 hvisit hkind)

/-- A tree without an identifier, with a node of the kind under which references are checked. -/
def strayReference : Node :=
  ⟨0, "Program", .int 0, .int 0, [("body", .array [.atStart 1 referenceCheckKind []])]⟩

/-- The checks for references are also run where no identifier is. -/
theorem referenceChecks_strayReference :
    strayReference.Distinct ∧ (∀ visit ∈ strayReference.visits, visit.node.kind ≠ "Identifier") ∧
      ((referenceRules.check strayReference []).diagnostics.map fun d => (d.rule, d.message)) =
        [("x", "r")] := by
  refine ⟨?_, ?_, ?_⟩
  · decide
  · decide
  · decide

end Survey

end PureLint
