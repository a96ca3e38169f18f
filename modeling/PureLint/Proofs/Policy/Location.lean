import PureLint.Proofs.Rule.Location

/-!
# Where policies report

Policies report about top-level statements, about what these declare, and about the beginning of the
file. So they too report at whole offsets where all nodes begin at such.
-/

namespace PureLint.Policy

open Report (AllWhole)

/-- A policy that reports at whole offsets where it is shown such. -/
def Whole (policy : Policy) : Prop :=
  ∀ context program, program.Whole → AllWhole (policy.check context program).reports

/-- A message about the file is at its beginning. -/
theorem whole_fileReport (message : String) : AllWhole [fileReport message] :=
  AllWhole.cons_iff.mpr ⟨⟨0, rfl⟩, AllWhole.nil⟩

/-- The test runner is reported about the file. -/
theorem whole_runnerReports (runner : TestRunner) (body : List Node) :
    AllWhole (runnerReports runner body) := by
  unfold runnerReports
  simp only
  split
  · exact whole_fileReport _
  · exact AllWhole.ite (whole_fileReport _) AllWhole.nil

/-- A missing import of what is tested is reported about the file. -/
theorem whole_testedReports (traits : PathTraits) (body : List Node) :
    AllWhole (testedReports traits body) :=
  AllWhole.ite AllWhole.nil
    (AllWhole.ite (whole_fileReport _) (AllWhole.ite AllWhole.nil (whole_fileReport _)))

section

variable {body : List Node} (h : ∀ statement ∈ body, statement.Whole)

include h

/-- A statement of an index file is reported where it is. -/
theorem whole_indexReports : AllWhole (body.flatMap indexReports) := by
  apply AllWhole.flatMap
  intro statement hstatement
  have hreport (message : String) := AllWhole.node (h statement hstatement) message
  unfold indexReports
  simp only
  split
  · exact AllWhole.ite (hreport _) AllWhole.nil
  all_goals first
    | exact hreport _
    | exact AllWhole.nil

/-- The declaration that a statement exports is whole. -/
theorem whole_exportedDeclaration {statement declaration : Node} (hstatement : statement ∈ body)
    (hdeclaration : exportedDeclaration? statement = some declaration) : declaration.Whole := by
  unfold exportedDeclaration? at hdeclaration
  split at hdeclaration
  · exact (h statement hstatement).child hdeclaration
  · cases hdeclaration

/-- The classes of an error file are reported where they are. -/
theorem whole_errorFileReports (traits : PathTraits) :
    AllWhole (errorFileReports traits body) := by
  simp only [errorFileReports, AllWhole.append_iff]
  refine ⟨AllWhole.flatMap ?_, AllWhole.ite AllWhole.nil (whole_fileReport _)⟩
  rintro ⟨declaration, name⟩ hclass
  obtain ⟨statement, hstatement, hclass⟩ := List.mem_filterMap.mp hclass
  obtain ⟨other, hexported, hclass⟩ := Option.bind_eq_some_iff.mp hclass
  split at hclass
  · obtain ⟨own, -, hclass⟩ := Option.bind_eq_some_iff.mp hclass
    cases hclass
    have hreport (message : String) :=
      AllWhole.node (whole_exportedDeclaration h hstatement hexported) message
    exact AllWhole.ite (AllWhole.ite AllWhole.nil (hreport _))
      (AllWhole.ite (hreport _) AllWhole.nil)
  · cases hclass

/-- The function that a statement declares is whole. -/
theorem whole_declaredFunction {statement fn : Node} (hstatement : statement ∈ body)
    (hfn : declaredFunction? statement = some fn) : fn.Whole := by
  rcases Option.or_eq_some_iff.mp hfn with hexported | ⟨-, hown⟩
  · obtain ⟨hdeclaration, -⟩ := Option.filter_eq_some_iff.mp hexported
    exact whole_exportedDeclaration h hstatement hdeclaration
  · split at hown
    · cases hown
      exact h statement hstatement
    · cases hown

/-- The imports and functions of a pure file are reported where they are. -/
theorem whole_pureFileReports (traits : PathTraits) : AllWhole (pureFileReports traits body) := by
  simp only [pureFileReports, AllWhole.append_iff]
  refine ⟨⟨AllWhole.map ?_, AllWhole.map ?_⟩, AllWhole.ite AllWhole.nil (whole_fileReport _)⟩
  · intro statement hstatement
    have himport := (List.mem_filter.mp hstatement).1
    exact (h statement (List.mem_filter.mp himport).1).span
  · intro fn hfn
    obtain ⟨statement, hstatement, hfn⟩ := List.mem_filterMap.mp (List.mem_filter.mp hfn).1
    exact (whole_declaredFunction h hstatement hfn).span

/-- The declarations of a types file are reported where they are. -/
theorem whole_typesFileReports (traits : PathTraits) : AllWhole (typesFileReports traits body) := by
  have hdeclarations : ∀ declaration ∈ body.filterMap exportedDeclaration?, declaration.Whole := by
    intro declaration hdeclaration
    obtain ⟨statement, hstatement, hdeclaration⟩ := List.mem_filterMap.mp hdeclaration
    exact whole_exportedDeclaration h hstatement hdeclaration
  simp only [typesFileReports, AllWhole.append_iff]
  refine ⟨AllWhole.flatMap ?_, AllWhole.map ?_⟩
  · intro declaration hdeclaration
    unfold nonTypeReports
    apply AllWhole.ite AllWhole.nil
    split
    · exact AllWhole.node (hdeclarations declaration hdeclaration) _
    · exact AllWhole.nil
  · rintro ⟨declaration, name⟩ htype
    obtain ⟨own, hown, htype⟩ := List.mem_filterMap.mp (List.mem_filter.mp htype).1
    unfold namedType? at htype
    split at htype
    · obtain ⟨other, -, htype⟩ := Option.map_eq_some_iff.mp htype
      cases htype
      simp only
      split <;> exact (hdeclarations declaration hown).span
    · cases htype

/-- The verdict on a named export reports about the statement. -/
theorem whole_namedVerdict (e : Expected) {statement : Node} (hstatement : statement ∈ body) :
    AllWhole (namedVerdict e statement).reports := by
  have hreport (message : String) := AllWhole.node (h statement hstatement) message
  have hmisnamed (what name : String) : AllWhole (misnamedReports e statement what name) :=
    AllWhole.ite (hreport _) AllWhole.nil
  unfold namedVerdict
  split
  · unfold declarationVerdict
    split
    · unfold functionVerdict
      split
      · exact AllWhole.nil
      · exact AllWhole.append_iff.mpr
          ⟨AllWhole.ite (hreport _) (AllWhole.ite (hreport _) AllWhole.nil), hmisnamed _ _⟩
    · exact AllWhole.flatMap fun name _ => hmisnamed _ name
    · exact AllWhole.ite AllWhole.nil (hreport _)
    · exact AllWhole.ite AllWhole.nil (hreport _)
    · unfold classVerdict
      simp only
      split
      · split
        · exact AllWhole.nil
        · split
          · exact AllWhole.nil
          · exact hreport _
      · exact AllWhole.nil
    · exact AllWhole.nil
  · split
    · exact hreport _
    · exact AllWhole.nil

/-- The exports of a file are reported where they are. -/
theorem whole_namedExportReports (e : Expected) (stem : String) :
    AllWhole (namedExportReports e stem body) := by
  simp only [namedExportReports, AllWhole.append_iff]
  refine ⟨AllWhole.flatMap ?_, AllWhole.ite AllWhole.nil (whole_fileReport _)⟩
  intro statement hstatement
  unfold statementReports
  split
  · exact AllWhole.node (h statement hstatement) _
  · exact whole_namedVerdict h e hstatement
  · exact AllWhole.nil

end

/-- All policies there are report at whole offsets. -/
theorem Known.whole {policy : Policy} (h : policy.Known) : policy.Whole := by
  intro context program hprogram
  have hbody : ∀ statement ∈ program.children "body", statement.Whole := fun statement hstatement =>
    hprogram.children hstatement
  rcases h with h | ⟨id, action, rfl⟩
  · fin_cases h
    · simp only [pathBasedRestrictions]
      apply AllWhole.ite
      · exact AllWhole.append_iff.mpr ⟨whole_runnerReports _ _, whole_testedReports _ _⟩
      · simp only [directoryReports, AllWhole.append_iff]
        exact ⟨⟨⟨AllWhole.ite (whole_indexReports hbody) AllWhole.nil,
          AllWhole.ite (whole_errorFileReports hbody _) AllWhole.nil⟩,
          AllWhole.ite (whole_pureFileReports hbody _) AllWhole.nil⟩,
          AllWhole.ite (whole_typesFileReports hbody _) AllWhole.nil⟩
    · simp only [strictNamedExport]
      split
      · exact AllWhole.nil
      · exact whole_namedExportReports hbody _ _
  · exact Rule.whole_perform action _ hprogram.span

end PureLint.Policy
