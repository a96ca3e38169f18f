import PureLint.Proofs.Rule.Reordering

/-!
# Policies and the order of statements

A policy looks at the statements one by one, and asks whether there is one of some sort. So for the
statements in another order it reports the same messages, in some order.
-/

namespace PureLint.Policy

/-- A policy that does not ask in which order the statements of a program stand. -/
def Orderless (policy : Policy) : Prop :=
  ∀ (context other : Context) (program reordered : Node), other.file = context.file →
    (program.children "body").Perm (reordered.children "body") →
      (policy.check context program).Alike (policy.check other reordered)

section

variable {body others : List Node} (h : body.Perm others)

include h

/-- The same imports are among the statements. -/
theorem imports_perm : (imports body).Perm (imports others) := h.filter _

/-- The same is reported about the test runner. -/
theorem runnerReports_perm (runner : TestRunner) :
    runnerReports runner others = runnerReports runner body := by
  have hsources := (imports_perm h).map sourceOf
  simp only [runnerReports, h.any_eq, hsources.any_eq]

/-- The same is reported about what is tested. -/
theorem testedReports_perm (traits : PathTraits) :
    testedReports traits others = testedReports traits body := by
  have himports := imports_perm h
  simp only [testedReports, himports.any_eq, himports.isEmpty_eq]

/-- The same is reported about an error file, in some order. -/
theorem errorFileReports_perm (traits : PathTraits) :
    (errorFileReports traits body).Perm (errorFileReports traits others) := by
  have hclasses := h.filterMap exportedClass?
  simp only [errorFileReports, hclasses.any_eq]
  exact (hclasses.flatMap_right _).append_right _

/-- The same is reported about a pure file, in some order. -/
theorem pureFileReports_perm (traits : PathTraits) :
    (pureFileReports traits body).Perm (pureFileReports traits others) := by
  have heffects :=
    (imports_perm h).filter fun statement => Text.contains (sourceOf statement) "/io/"
  have hasync := (h.filterMap declaredFunction?).filter fun fn => fn.flag "async"
  have hexported := h.filterMap exportedFunction?
  simp only [pureFileReports, hexported.any_eq, hexported.isEmpty_eq]
  exact ((heffects.map _).append (hasync.map _)).append_right _

/-- The same is reported about a types file, in some order. -/
theorem typesFileReports_perm (traits : PathTraits) :
    (typesFileReports traits body).Perm (typesFileReports traits others) := by
  have hdeclarations := h.filterMap exportedDeclaration?
  have htypes := hdeclarations.filterMap namedType?
  simp only [typesFileReports, typeNameReports, htypes.length_eq]
  exact (hdeclarations.flatMap_right _).append ((htypes.filter _).map _)

/-- The same is reported about a file by its directory, in some order. -/
theorem directoryReports_perm (traits : PathTraits) :
    (directoryReports traits body).Perm (directoryReports traits others) := by
  have hite {condition : Prop} [Decidable condition] {reports found : List Report}
      (hperm : reports.Perm found) :
      (if condition then reports else []).Perm (if condition then found else []) := by
    split
    · exact hperm
    · exact List.Perm.refl _
  exact (((hite (h.flatMap_right _)).append (hite (errorFileReports_perm h traits))).append
    (hite (pureFileReports_perm h traits))).append (hite (typesFileReports_perm h traits))

/-- The same is reported about the exports of a file, in some order. -/
theorem namedExportReports_perm (e : Expected) (stem : String) :
    (namedExportReports e stem body).Perm (namedExportReports e stem others) := by
  have hnamed := h.filter fun statement => statement.kind == "ExportNamedDeclaration"
  simp only [namedExportReports, hnamed.any_eq, hnamed.isEmpty_eq]
  exact (h.flatMap_right _).append_right _

end

/-- The policy on directories does not ask for the order of statements. -/
theorem orderless_pathBasedRestrictions : pathBasedRestrictions.Orderless := by
  intro context other program reordered hfile hbody
  refine ⟨List.Perm.map _ ?_, rfl, rfl, rfl⟩
  simp only [pathBasedRestrictions, hfile]
  split
  · rw [runnerReports_perm hbody, testedReports_perm hbody]
  · exact directoryReports_perm hbody _

/-- The policy on named exports does not ask for the order of statements. -/
theorem orderless_strictNamedExport : strictNamedExport.Orderless := by
  intro context other program reordered hfile hbody
  simp only [strictNamedExport, hfile]
  split
  · exact Outcome.Alike.of_eq rfl rfl
  · exact ⟨(namedExportReports_perm hbody _ _).map _, rfl, rfl, rfl⟩

/-- The built-in policies do not ask for the order of statements. -/
theorem orderless_of_mem_all {policy : Policy} (h : policy ∈ all) : policy.Orderless := by
  fin_cases h
  · exact orderless_pathBasedRestrictions
  · exact orderless_strictNamedExport

end PureLint.Policy
