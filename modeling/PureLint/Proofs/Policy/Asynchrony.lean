import PureLint.Proofs.Policy.Agreement

/-!
# Asynchronous functions in pure directories

Both policies forbid asynchronous functions in a pure directory, and both look for function
declarations only. A function that is bound to an exported variable, or exported as a default, is
asked about by neither.
-/

namespace PureLint.Policy

/-- Whether a message says that a pure function cannot be asynchronous. -/
def ForbidsAsync (message : String) : Prop :=
  message = "Functions in pure/**/*.ts cannot be async" ∨
    ∃ name : String, message = s!"Pure function '{name}' cannot be async"

/-- Whether a statement declares an asynchronous function, exported by name or not exported. -/
def DeclaresAsync (statement : Node) : Prop :=
  ∃ fn : Node, fn.kind = "FunctionDeclaration" ∧ fn.flag "async" = true ∧
    (fn = statement ∨
      statement.kind = "ExportNamedDeclaration" ∧ statement.child "declaration" = some fn)

/-- Other messages than those about asynchronous functions begin with another letter. -/
theorem not_forbidsAsync_of_head? {message : String} (letter : Char)
    (hletter : letter ≠ 'F' ∧ letter ≠ 'P') (h : message.toList.head? = some letter) :
    ¬ForbidsAsync message := by
  rintro (rfl | ⟨name, rfl⟩)
  · exact hletter.1 (Option.some.inj h).symm
  · simp only [toString, String.toList_append] at h
    exact hletter.2 (Option.some.inj h).symm

/-- Whether none of some reports is about an asynchronous function. -/
def OnOtherThings (reports : List Report) : Prop :=
  ∀ report ∈ reports, ¬ForbidsAsync report.message

namespace OnOtherThings

variable {first second : List Report}

/-- No reports are about asynchronous functions. -/
theorem nil : OnOtherThings [] := fun _ h => absurd h List.not_mem_nil

/-- A report that begins with another letter is about other things. -/
theorem single {span : Span} {message : String} (letter : Char)
    (hletter : letter ≠ 'F' ∧ letter ≠ 'P') (h : message.toList.head? = some letter) :
    OnOtherThings [⟨span, message⟩] := by
  intro report hreport
  cases List.mem_singleton.mp hreport
  exact not_forbidsAsync_of_head? letter hletter h

/-- Reports of either of two branches are about other things if both are. -/
theorem ite {condition : Prop} [Decidable condition] (hfirst : OnOtherThings first)
    (hsecond : OnOtherThings second) : OnOtherThings (if condition then first else second) := by
  split
  · exact hfirst
  · exact hsecond

end OnOtherThings

/-! ## The policy for directories -/

/-- The functions that the policy for directories looks at are those that statements declare. -/
theorem declaredFunction?_async_iff {statement : Node} :
    (∃ fn, declaredFunction? statement = some fn ∧ fn.flag "async" = true) ↔
      DeclaresAsync statement := by
  unfold declaredFunction? exportedFunction? exportedDeclaration? DeclaresAsync
  by_cases hexport : statement.kind = "ExportNamedDeclaration"
  · have hother : statement.kind ≠ "FunctionDeclaration" := by
      rw [hexport]
      decide
    rw [if_pos hexport, if_neg hother, Option.or_none]
    simp only [Option.filter_eq_some_iff, beq_iff_eq]
    refine exists_congr fun fn => ⟨?_, ?_⟩
    · rintro ⟨⟨hchild, hkind⟩, hasync⟩
      exact ⟨hkind, hasync, Or.inr ⟨hexport, hchild⟩⟩
    · rintro ⟨hkind, hasync, rfl | ⟨-, hchild⟩⟩
      · exact absurd hkind hother
      · exact ⟨⟨hchild, hkind⟩, hasync⟩
  · rw [if_neg hexport, Option.filter_none, Option.none_or]
    refine exists_congr fun fn => ⟨?_, ?_⟩
    · rintro ⟨hfn, hasync⟩
      split at hfn
      · rename_i hkind
        cases hfn
        exact ⟨hkind, hasync, Or.inl rfl⟩
      · cases hfn
    · rintro ⟨hkind, hasync, rfl | ⟨hnamed, -⟩⟩
      · exact ⟨if_pos hkind, hasync⟩
      · exact absurd hnamed hexport

/-- The policy for directories forbids asynchronous functions exactly if a statement declares
one. -/
theorem forbids_pureFileReports_iff (traits : PathTraits) (body : List Node) :
    (∃ report ∈ pureFileReports traits body, ForbidsAsync report.message) ↔
      ∃ statement ∈ body, DeclaresAsync statement := by
  unfold pureFileReports
  simp only
  constructor
  · rintro ⟨report, hreport, h⟩
    rcases List.mem_append.mp hreport with hreport | hreport
    · rcases List.mem_append.mp hreport with hreport | hreport
      · obtain ⟨statement, -, rfl⟩ := List.mem_map.mp hreport
        exact absurd h (not_forbidsAsync_of_head? 'p' (by decide) (by simp [Node.report]))
      · obtain ⟨fn, hfn, rfl⟩ := List.mem_map.mp hreport
        obtain ⟨hfn, hasync⟩ := List.mem_filter.mp hfn
        obtain ⟨statement, hstatement, hdeclared⟩ := List.mem_filterMap.mp hfn
        exact ⟨statement, hstatement, declaredFunction?_async_iff.mp ⟨fn, hdeclared, hasync⟩⟩
    · refine absurd h (OnOtherThings.ite OnOtherThings.nil ?_ report hreport)
      apply OnOtherThings.single 'p' (by decide)
      simp only [toString, String.toList_append]
      rfl
  · rintro ⟨statement, hstatement, h⟩
    obtain ⟨fn, hdeclared, hasync⟩ := declaredFunction?_async_iff.mpr h
    have hfn : fn ∈ (body.filterMap declaredFunction?).filter (·.flag "async") :=
      List.mem_filter.mpr ⟨List.mem_filterMap.mpr ⟨statement, hstatement, hdeclared⟩, hasync⟩
    refine ⟨fn.report "Functions in pure/**/*.ts cannot be async", ?_, Or.inl rfl⟩
    exact List.mem_append_left _ (List.mem_append_right _ (List.mem_map_of_mem hfn))

/-! ## The policy for named exports -/

section NamedExport

variable {name : String} {statement declaration : Node}

/-- A name that does not match is no matter of asynchrony. -/
theorem onOtherThings_misnamedReports (e : Expected) (statement : Node) (what name : String) :
    OnOtherThings (misnamedReports e statement what name) := by
  refine OnOtherThings.ite (OnOtherThings.single 'E' (by decide) ?_) OnOtherThings.nil
  simp only [toString, String.toList_append]
  rfl

/-- In a pure directory, the verdict on a declaration forbids an asynchronous function only where
the declaration is one. -/
theorem async_of_declarationVerdict {report : Report}
    (hreport : report ∈ (declarationVerdict ⟨name, .pure⟩ statement declaration).reports)
    (h : ForbidsAsync report.message) :
    declaration.kind = "FunctionDeclaration" ∧ declaration.flag "async" = true := by
  unfold declarationVerdict at hreport
  split at hreport
  case h_1 hkind =>
    unfold functionVerdict at hreport
    split at hreport
    · cases hreport
    · rcases List.mem_append.mp hreport with hreport | hreport
      · cases hasync : declaration.flag "async" with
        | true => exact ⟨hkind, rfl⟩
        | false => simp [asyncReports, hasync] at hreport
      · exact absurd h (onOtherThings_misnamedReports _ _ _ _ report hreport)
  case h_2 =>
    obtain ⟨declared, -, hreport⟩ := List.mem_flatMap.mp hreport
    exact absurd h (onOtherThings_misnamedReports _ _ _ _ report hreport)
  case h_3 | h_4 =>
    refine absurd h (OnOtherThings.ite OnOtherThings.nil ?_ report hreport)
    apply OnOtherThings.single 'E' (by decide)
    have hdirectory : Convention.pure ≠ .types := by decide
    simp [hdirectory]
  case h_5 =>
    have hdirectory : (Convention.pure != .errors) = true := by decide
    unfold classVerdict at hreport
    split at hreport
    · rw [if_pos hdirectory] at hreport
      cases hreport
    · cases hreport
  case h_6 => cases hreport

/-- In a pure directory, a statement about which the policy for named exports forbids an
asynchronous function declares one. -/
theorem declaresAsync_of_statementReports {report : Report}
    (hreport : report ∈ statementReports ⟨name, .pure⟩ statement)
    (h : ForbidsAsync report.message) : DeclaresAsync statement := by
  unfold statementReports at hreport
  split at hreport
  case h_1 =>
    cases List.mem_singleton.mp hreport
    exact absurd h (not_forbidsAsync_of_head? 'E' (by decide) (by simp [Node.report]))
  case h_2 hkind =>
    unfold namedVerdict at hreport
    split at hreport
    · rename_i declaration hchild
      obtain ⟨hdeclaration, hasync⟩ := async_of_declarationVerdict hreport h
      exact ⟨declaration, hdeclaration, hasync, Or.inr ⟨hkind, hchild⟩⟩
    · split at hreport
      · cases List.mem_singleton.mp hreport
        exact absurd h (not_forbidsAsync_of_head? 'E' (by decide) (by simp [Node.report]))
      · cases hreport
  case h_3 => cases hreport

/-- In a pure directory, the policy for named exports forbids asynchronous functions only if a
statement declares one. -/
theorem exists_declaresAsync_of_namedExportReports {stem : String} {body : List Node}
    {report : Report} (hreport : report ∈ namedExportReports ⟨name, .pure⟩ stem body)
    (h : ForbidsAsync report.message) : ∃ statement ∈ body, DeclaresAsync statement := by
  rcases List.mem_append.mp hreport with hreport | hreport
  · obtain ⟨statement, hstatement, hreport⟩ := List.mem_flatMap.mp hreport
    exact ⟨statement, hstatement, declaresAsync_of_statementReports hreport h⟩
  · refine absurd h (OnOtherThings.ite OnOtherThings.nil ?_ report hreport)
    apply OnOtherThings.single 'p' (by decide)
    simp only [missingExport, toString, String.toList_append]
    rfl

end NamedExport

/-! ## Both policies -/

/-- A file that follows the convention for pure functions is in no other of the directories. -/
theorem inOneDirectory_of_pure {filePath : String} {entries : EntryPaths}
    (h : (Path.classify filePath entries).directory = .pure) :
    InOneDirectory (Path.classify filePath entries).path := by
  simp only [Path.classify, Path.directory] at h ⊢
  unfold InOneDirectory exportDirectories
  split at h
  · cases h
  · split at h
    · cases h
    · split at h
      · rename_i htypes herrors hpure
        simp [htypes, herrors, hpure]
      · split at h <;> cases h

/-- In a pure directory, some policy forbids an asynchronous function exactly if a statement
declares one. -/
theorem forbids_iff {traits : PathTraits} (h : Conventional traits)
    (hpure : traits.directory = .pure) {context : Context}
    (hcontext : context.file.traits = traits) (program : Node) :
    (∃ policy ∈ [pathBasedRestrictions, strictNamedExport],
      ∃ report ∈ (policy.check context program).reports, ForbidsAsync report.message) ↔
      ∃ statement ∈ program.children "body", DeclaresAsync statement := by
  have hdirectory : (pathBasedRestrictions.check context program).reports =
      pureFileReports traits (program.children "body") := by
    rw [h.reports_pathBasedRestrictions hcontext]
    rcases h.directoryReports_cases (program.children "body") with
      ⟨hkind, -⟩ | ⟨hkind, -⟩ | ⟨-, heq⟩
    · cases hpure.symm.trans hkind
    · cases hpure.symm.trans hkind
    · exact heq
  have hnamed := h.reports_strictNamedExport hcontext program
  rw [hpure] at hnamed
  constructor
  · rintro ⟨policy, hpolicy, report, hreport, hforbids⟩
    simp only [List.mem_cons, List.not_mem_nil, or_false] at hpolicy
    rcases hpolicy with rfl | rfl
    · rw [hdirectory] at hreport
      exact (forbids_pureFileReports_iff traits _).mp ⟨report, hreport, hforbids⟩
    · rw [hnamed] at hreport
      exact exists_declaresAsync_of_namedExportReports hreport hforbids
  · intro hdeclares
    obtain ⟨report, hreport, hforbids⟩ :=
      (forbids_pureFileReports_iff traits (program.children "body")).mpr hdeclares
    rw [← hdirectory] at hreport
    exact ⟨pathBasedRestrictions, List.mem_cons_self, report, hreport, hforbids⟩

end PureLint.Policy
