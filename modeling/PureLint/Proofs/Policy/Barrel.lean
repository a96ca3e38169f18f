import PureLint.Proofs.Policy.Agreement

/-!
# Barrels

A barrel is an index file that only re-exports. The convention for index files asks for nothing
else, and those for pure functions and for types have nothing to say about re-exports. But a file in
an errors directory must declare an error class, also if it is an index file, which must not. So a
barrel passes everywhere but in an errors directory, and there no index file passes at all.
-/

namespace PureLint

namespace Policy

/-- Whether a statement exports from another file: all that this exports, or some names of it. -/
def ReExports (statement : Node) : Prop :=
  statement.kind = "ExportAllDeclaration" ∨
    statement.kind = "ExportNamedDeclaration" ∧ (statement.child "source").isSome = true ∧
      statement.child "declaration" = none

/-- Whether a program consists of nothing but exports from other files. -/
def IsBarrel (program : Node) : Prop := ∀ statement ∈ program.children "body", ReExports statement

/-- Whether no statement of a program both names a source and declares something, as in every
program that can be written. -/
def SplitsExports (program : Node) : Prop :=
  ∀ statement ∈ program.children "body",
    statement.child "source" = none ∨ statement.child "declaration" = none

namespace ReExports

variable {statement : Node} (h : ReExports statement)

include h

/-- A re-export is not of any other kind. -/
theorem kind_ne {kind : String} (hall : kind ≠ "ExportAllDeclaration")
    (hnamed : kind ≠ "ExportNamedDeclaration") : statement.kind ≠ kind := by
  rintro rfl
  rcases h with hkind | ⟨hkind, -⟩
  · exact hall hkind
  · exact hnamed hkind

/-- A re-export declares nothing. -/
theorem exportedDeclaration?_eq : exportedDeclaration? statement = none := by
  unfold exportedDeclaration?
  rcases h with hkind | ⟨hkind, -, hdeclaration⟩
  · simp [hkind]
  · rw [if_pos hkind, hdeclaration]

/-- A re-export suits an index file. -/
theorem indexReports_eq : indexReports statement = [] := by
  rcases h with hkind | ⟨hkind, hsource, -⟩
  · simp [indexReports, hkind]
  · obtain ⟨source, hsource⟩ := Option.isSome_iff_exists.mp hsource
    simp [indexReports, hkind, hsource]

/-- A re-export declares no function. -/
theorem declaredFunction?_eq : declaredFunction? statement = none := by
  have hkind : statement.kind ≠ "FunctionDeclaration" := h.kind_ne (by decide) (by decide)
  rw [declaredFunction?, exportedFunction?, h.exportedDeclaration?_eq, if_neg hkind]
  rfl

end ReExports

/-- What is said of a file that lacks the class that an errors directory asks for. -/
def missingClass (traits : PathTraits) : String :=
  s!"Error file '{traits.basename}' must export error class '{traits.stem}' extending Error"

section Barrel

variable {body : List Node} (h : ∀ statement ∈ body, ReExports statement) (traits : PathTraits)

include h

/-- Re-exports declare nothing. -/
theorem filterMap_exportedDeclaration? : body.filterMap exportedDeclaration? = [] := by
  rw [List.filterMap_eq_nil_iff]
  intro statement hstatement
  exact (h statement hstatement).exportedDeclaration?_eq

/-- Re-exports suit an index file. -/
theorem flatMap_indexReports : body.flatMap indexReports = [] := by
  rw [List.flatMap_eq_nil_iff]
  intro statement hstatement
  exact (h statement hstatement).indexReports_eq

/-- Re-exports suit a types directory. -/
theorem typesFileReports_of_reExports : typesFileReports traits body = [] := by
  rw [typesFileReports, filterMap_exportedDeclaration? h]
  rfl

/-- Re-exports suit a pure directory. -/
theorem pureFileReports_of_reExports : pureFileReports traits body = [] := by
  have himports : imports body = [] := by
    rw [imports, List.filter_eq_nil_iff]
    intro statement hstatement
    simpa using (h statement hstatement).kind_ne (by decide) (by decide)
  have hdeclared : body.filterMap declaredFunction? = [] := by
    rw [List.filterMap_eq_nil_iff]
    intro statement hstatement
    exact (h statement hstatement).declaredFunction?_eq
  have hexported : body.filterMap exportedFunction? = [] := by
    rw [List.filterMap_eq_nil_iff]
    intro statement hstatement
    rw [exportedFunction?, (h statement hstatement).exportedDeclaration?_eq]
    rfl
  simp [pureFileReports, himports, hdeclared, hexported]

/-- Re-exports lack the class that an errors directory asks for. -/
theorem errorFileReports_of_reExports :
    errorFileReports traits body = [fileReport (missingClass traits)] := by
  have hclasses : body.filterMap exportedClass? = [] := by
    rw [List.filterMap_eq_nil_iff]
    intro statement hstatement
    rw [exportedClass?, (h statement hstatement).exportedDeclaration?_eq]
    rfl
  simp [errorFileReports, hclasses, missingClass]

/-- What the conventions report about re-exports is that an error class is missing, in an errors
directory, and else nothing. -/
theorem directoryReports_of_reExports :
    directoryReports traits body =
      if traits.isErrorFile then [fileReport (missingClass traits)] else [] := by
  simp only [directoryReports, flatMap_indexReports h, errorFileReports_of_reExports h,
    pureFileReports_of_reExports h, typesFileReports_of_reExports h, ite_self, List.nil_append,
    List.append_nil]

end Barrel

/-- An index file in an errors directory does not pass: the class that it must export would be a
declaration. -/
theorem directoryReports_ne_nil_of_index {traits : PathTraits} {program : Node}
    (hindex : traits.stem = "index") (herror : traits.isErrorFile = true)
    (hsplits : SplitsExports program) :
    directoryReports traits (program.children "body") ≠ [] := by
  intro hnone
  simp only [directoryReports, hindex, herror, if_true, List.append_eq_nil_iff, and_assoc] at hnone
  obtain ⟨honly, hclass, -⟩ := hnone
  obtain ⟨statement, hstatement, declaration, hkind, hdeclaration, -⟩ :=
    exists_class_of_errorFileReports hclass
  have hsource : statement.child "source" = none :=
    (hsplits statement hstatement).resolve_right (by simp [hdeclaration])
  have hreports := List.flatMap_eq_nil_iff.mp honly statement hstatement
  simp [indexReports, hkind, hsource, hdeclaration] at hreports

/-- **A barrel passes everywhere but in an errors directory, where no index file passes.** What the
policy for directories reports about a barrel that is no test file is nothing, whatever directories
it lies in, unless one of them is called `errors`: then it is, once and for the file as a whole,
that the class `index` is missing. So some index file passes exactly outside such directories. -/
theorem barrel_passes_iff (filePath : String) (entries : EntryPaths)
    (hindex : (Path.classify filePath entries).stem = "index")
    (htest : (Path.classify filePath entries).isTest = false) (context : Context)
    (hcontext : context.file.traits = Path.classify filePath entries) :
    let traits := Path.classify filePath entries
    let reports (program : Node) := (pathBasedRestrictions.check context program).reports
    (∀ program, IsBarrel program →
      reports program =
        if Path.hasDirectory traits.path "errors" then [⟨.fileStart, missingClass traits⟩]
        else []) ∧
    ((∃ program, SplitsExports program ∧ reports program = []) ↔
      ¬Path.hasDirectory traits.path "errors" = true) := by
  have herror : (Path.classify filePath entries).isErrorFile =
      Path.hasDirectory (Path.classify filePath entries).path "errors" := by
    simp only [Path.classify]
  generalize Path.classify filePath entries = traits at *
  have hreports (program : Node) : (pathBasedRestrictions.check context program).reports =
      directoryReports traits (program.children "body") := by
    simp only [pathBasedRestrictions, hcontext, htest, Bool.false_eq_true, if_false]
  have hbarrel (program : Node) (h : IsBarrel program) :=
    directoryReports_of_reExports h traits
  simp only [herror] at hbarrel
  simp only [hreports]
  refine ⟨hbarrel, ?_, ?_⟩
  · rintro ⟨program, hsplits, hnone⟩ hdirectory
    exact directoryReports_ne_nil_of_index hindex (herror.trans hdirectory) hsplits hnone
  · intro hdirectory
    refine ⟨emptyFile, List.forall_mem_nil _, ?_⟩
    rw [hbarrel emptyFile (List.forall_mem_nil _), if_neg hdirectory]

/-- The tree of `export * from "./a.js";` -/
def exportAllFile : Node :=
  ⟨0, "Program", .int 0, .int 0, [("body", .array [.atStart 1 "ExportAllDeclaration" [
    ("exported", .null), ("source", .atStart 2 "Literal" [("value", .text "./a.js")])]])]⟩

/-- That program is a barrel. -/
theorem isBarrel_exportAllFile : IsBarrel exportAllFile := by
  intro statement hstatement
  cases List.mem_singleton.mp hstatement
  exact Or.inl rfl

/-- A barrel passes as an index file for pure types, but not as one for errors, where nothing
does. -/
theorem barrel_passes_iff_pureTypes :
    ((Path.classify "src/pure/types/index.ts").stem = "index" ∧
      (Path.classify "src/pure/types/index.ts").isTest = false ∧ IsBarrel exportAllFile ∧
      (pathBasedRestrictions.check (contextAt "src/pure/types/index.ts") exportAllFile).reports =
        []) ∧
    ¬∃ program, SplitsExports program ∧
      (pathBasedRestrictions.check (contextAt "src/errors/index.ts") program).reports = [] := by
  have hindex : (Path.classify "src/pure/types/index.ts").stem = "index" := by decide +kernel
  have htest : (Path.classify "src/pure/types/index.ts").isTest = false := by decide +kernel
  have hnone : Path.hasDirectory (Path.classify "src/pure/types/index.ts").path "errors" = false :=
    by decide +kernel
  have hpassed := (barrel_passes_iff "src/pure/types/index.ts" {} hindex htest
    (contextAt "src/pure/types/index.ts") rfl).1 exportAllFile isBarrel_exportAllFile
  have herrors := (barrel_passes_iff "src/errors/index.ts" {} (by decide +kernel)
    (by decide +kernel) (contextAt "src/errors/index.ts") rfl).2
  refine ⟨⟨hindex, htest, isBarrel_exportAllFile, ?_⟩, ?_⟩
  · simpa [hnone] using hpassed
  · intro hexists
    exact herrors.mp hexists (by decide +kernel)

/-- A barrel among the errors is told to export a class. -/
theorem barrel_rejected_errors :
    let traits := Path.classify "src/errors/index.ts"
    traits.stem = "index" ∧ traits.isTest = false ∧ IsBarrel exportAllFile ∧
      (pathBasedRestrictions.check (contextAt "src/errors/index.ts") exportAllFile).reports.map
          (·.message) =
        ["Error file 'index.ts' must export error class 'index' extending Error"] :=
  ⟨by decide +kernel, by decide +kernel, isBarrel_exportAllFile, by decide +kernel⟩

end Policy

end PureLint
