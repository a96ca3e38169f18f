import PureLint.Policy.Directory
import PureLint.Policy.NamedExport
import PureLint.Proofs.Tree.Contents

/-!
# What both policies demand

Both policies look for an export with the name of the file. The one for named exports leaves out an
underscore at the beginning of that name, the one for directories does not. So what the first
demands suits the second exactly where there is no such underscore, and in an errors directory,
where a class must be exported, no file suits both otherwise.
-/

namespace PureLint

/-- Stripping a beginning leaves exactly those strings alone that do not have it. -/
theorem Text.stripStart_eq_self_iff {s start : String} (hstart : start ≠ "") :
    stripStart s start = s ↔ startsWith s start = false := by
  have hprefix : startsWith s start = true ↔ start.toList <+: s.toList :=
    List.isPrefixOf_iff_prefix
  rw [Bool.eq_false_iff, ne_eq, hprefix, stripStart]
  cases hdrop : dropStart? start.toList s.toList with
  | some rest =>
    have hs : s.toList = start.toList ++ rest := dropStart?_eq_some_iff.mp hdrop
    refine iff_of_false ?_ (not_not_intro ⟨rest, hs.symm⟩)
    intro (heq : String.ofList rest = s)
    rw [← heq, String.toList_ofList, List.self_eq_append_left] at hs
    exact hstart (String.toList_eq_nil_iff.mp hs)
  | none =>
    refine iff_of_true rfl ?_
    rintro ⟨rest, hrest⟩
    rw [dropStart?_eq_some_iff.mpr hrest.symm] at hdrop
    cases hdrop

namespace Policy

/-- The directories whose files export what the directory is for. -/
def exportDirectories : List String := ["types", "errors", "pure"]

/-- Whether just one of these directories is on a path. -/
def InOneDirectory (path : String) : Prop :=
  (exportDirectories.filter (Path.hasDirectory path)).length = 1

instance (path : String) : Decidable (InOneDirectory path) :=
  inferInstanceAs (Decidable (_ = 1))

/-- Whether a declaration is of the sort that a directory is for. -/
def Suits (declaration : Node) : Convention → Prop
  | .types => declaration.kind = "TSTypeAliasDeclaration"
  | .errors =>
    declaration.kind = "ClassDeclaration" ∧ declaration.nameAt "superClass" = some "Error"
  | .pure => declaration.kind = "FunctionDeclaration" ∧ declaration.flag "async" = false
  | .io | .regular => False

/-- Whether a statement exports, under the given name, what a directory is for. -/
structure Provides (statement : Node) (directory : Convention) (name : String) : Prop where
  exports : statement.kind = "ExportNamedDeclaration"
  declares : ∃ declaration, statement.child "declaration" = some declaration ∧
    declaration.nameAt "id" = some name ∧ Suits declaration directory

section Statement

variable {statement : Node} {name : String}

/-- What is exported as demanded passes the policy for named exports. -/
theorem namedExportReports_of_provides {directory : Convention}
    (h : Provides statement directory name) (stem : String) :
    namedExportReports ⟨name, directory⟩ stem [statement] = [] := by
  obtain ⟨hkind, declaration, hchild, hname, hsuits⟩ := h
  have hverdict : namedVerdict ⟨name, directory⟩ statement = ⟨true, []⟩ := by
    cases directory with
    | types =>
      have hdeclaration : declaration.kind = "TSTypeAliasDeclaration" := hsuits
      simp [namedVerdict, hchild, declarationVerdict, hdeclaration, typeVerdict, hname]
    | errors =>
      have hdeclaration : declaration.kind = "ClassDeclaration" := hsuits.1
      simp [namedVerdict, hchild, declarationVerdict, hdeclaration, classVerdict, hname]
    | pure =>
      obtain ⟨hdeclaration, hasync⟩ := hsuits
      simp [namedVerdict, hchild, declarationVerdict, hdeclaration, functionVerdict, hname,
        asyncReports, hasync, misnamedReports]
    | io => cases hsuits
    | regular => cases hsuits
  simp [namedExportReports, statementReports, hkind, hverdict]

variable {traits : PathTraits}

/-- An exported type passes in a types directory exactly if it has the name of the file. -/
theorem typesFileReports_of_provides (h : Provides statement .types name) :
    typesFileReports traits [statement] = [] ↔ name = traits.stem := by
  obtain ⟨hkind, declaration, hchild, hname, hdeclaration⟩ := h
  have hdeclaration : declaration.kind = "TSTypeAliasDeclaration" := hdeclaration
  simp [typesFileReports, exportedDeclaration?, hkind, hchild, nonTypeReports, declaresType,
    hdeclaration, namedType?, hname, typeNameReports]

/-- An exported class passes in an errors directory exactly if it has the name of the file. -/
theorem errorFileReports_of_provides (h : Provides statement .errors name) :
    errorFileReports traits [statement] = [] ↔ name = traits.stem := by
  obtain ⟨hkind, declaration, hchild, hname, hdeclaration, hsuper⟩ := h
  by_cases hstem : name = traits.stem
  · simp [errorFileReports, exportedClass?, exportedDeclaration?, hkind, hchild, hdeclaration,
      hname, errorClassReports, hsuper, hstem]
  · simp [errorFileReports, exportedClass?, exportedDeclaration?, hkind, hchild, hdeclaration,
      hname, hstem]

/-- An exported function passes in a pure directory exactly if it has the name of the file. -/
theorem pureFileReports_of_provides (h : Provides statement .pure name) :
    pureFileReports traits [statement] = [] ↔ name = traits.stem := by
  obtain ⟨hkind, declaration, hchild, hname, hdeclaration, hasync⟩ := h
  have hexported : exportedFunction? statement = some declaration := by
    simp [exportedFunction?, exportedDeclaration?, hkind, hchild, hdeclaration]
  simp [pureFileReports, imports, hkind, declaredFunction?, hexported, hasync, hname]

end Statement

/-- The directory convention of a path is the only one of these directories that is on it. -/
theorem directory_of_inOneDirectory {path : String} (h : InOneDirectory path) :
    (Path.directory path = .types ∧ Path.hasDirectory path "types" = true ∧
      Path.hasDirectory path "errors" = false ∧ Path.hasDirectory path "pure" = false) ∨
    (Path.directory path = .errors ∧ Path.hasDirectory path "types" = false ∧
      Path.hasDirectory path "errors" = true ∧ Path.hasDirectory path "pure" = false) ∨
    (Path.directory path = .pure ∧ Path.hasDirectory path "types" = false ∧
      Path.hasDirectory path "errors" = false ∧ Path.hasDirectory path "pure" = true) := by
  unfold InOneDirectory exportDirectories at h
  unfold Path.directory
  cases htypes : Path.hasDirectory path "types" <;>
    cases herrors : Path.hasDirectory path "errors" <;>
      cases hpure : Path.hasDirectory path "pure" <;>
        simp_all

/-- The traits of a file in just one of these directories, to which the policy for named exports
applies. -/
structure Conventional (traits : PathTraits) : Prop where
  applies : isExempt traits = false
  directory : traits.directory = Path.directory traits.path
  errorFile : traits.isErrorFile = Path.hasDirectory traits.path "errors"
  inOne : InOneDirectory traits.path

/-- A path in just one of these directories gives such traits. -/
theorem conventional_classify {filePath : String} {entries : EntryPaths}
    (hexempt : isExempt (Path.classify filePath entries) = false)
    (hone : InOneDirectory (Path.classify filePath entries).path) :
    Conventional (Path.classify filePath entries) where
  applies := hexempt
  directory := by simp only [Path.classify]
  errorFile := by simp only [Path.classify]
  inOne := hone

namespace Conventional

variable {traits : PathTraits} (h : Conventional traits)

include h

/-- The conventions for the file are those of its directory. -/
theorem directoryReports_cases (body : List Node) :
    (traits.directory = .types ∧ directoryReports traits body = typesFileReports traits body) ∨
    (traits.directory = .errors ∧ directoryReports traits body = errorFileReports traits body) ∨
    (traits.directory = .pure ∧ directoryReports traits body = pureFileReports traits body) := by
  have hstem : traits.stem ≠ "index" := by
    intro hindex
    have happlies := h.applies
    simp [isExempt, hindex] at happlies
  rw [directoryReports, if_neg hstem, h.directory, h.errorFile, List.nil_append]
  rcases directory_of_inOneDirectory h.inOne with
    ⟨hkind, htypes, herrors, hpure⟩ | ⟨hkind, htypes, herrors, hpure⟩ |
    ⟨hkind, htypes, herrors, hpure⟩
  · left
    simp [hkind, htypes, herrors, hpure]
  · right; left
    simp [hkind, htypes, herrors, hpure]
  · right; right
    simp [hkind, htypes, herrors, hpure]

variable {context : Context} (hcontext : context.file.traits = traits) (program : Node)

include hcontext

/-- What the policy for named exports reports about the file. -/
theorem reports_strictNamedExport :
    (strictNamedExport.check context program).reports =
      namedExportReports ⟨expectedName traits.stem, traits.directory⟩ traits.stem
        (program.children "body") := by
  simp only [strictNamedExport, hcontext, h.applies, Bool.false_eq_true, if_false]

/-- What the policy for directories reports about the file. -/
theorem reports_pathBasedRestrictions :
    (pathBasedRestrictions.check context program).reports =
      directoryReports traits (program.children "body") := by
  have htest : traits.isTest = false := by
    have happlies := h.applies
    simp only [isExempt, Bool.or_eq_false_iff] at happlies
    exact happlies.1.1.2
  simp only [pathBasedRestrictions, hcontext, htest, Bool.false_eq_true, if_false]

end Conventional

/-- An error file that passes exports a class with the name of the file. -/
theorem exists_class_of_errorFileReports {traits : PathTraits} {body : List Node}
    (h : errorFileReports traits body = []) :
    ∃ statement ∈ body, ∃ declaration, statement.kind = "ExportNamedDeclaration" ∧
      statement.child "declaration" = some declaration ∧ declaration.kind = "ClassDeclaration" ∧
      declaration.nameAt "id" = some traits.stem := by
  obtain ⟨-, hmissing⟩ := List.append_eq_nil_iff.mp h
  have hany : (body.filterMap exportedClass?).any (fun entry => entry.2 == traits.stem) = true := by
    split at hmissing
    · assumption
    · cases hmissing
  obtain ⟨⟨declaration, name⟩, hclass, hname⟩ := List.any_eq_true.mp hany
  obtain ⟨statement, hstatement, hexported⟩ := List.mem_filterMap.mp hclass
  cases eq_of_beq hname
  simp only [exportedClass?, exportedDeclaration?, Option.bind_eq_bind,
    Option.bind_eq_some_iff] at hexported
  obtain ⟨exported, hchild, hexported⟩ := hexported
  split at hchild
  · rename_i hkind
    split at hexported
    · rename_i hdeclaration
      obtain ⟨name, hname, hpair⟩ := Option.bind_eq_some_iff.mp hexported
      cases hpair
      exact ⟨statement, hstatement, declaration, hkind, hchild, hdeclaration, hname⟩
    · cases hexported
  · cases hchild

/-- In an errors directory, a file that must export under one name for one policy and under another
for the other does not pass both. -/
theorem not_both_of_errors {traits : PathTraits} {name stem : String} (hname : name ≠ traits.stem)
    {body : List Node} (hnamed : namedExportReports ⟨name, .errors⟩ stem body = []) :
    errorFileReports traits body ≠ [] := by
  intro herror
  obtain ⟨statement, hstatement, declaration, hkind, hchild, hdeclaration, hid⟩ :=
    exists_class_of_errorFileReports herror
  obtain ⟨hnothing, -⟩ := List.append_eq_nil_iff.mp hnamed
  have hreports := List.flatMap_eq_nil_iff.mp hnothing statement hstatement
  simp [statementReports, hkind, namedVerdict, hchild, declarationVerdict, hdeclaration,
    classVerdict, hid, hname.symm] at hreports

/-- A program without statements. -/
def emptyFile : Node := ⟨0, "Program", .int 0, .int 0, []⟩

/-- A program that exports an error class. -/
def errorClassFile (name : String) : Node :=
  ⟨0, "Program", .int 0, .int 0, [("body", .array [.atStart 1 "ExportNamedDeclaration" [
    ("declaration", .atStart 2 "ClassDeclaration" [
      ("id", .atStart 3 "Identifier" [("name", .text name)]),
      ("superClass", .atStart 4 "Identifier" [("name", .text "Error")])])]])]⟩

/-- The exported error class is what an errors directory is for. -/
theorem provides_errorClassFile (name : String) :
    ∃ statement, (errorClassFile name).children "body" = [statement] ∧
      Provides statement .errors name :=
  ⟨_, rfl, rfl, _, rfl, rfl, rfl, rfl⟩

namespace Conventional

variable {traits : PathTraits} (h : Conventional traits)

include h

/-- What is exported as the policy for named exports demands passes the policy for directories
exactly if the stem of the file does not begin with an underscore. -/
theorem directoryReports_of_provides {statement : Node}
    (hprovides : Provides statement traits.directory (expectedName traits.stem)) :
    directoryReports traits [statement] = [] ↔ Text.startsWith traits.stem "_" = false := by
  have hexpected :
      expectedName traits.stem = traits.stem ↔ Text.startsWith traits.stem "_" = false :=
    Text.stripStart_eq_self_iff (by decide)
  rw [← hexpected]
  rcases h.directoryReports_cases [statement] with ⟨hkind, heq⟩ | ⟨hkind, heq⟩ | ⟨hkind, heq⟩
  · rw [hkind] at hprovides
    rw [heq, typesFileReports_of_provides hprovides]
  · rw [hkind] at hprovides
    rw [heq, errorFileReports_of_provides hprovides]
  · rw [hkind] at hprovides
    rw [heq, pureFileReports_of_provides hprovides]

/-- Some file passes both policies, unless it lies in an errors directory and its stem begins with
an underscore. -/
theorem exists_passing_iff :
    (∃ program : Node,
      namedExportReports ⟨expectedName traits.stem, traits.directory⟩ traits.stem
        (program.children "body") = [] ∧
      directoryReports traits (program.children "body") = []) ↔
      ¬(traits.directory = .errors ∧ Text.startsWith traits.stem "_" = true) := by
  constructor
  · rintro ⟨program, hnamed, hdirectory⟩ ⟨herrors, hunderscore⟩
    have hname : expectedName traits.stem ≠ traits.stem := by
      intro heq
      rw [(Text.stripStart_eq_self_iff (by decide)).mp heq] at hunderscore
      cases hunderscore
    rw [herrors] at hnamed
    rcases h.directoryReports_cases (program.children "body") with
      ⟨hkind, -⟩ | ⟨-, heq⟩ | ⟨hkind, -⟩
    · cases herrors.symm.trans hkind
    · exact not_both_of_errors hname hnamed (heq.symm.trans hdirectory)
    · cases herrors.symm.trans hkind
  · intro hgood
    rcases h.directoryReports_cases [] with ⟨-, heq⟩ | ⟨hkind, -⟩ | ⟨-, heq⟩
    · exact ⟨emptyFile, rfl, heq⟩
    · have hunderscore : Text.startsWith traits.stem "_" = false := by
        rw [Bool.eq_false_iff]
        exact fun hunderscore => hgood ⟨hkind, hunderscore⟩
      obtain ⟨statement, hbody, hprovides⟩ := provides_errorClassFile (expectedName traits.stem)
      rw [← hkind] at hprovides
      refine ⟨errorClassFile (expectedName traits.stem), ?_⟩
      rw [hbody]
      exact ⟨namedExportReports_of_provides hprovides traits.stem,
        (h.directoryReports_of_provides hprovides).mpr hunderscore⟩
    · exact ⟨emptyFile, rfl, heq⟩

end Conventional

/-- **The two policies demand one name unless the file has an underscore in front.** Let a file be
in just one of the directories for types, errors and pure functions, and let the policy for named
exports apply to it. A single statement that exports, under the name that this policy expects, what
the directory is for, passes it; and it passes the policy for directories too exactly if the stem of
the file does not begin with an underscore. Some file passes both, unless the stem begins with one
in an errors directory: then none does. -/
theorem provided_passes_iff (filePath : String) (entries : EntryPaths)
    (hexempt : isExempt (Path.classify filePath entries) = false)
    (hone : InOneDirectory (Path.classify filePath entries).path) (context : Context)
    (hcontext : context.file.traits = Path.classify filePath entries) :
    let traits := Path.classify filePath entries
    let passesNamed (program : Node) := (strictNamedExport.check context program).reports = []
    let passesDirectory (program : Node) :=
      (pathBasedRestrictions.check context program).reports = []
    (∀ program statement, program.children "body" = [statement] →
      Provides statement traits.directory (expectedName traits.stem) →
      passesNamed program ∧
        (passesDirectory program ↔ Text.startsWith traits.stem "_" = false)) ∧
    ((∃ program, passesNamed program ∧ passesDirectory program) ↔
      ¬(traits.directory = .errors ∧ Text.startsWith traits.stem "_" = true)) := by
  have h := conventional_classify hexempt hone
  generalize Path.classify filePath entries = traits at h hcontext
  simp only [h.reports_strictNamedExport hcontext, h.reports_pathBasedRestrictions hcontext]
  refine ⟨?_, h.exists_passing_iff⟩
  intro program statement hbody hprovides
  rw [hbody]
  exact ⟨namedExportReports_of_provides hprovides traits.stem,
    h.directoryReports_of_provides hprovides⟩

/-- What policies look at in a file of which only the path is known. -/
def contextAt (filePath : String) : Context :=
  { file :=
      { filePath := filePath
        traits := Path.classify filePath
        runner := none
        granted := []
        units := []
        comments := [] }
    survey := { topLevel := {} } }

/-- An error class passes both policies in a file of its name, and nothing passes them in a file
with an underscore more. -/
theorem provided_passes_iff_parseError :
    (isExempt (Path.classify "src/errors/ParseError.ts") = false ∧
      InOneDirectory (Path.classify "src/errors/ParseError.ts").path ∧
      (strictNamedExport.check (contextAt "src/errors/ParseError.ts")
        (errorClassFile "ParseError")).reports = [] ∧
      (pathBasedRestrictions.check (contextAt "src/errors/ParseError.ts")
        (errorClassFile "ParseError")).reports = []) ∧
    let context := contextAt "src/errors/_ParseError.ts"
    ¬∃ program, (strictNamedExport.check context program).reports = [] ∧
      (pathBasedRestrictions.check context program).reports = [] := by
  have hexempt : isExempt (Path.classify "src/errors/ParseError.ts") = false := by decide +kernel
  have hone : InOneDirectory (Path.classify "src/errors/ParseError.ts").path := by decide +kernel
  have hkind : (Path.classify "src/errors/ParseError.ts").directory = .errors := by decide +kernel
  have hname : expectedName (Path.classify "src/errors/ParseError.ts").stem = "ParseError" := by
    decide +kernel
  obtain ⟨statement, hbody, hprovides⟩ := provides_errorClassFile "ParseError"
  rw [← hkind, ← hname] at hprovides
  obtain ⟨hnamed, hdirectory⟩ :=
    (provided_passes_iff "src/errors/ParseError.ts" {} hexempt hone
      (contextAt "src/errors/ParseError.ts") rfl).1 _ statement hbody hprovides
  refine ⟨⟨hexempt, hone, hnamed, hdirectory.mpr (by decide +kernel)⟩, ?_⟩
  have hnone := (provided_passes_iff "src/errors/_ParseError.ts" {} (by decide +kernel)
    (by decide +kernel) (contextAt "src/errors/_ParseError.ts") rfl).2
  intro context hpassed
  exact hnone.mp hpassed ⟨by decide +kernel, by decide +kernel⟩

/-- The class that the policy for named exports expects is rejected by the policy for
directories. -/
theorem expected_rejected_parseError :
    let traits := Path.classify "src/errors/_ParseError.ts"
    let context := contextAt "src/errors/_ParseError.ts"
    let program := errorClassFile "ParseError"
    isExempt traits = false ∧ InOneDirectory traits.path ∧
      (∃ statement, program.children "body" = [statement] ∧
        Provides statement traits.directory (expectedName traits.stem)) ∧
      (strictNamedExport.check context program).reports = [] ∧
      (pathBasedRestrictions.check context program).reports.map (·.message) =
        ["Error class must be named '_ParseError' to match filename",
          "Error file '_ParseError.ts' must export error class '_ParseError' extending Error"] := by
  refine ⟨by decide +kernel, by decide +kernel, ?_, ?_, by decide +kernel⟩
  · have hkind : (Path.classify "src/errors/_ParseError.ts").directory = .errors := by
      decide +kernel
    have hname : expectedName (Path.classify "src/errors/_ParseError.ts").stem = "ParseError" := by
      decide +kernel
    rw [hkind, hname]
    exact provides_errorClassFile "ParseError"
  · apply List.isEmpty_iff.mp
    decide +kernel

end Policy

end PureLint
