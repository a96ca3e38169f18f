import PureLint.Policy.NamedExport
import PureLint.Proofs.Survey.ExportedVariables
import PureLint.Proofs.Policy.Agreement

/-!
# What one named export demands

Outside the directories for types and errors, the policy for named exports demands the same of a
file in whatever order its statements stand: which names it may export, in which shape, and that the
name of the file is among them. A class is then neither asked for its name nor counted.
-/

namespace PureLint.Policy

/-- A declaration gives a name to a function or to a variable. Names inside patterns are left
aside. -/
def GivesValue (declaration : Node) (name : String) : Prop :=
  (declaration.kind = "FunctionDeclaration" ∧ declaration.nameAt "id" = some name) ∨
  (declaration.kind = "VariableDeclaration" ∧
    ∃ declarator ∈ declaration.children "declarations", declarator.nameAt "id" = some name)

/-- A declaration gives a name to a type. Without an identifier this is the empty name. -/
def GivesType (declaration : Node) (name : String) : Prop :=
  (declaration.kind = "TSTypeAliasDeclaration" ∨ declaration.kind = "TSInterfaceDeclaration") ∧
    (declaration.nameAt "id").getD "" = name

/-- A function of this name may be asynchronous or not as it is, for the directory it is in. -/
structure FitsIn (directory : Convention) (name : String) (isAsync : Bool) : Prop where
  io : directory = .io → isAsync = true ∨ Text.endsWith name "Sync" = true
  pure : directory = .pure → isAsync = false

/-- What a file may export by a declaration, if it must export one name. -/
structure Allowed (directory : Convention) (name : String) (declaration : Node) : Prop where
  named : ∀ other, GivesValue declaration other ∨ GivesType declaration other → other = name
  fits : declaration.kind = "FunctionDeclaration" → ∀ other, declaration.nameAt "id" = some other →
    FitsIn directory other (declaration.flag "async")

/-- What a statement may be in a file that must export one name. -/
structure ConformsAt (directory : Convention) (name : String) (statement : Node) : Prop where
  noDefault : statement.kind ≠ "ExportDefaultDeclaration"
  noSpecifiers : statement.kind = "ExportNamedDeclaration" → statement.child "declaration" = none →
    statement.child "source" = none → statement.children "specifiers" = []
  allowed : ∀ declaration, statement.ExportsDeclaration declaration →
    Allowed directory name declaration

/-- The statements of a file that exports what its name announces. Whatever it exports by name, it
exports a function or a variable of that name. -/
structure Conforms (directory : Convention) (name : String) (body : List Node) : Prop where
  statements : ∀ statement ∈ body, ConformsAt directory name statement
  present : (∃ statement ∈ body, statement.kind = "ExportNamedDeclaration") →
    ∃ statement ∈ body, ∃ declaration, statement.ExportsDeclaration declaration ∧
      GivesValue declaration name

/-! ## Declarations that are allowed -/

section Allowed

variable {directory : Convention} {declaration : Node} {name : String}

/-- A function is allowed if it fits its directory and has the expected name. -/
theorem allowed_function_iff (hkind : declaration.kind = "FunctionDeclaration") :
    Allowed directory name declaration ↔ ∀ other, declaration.nameAt "id" = some other →
      FitsIn directory other (declaration.flag "async") ∧ other = name := by
  constructor
  · exact fun h other hname =>
      ⟨h.fits hkind other hname, h.named other (.inl (.inl ⟨hkind, hname⟩))⟩
  · intro h
    refine ⟨fun other hgives => ?_, fun _ other hname => (h other hname).1⟩
    have hname : declaration.nameAt "id" = some other := by
      simpa [GivesValue, GivesType, hkind] using hgives
    exact (h other hname).2

/-- Variables are allowed if each plain one has the expected name. -/
theorem allowed_variable_iff (hkind : declaration.kind = "VariableDeclaration") :
    Allowed directory name declaration ↔ ∀ declarator ∈ declaration.children "declarations",
      ∀ other, declarator.nameAt "id" = some other → other = name := by
  constructor
  · exact fun h declarator hdeclarator other hname =>
      h.named other (.inl (.inr ⟨hkind, declarator, hdeclarator, hname⟩))
  · intro h
    refine ⟨fun other hgives => ?_, fun hfunction => by simp [hkind] at hfunction⟩
    obtain ⟨declarator, hdeclarator, hname⟩ :
        ∃ declarator ∈ declaration.children "declarations",
          declarator.nameAt "id" = some other := by
      simpa [GivesValue, GivesType, hkind] using hgives
    exact h declarator hdeclarator other hname

/-- A type is allowed if it has the expected name, whatever the directory. -/
theorem allowed_type_iff
    (hkind : declaration.kind = "TSTypeAliasDeclaration" ∨
      declaration.kind = "TSInterfaceDeclaration") :
    Allowed directory name declaration ↔ (declaration.nameAt "id").getD "" = name := by
  constructor
  · exact fun h => h.named _ (.inr ⟨hkind, rfl⟩)
  · intro h
    have hneither : declaration.kind ≠ "FunctionDeclaration" ∧
        declaration.kind ≠ "VariableDeclaration" := by
      rcases hkind with hkind | hkind <;> simp [hkind]
    refine ⟨?_, fun hfunction => absurd hfunction hneither.1⟩
    rintro other ((⟨hfunction, -⟩ | ⟨hvariable, -⟩) | ⟨-, hname⟩)
    · exact absurd hfunction hneither.1
    · exact absurd hvariable hneither.2
    · exact hname.symm.trans h

/-- What is neither a function nor variables nor a type is allowed under every name. -/
theorem allowed_of_kind (hfunction : declaration.kind ≠ "FunctionDeclaration")
    (hvariable : declaration.kind ≠ "VariableDeclaration")
    (halias : declaration.kind ≠ "TSTypeAliasDeclaration")
    (hinterface : declaration.kind ≠ "TSInterfaceDeclaration") :
    Allowed directory name declaration := by
  refine ⟨?_, fun hkind => absurd hkind hfunction⟩
  rintro other ((⟨hkind, -⟩ | ⟨hkind, -⟩) | ⟨hkind | hkind, -⟩)
  · exact absurd hkind hfunction
  · exact absurd hkind hvariable
  · exact absurd hkind halias
  · exact absurd hkind hinterface

end Allowed

/-! ## Verdicts on declarations -/

section Verdict

variable {e : Expected} {statement declaration : Node} {name what : String} {isAsync : Bool}

/-- A function is accepted as asynchronous or not exactly if it fits its directory. -/
theorem asyncReports_eq_nil_iff :
    asyncReports e statement name isAsync = [] ↔ FitsIn e.directory name isAsync := by
  constructor
  · intro h
    unfold asyncReports at h
    split at h
    · cases h
    · rename_i hio
      split at h
      · cases h
      · rename_i hpure
        refine ⟨fun hdirectory => ?_, fun hdirectory => ?_⟩
        · by_contra hneither
          exact hio ⟨hdirectory, by simpa [not_or] using hneither⟩
        · by_contra hasync
          exact hpure ⟨hdirectory, by simpa using hasync⟩
  · intro ⟨hio, hpure⟩
    unfold asyncReports
    rw [if_neg, if_neg]
    · rintro ⟨hdirectory, hasync⟩
      rw [hpure hdirectory] at hasync
      cases hasync
    · rintro ⟨hdirectory, hasync, hsync⟩
      rcases hio hdirectory with h | h
      · rw [h] at hasync
        cases hasync
      · rw [h] at hsync
        cases hsync

variable (hbinds : e.bindsNames = true)

include hbinds

/-- A name is accepted exactly if it is the expected one. -/
theorem misnamedReports_eq_nil_iff :
    misnamedReports e statement what name = [] ↔ name = e.name := by
  simp [misnamedReports, hbinds]

/-- The directory is neither one for types nor one for errors. -/
theorem directory_ne_of_bindsNames : e.directory ≠ .types ∧ e.directory ≠ .errors := by
  simpa [Expected.bindsNames] using hbinds

/-- What is reported about an exported declaration is nothing exactly if it is allowed. -/
theorem declarationVerdict_reports_eq_nil_iff :
    (declarationVerdict e statement declaration).reports = [] ↔
      Allowed e.directory e.name declaration := by
  unfold declarationVerdict
  split
  case h_1 hkind =>
    rw [allowed_function_iff hkind]
    unfold functionVerdict
    split
    · rename_i hname
      simp [hname]
    · rename_i name hname
      simp [hname, asyncReports_eq_nil_iff, misnamedReports_eq_nil_iff hbinds]
  case h_2 hkind =>
    rw [allowed_variable_iff hkind]
    simp only [variableVerdict, List.flatMap_eq_nil_iff, List.mem_filterMap,
      misnamedReports_eq_nil_iff hbinds]
    exact ⟨fun h declarator hdeclarator other hname => h other ⟨declarator, hdeclarator, hname⟩,
      fun h other ⟨declarator, hdeclarator, hname⟩ => h declarator hdeclarator other hname⟩
  case h_3 hkind =>
    rw [allowed_type_iff (.inl hkind)]
    simp [typeVerdict]
  case h_4 hkind =>
    rw [allowed_type_iff (.inr hkind)]
    simp [typeVerdict]
  case h_5 hkind =>
    refine iff_of_true ?_ (allowed_of_kind ?_ ?_ ?_ ?_)
    · have herrors := (directory_ne_of_bindsNames hbinds).2
      unfold classVerdict
      split <;> simp [herrors]
    all_goals simp [hkind]
  case h_6 hfunction hvariable halias hinterface _ =>
    exact iff_of_true rfl (allowed_of_kind hfunction hvariable halias hinterface)

/-- An exported declaration counts exactly if it gives the expected name to a value. -/
theorem isExpected_declarationVerdict_iff :
    (declarationVerdict e statement declaration).isExpected = true ↔
      GivesValue declaration e.name := by
  obtain ⟨htypes, herrors⟩ := directory_ne_of_bindsNames hbinds
  unfold declarationVerdict
  split
  case h_1 hkind =>
    unfold functionVerdict
    cases hname : declaration.nameAt "id" <;> simp [GivesValue, hkind, hname]
  case h_2 hkind =>
    simp [variableVerdict, GivesValue, hkind]
  case h_3 hkind =>
    simp [typeVerdict, GivesValue, hkind, htypes]
  case h_4 hkind =>
    simp [typeVerdict, GivesValue, hkind, htypes]
  case h_5 hkind =>
    unfold classVerdict
    split <;> simp [GivesValue, hkind, herrors]
  case h_6 hfunction hvariable _ _ _ =>
    simp only [Bool.false_eq_true, false_iff]
    rintro (⟨hkind, -⟩ | ⟨hkind, -⟩)
    · exact hfunction hkind
    · exact hvariable hkind

/-! ## Statements -/

/-- A statement that exports by name counts exactly if what it declares counts. -/
theorem isExpected_namedVerdict_iff (hkind : statement.kind = "ExportNamedDeclaration") :
    (namedVerdict e statement).isExpected = true ↔
      ∃ declaration, statement.ExportsDeclaration declaration ∧ GivesValue declaration e.name := by
  unfold namedVerdict
  split
  · rename_i declaration hchild
    rw [isExpected_declarationVerdict_iff hbinds]
    constructor
    · exact fun hgives => ⟨declaration, ⟨hkind, hchild⟩, hgives⟩
    · rintro ⟨other, hexports, hgives⟩
      cases hchild.symm.trans hexports.child
      exact hgives
  · rename_i hchild
    have hnone : ¬∃ declaration, statement.ExportsDeclaration declaration ∧
        GivesValue declaration e.name := by
      rintro ⟨declaration, hexports, -⟩
      cases hchild.symm.trans hexports.child
    split <;> simp [hnone]

/-- What is reported about a statement is nothing exactly if it conforms. -/
theorem statementReports_eq_nil_iff :
    statementReports e statement = [] ↔ ConformsAt e.directory e.name statement := by
  unfold statementReports
  split
  case h_1 hkind =>
    exact iff_of_false (List.cons_ne_nil _ _) fun h => h.noDefault hkind
  case h_2 hkind =>
    have hdefault : statement.kind ≠ "ExportDefaultDeclaration" := by simp [hkind]
    cases hchild : statement.child "declaration" with
    | some declaration =>
      simp only [namedVerdict, hchild, declarationVerdict_reports_eq_nil_iff hbinds]
      constructor
      · intro h
        have hdeclares (hnone : statement.child "declaration" = none) : False := by
          cases hchild.symm.trans hnone
        refine ⟨hdefault, fun _ hnone => (hdeclares hnone).elim, ?_⟩
        intro other hexports
        cases hchild.symm.trans hexports.child
        exact h
      · exact fun h => h.allowed declaration ⟨hkind, hchild⟩
    | none =>
      have hallowed : ∀ declaration, statement.ExportsDeclaration declaration →
          Allowed e.directory e.name declaration := by
        intro declaration hexports
        cases hchild.symm.trans hexports.child
      simp only [namedVerdict, hchild]
      constructor
      · intro h
        refine ⟨hdefault, fun _ _ hsource => ?_, hallowed⟩
        by_contra hspecifiers
        simp [hsource, hspecifiers] at h
      · intro h
        rw [if_neg]
        intro hspecifiers
        simp only [Bool.and_eq_true, Option.isNone_iff_eq_none] at hspecifiers
        simp [h.noSpecifiers hkind hchild hspecifiers.1] at hspecifiers
  case h_3 hdefault hnamed =>
    refine iff_of_true rfl ⟨hdefault, fun hkind => absurd hkind hnamed, ?_⟩
    exact fun declaration hexports => absurd hexports.kind hnamed

/-- Some statement that exports by name counts exactly if one gives the expected name. -/
theorem any_isExpected_iff {body : List Node} :
    ((body.filter (·.kind == "ExportNamedDeclaration")).any fun statement =>
      (namedVerdict e statement).isExpected) = true ↔
      ∃ statement ∈ body, ∃ declaration, statement.ExportsDeclaration declaration ∧
        GivesValue declaration e.name := by
  simp only [List.any_eq_true, List.mem_filter, beq_iff_eq]
  constructor
  · rintro ⟨statement, ⟨hstatement, hkind⟩, hexpected⟩
    exact ⟨statement, hstatement, (isExpected_namedVerdict_iff hbinds hkind).mp hexpected⟩
  · rintro ⟨statement, hstatement, declaration, hexports, hgives⟩
    exact ⟨statement, ⟨hstatement, hexports.kind⟩,
      (isExpected_namedVerdict_iff hbinds hexports.kind).mpr ⟨declaration, hexports, hgives⟩⟩

/-- What is reported about the exports of a file is nothing exactly if its statements conform. -/
theorem namedExportReports_eq_nil_iff {stem : String} {body : List Node} :
    namedExportReports e stem body = [] ↔ Conforms e.directory e.name body := by
  have hempty : (body.filter (·.kind == "ExportNamedDeclaration")).isEmpty = true ↔
      ¬∃ statement ∈ body, statement.kind = "ExportNamedDeclaration" := by
    simp [List.filter_eq_nil_iff]
  have hmissing (condition : Bool) (report : Report) :
      (if condition then [] else [report]) = [] ↔ condition = true := by
    cases condition <;> simp
  rw [namedExportReports, List.append_eq_nil_iff, List.flatMap_eq_nil_iff, hmissing,
    Bool.or_eq_true, hempty, any_isExpected_iff hbinds, ← imp_iff_not_or]
  simp only [statementReports_eq_nil_iff hbinds]
  exact ⟨fun h => ⟨h.1, h.2⟩, fun h => ⟨h.statements, h.present⟩⟩

end Verdict

/-- **What one named export demands.** Let a file be neither an index nor a test nor an entry, and
outside the directories for types and errors. Nothing is reported about its exports exactly if they
conform: no default export and no list of specifiers, every function, plain variable and type of the
expected name, every function in the shape of its directory, and, if anything is exported by name, a
function or variable of that name. The name is the stem of the file without one underscore in
front. -/
theorem strictNamedExport_reports_eq_nil_iff (filePath : String) (entries : EntryPaths)
    (hexempt : isExempt (Path.classify filePath entries) = false)
    (hdirectory : (Path.classify filePath entries).directory ∈ [.regular, .pure, .io])
    (context : Context) (hcontext : context.file.traits = Path.classify filePath entries)
    (program : Node) :
    let traits := Path.classify filePath entries
    (strictNamedExport.check context program).reports = [] ↔
      Conforms traits.directory (expectedName traits.stem) (program.children "body") := by
  generalize Path.classify filePath entries = traits at hexempt hdirectory hcontext
  have hbinds : Expected.bindsNames ⟨expectedName traits.stem, traits.directory⟩ = true := by
    simp only [List.mem_cons, List.not_mem_nil, or_false] at hdirectory
    rcases hdirectory with h | h | h <;> simp [Expected.bindsNames, h]
  simp only [strictNamedExport, hcontext, hexempt, Bool.false_eq_true, if_false]
  exact namedExportReports_eq_nil_iff hbinds

/-- A program that exports a function, and something else from another file. -/
def functionFile (name : String) (isAsync : Bool) : Node :=
  ⟨0, "Program", .int 0, .int 0, [("body", .array [
    .atStart 1 "ExportNamedDeclaration" [
      ("declaration", .atStart 2 "FunctionDeclaration" [
        ("id", .atStart 3 "Identifier" [("name", .text name)]), ("async", .bool isAsync)])],
    .atStart 4 "ExportNamedDeclaration" [
      ("specifiers", .array [.atStart 5 "ExportSpecifier" []]),
      ("source", .atStart 6 "Literal" [("value", .text "./other.js")])]])]⟩

/-- An asynchronous function of the name of its file conforms, and it does not without being
asynchronous. -/
theorem strictNamedExport_reports_eq_nil_iff_readSettings :
    let traits := Path.classify "src/io/_readSettings.ts"
    let conforms (isAsync : Bool) := Conforms traits.directory (expectedName traits.stem)
      ((functionFile "readSettings" isAsync).children "body")
    isExempt traits = false ∧ traits.directory ∈ [.regular, .pure, .io] ∧
      conforms true ∧ ¬conforms false := by
  have hexempt : isExempt (Path.classify "src/io/_readSettings.ts") = false := by decide +kernel
  have hdirectory : (Path.classify "src/io/_readSettings.ts").directory ∈
      [.regular, .pure, .io] := by decide +kernel
  have hiff (isAsync : Bool) := strictNamedExport_reports_eq_nil_iff "src/io/_readSettings.ts" {}
    hexempt hdirectory (contextAt "src/io/_readSettings.ts") rfl
    (functionFile "readSettings" isAsync)
  refine ⟨hexempt, hdirectory, (hiff true).mp ?_, fun h => ?_⟩
  · apply List.isEmpty_iff.mp
    decide +kernel
  · have hreports := List.isEmpty_iff.mpr ((hiff false).mpr h)
    revert hreports
    decide +kernel

end PureLint.Policy
