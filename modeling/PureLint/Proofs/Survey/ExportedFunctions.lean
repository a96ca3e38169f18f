import PureLint.Proofs.Survey.ExportedVariables
import PureLint.Proofs.Tree.Naming
import PureLint.Rule.Function

/-!
# Exported functions

Two ways of looking find the exported functions: one goes over the statements of a program, the
other looks at each node for the functions that it names, and finds with each the node that a doc
comment must stand above. In a program that the grammar allows the two agree at each export. So
where the doc comment of an exported function is looked into, the export has one.
-/

namespace PureLint

namespace Node

/-- A statement exports what it declares, by name or as the default. -/
structure ExportsAny (statement declaration : Node) : Prop where
  kind : statement.kind = "ExportNamedDeclaration" ∨ statement.kind = "ExportDefaultDeclaration"
  child : statement.child "declaration" = some declaration

/-- What the grammar says about functions and exports: declarations of functions do not stand in
parentheses, and variables are not declared in a default export. -/
structure Grammatical (program : Node) : Prop where
  parenthesized : ∀ visit ∈ program.visits, visit.node.kind = "ParenthesizedExpression" →
    ∀ inner ∈ visit.node.child "expression", inner.kind ≠ "FunctionDeclaration"
  defaultExport : ∀ visit ∈ program.visits, visit.node.kind = "ExportDefaultDeclaration" →
    ∀ declaration ∈ visit.node.child "declaration", declaration.kind ≠ "VariableDeclaration"

-- Equal nodes are one object here: they agree in their identities, and a node is unequal to what is
-- inside it. So no assumption about distinct nodes is needed.
open Classical in
/-- The functions found at a statement and at what it exports, as far as a doc comment above the
statement is theirs. -/
noncomputable def documentedBy (program statement declaration : Node) : List NamedFunction :=
  (statement.namedFunctions (some program) ++ declaration.namedFunctions (some statement)).filter
    fun named => named.anchor = statement

/-- What a function is exported as by a statement: a default export has one name. -/
def exportOf (statement : Node) (named : NamedFunction) : Export :=
  ⟨if statement.kind = "ExportDefaultDeclaration" then "default" else named.name, statement.span⟩

end Node

namespace NamedFunction

open Node

variable {program statement declaration : Node} {named : NamedFunction}

/-! ## Where doc comments stand -/

/-- What stands in an export is documented above the export. -/
theorem anchorOf_eq (h : statement.ExportsAny declaration) :
    anchorOf declaration (some statement) = statement := by
  rcases h.kind with hkind | hkind <;> simp [anchorOf, hasKind, hkind, Option.filter]

/-- What is exported is another node than the export. -/
theorem ne_of_exports (h : statement.ExportsAny declaration) : declaration ≠ statement := by
  rintro rfl
  exact Nat.lt_irrefl _ (weight_child h.child)

/-- Functions that are not declared in an export are not documented above it. -/
theorem anchor_eq_of_mem {parent : Option Node}
    (hfunction : declaration.kind ≠ "FunctionDeclaration")
    (hvariables : declaration.kind ≠ "VariableDeclaration")
    (h : named ∈ declaration.namedFunctions parent) : named.anchor = declaration := by
  unfold namedFunctions at h
  split at h
  case h_1 hkind => exact absurd hkind hfunction
  case h_2 =>
    unfold ofExpression at h
    split at h
    · cases h
    · obtain ⟨name, -, rfl⟩ := Option.map_eq_some_iff.mp (Option.mem_toList.mp h)
      rfl
  case h_3 hkind => exact absurd hkind hvariables
  case h_4 =>
    unfold ofDefaultExport at h
    split at h
    · cases h
    · simp only at h
      split at h
      · cases List.mem_singleton.mp h
        rfl
      · cases h
  case h_5 => cases h

/-- What an export names itself is documented above it, and so is what it declares, but not what
stands in it otherwise. -/
theorem documentedBy_eq (h : statement.ExportsAny declaration) :
    program.documentedBy statement declaration = statement.namedFunctions (some program) ++
      if declaration.kind = "FunctionDeclaration" ∨ declaration.kind = "VariableDeclaration" then
        declaration.namedFunctions (some statement)
      else [] := by
  have hself : ∀ named ∈ statement.namedFunctions (some program), named.anchor = statement := by
    intro named hnamed
    apply anchor_eq_of_mem _ _ hnamed
    all_goals rcases h.kind with hkind | hkind <;> simp [hkind]
  rw [documentedBy, List.filter_append, List.filter_eq_self.mpr (by simpa using hself)]
  congr 1
  split
  · rename_i hdeclared
    have hanchor : ∀ named ∈ declaration.namedFunctions (some statement),
        named.anchor = statement := by
      intro named hnamed
      rcases hdeclared with hkind | hkind
      · simp only [namedFunctions, hkind, ofDeclaration, anchorOf_eq h] at hnamed
        obtain ⟨name, -, rfl⟩ := Option.map_eq_some_iff.mp (Option.mem_toList.mp hnamed)
        rfl
      · rw [namedFunctions_variables hkind, anchorOf_eq h] at hnamed
        obtain ⟨declarator, -, hbound⟩ := List.mem_filterMap.mp hnamed
        obtain ⟨value, -, -, -, -, hanchor⟩ := boundBy?_eq_some_iff.mp hbound
        exact hanchor.symm
    exact List.filter_eq_self.mpr (by simpa using hanchor)
  · rename_i hother
    obtain ⟨hfunction, hvariables⟩ := not_or.mp hother
    have hanchor : ∀ named ∈ declaration.namedFunctions (some statement),
        named.anchor ≠ statement := by
      intro named hnamed
      rw [anchor_eq_of_mem hfunction hvariables hnamed]
      exact ne_of_exports h
    exact List.filter_eq_nil_iff.mpr (by simpa using hanchor)

end NamedFunction

namespace TopLevel

open Node NamedFunction

variable {program statement declaration declarator : Node}

/-- A declarator that a statement exports adds the function that it binds. -/
theorem functions_boundBy (hkind : statement.kind = "ExportNamedDeclaration") :
    (variableEntries statement declarator).filterMap Entry.function? =
      ((boundBy? statement declarator).map (exportOf statement)).toList := by
  have hnamed : statement.kind ≠ "ExportDefaultDeclaration" := by simp [hkind]
  rw [functions_variableEntries]
  unfold exportedAs boundBy? exportOf holdsFunction
  cases declarator.nameAt "id" <;> cases declarator.child "init" <;> simp [hnamed]
  split <;> simp

/-- A statement that exports by name adds the functions that it documents. -/
theorem functions_namedExport (hexports : statement.ExportsDeclaration declaration) :
    (entriesOf statement).filterMap Entry.function? =
      (program.documentedBy statement declaration).map (exportOf statement) := by
  have hany : statement.ExportsAny declaration := ⟨.inl hexports.kind, hexports.child⟩
  have hnothing : statement.namedFunctions (some program) = [] :=
    namedFunctions_eq_nil (by simp [kinds, hexports.kind])
  rw [documentedBy_eq hany, hnothing, List.nil_append]
  by_cases hvariables : declaration.kind = "VariableDeclaration"
  · rw [if_pos (.inr hvariables), namedFunctions_variables hvariables, anchorOf_eq hany,
      filterMap_entriesOf_exportedVariables _ hexports hvariables rfl, List.map_filterMap,
      List.filterMap_eq_flatMap_toList]
    simp only [functions_boundBy hexports.kind]
  · have hentries : (entriesOf statement).filterMap Entry.function? =
        (declarationEntries statement declaration).filterMap Entry.function? := by
      simp only [entriesOf, hexports.kind, namedExportEntries, hexports.child,
        List.filterMap_append]
      split <;> rfl
    rw [hentries]
    by_cases hfunction : declaration.kind = "FunctionDeclaration"
    · rw [if_pos (.inl hfunction)]
      have hnamed : declaration.namedFunctions (some statement) =
          ((declaration.nameAt "id").map fun name => ⟨name, declaration, statement⟩).toList := by
        simp [namedFunctions, hfunction, ofDeclaration, anchorOf_eq hany, hasKind, hexports.kind]
      rw [hnamed, declarationEntries, if_pos hfunction]
      cases declaration.nameAt "id" with
      | none => rfl
      | some name => simp [exportOf, hexports.kind, Entry.function?]
    · rw [if_neg (not_or.mpr ⟨hfunction, hvariables⟩), declarationEntries, if_neg hfunction,
        if_neg hvariables]
      cases declaration.nameAt "id" <;> rfl

/-- What stands in parentheses in a default export is no declaration of a function. -/
theorem unparenthesized_kind_ne (hgrammar : program.Grammatical)
    (hreaches : program.Reaches declaration) (hkind : declaration.kind ≠ "FunctionDeclaration") :
    declaration.unparenthesized.kind ≠ "FunctionDeclaration" := by
  rcases declaration.encloses_unparenthesized.cases_tail with heq | ⟨outer, hsteps, hencloses⟩
  · rwa [heq]
  · obtain ⟨visit, hvisit, rfl⟩ := hreaches.of_encloses hsteps
    exact hgrammar.parenthesized visit hvisit hencloses.kind _ hencloses.child

/-- A default export adds the function that it documents. -/
theorem functions_defaultExport (hgrammar : program.Grammatical)
    (hreaches : program.Reaches statement) (hkind : statement.kind = "ExportDefaultDeclaration")
    (hchild : statement.child "declaration" = some declaration) :
    (entriesOf statement).filterMap Entry.function? =
      (program.documentedBy statement declaration).map (exportOf statement) := by
  have hany : statement.ExportsAny declaration := ⟨.inr hkind, hchild⟩
  have hdeclaration := (hreaches.places_child hchild).reaches
  have hentries : (entriesOf statement).filterMap Entry.function? =
      if declaration.isFunction then [⟨"default", statement.span⟩] else [] := by
    simp only [entriesOf, hkind, holdsFunction, hchild, Option.any_some]
    cases declaration.isFunction <;> rfl
  rw [documentedBy_eq hany, namedFunctions_defaultExport hkind, hentries]
  by_cases hfunction : declaration.kind = "FunctionDeclaration"
  · have hself : declaration.unparenthesized = declaration := by
      rw [unparenthesized, if_neg (by simp [hfunction])]
    have hown : ofDefaultExport statement = [] := by
      simp [ofDefaultExport, hchild, hself, hasKind, hfunction]
    have hnamed : declaration.namedFunctions (some statement) =
        [⟨(declaration.nameAt "id").getD "default", declaration, statement⟩] := by
      simp only [namedFunctions, hfunction, ofDeclaration, anchorOf_eq hany]
      cases declaration.nameAt "id" <;> simp [hasKind, hkind]
    have hholds : declaration.isFunction = true := by
      simp [isFunction, hself, hasKind, functionKinds, hfunction]
    rw [if_pos hholds, if_pos (Or.inl hfunction), hown, hnamed]
    simp [exportOf, hkind]
  · obtain ⟨visit, hvisit, hvisited⟩ := hreaches
    have hvariables := hgrammar.defaultExport visit hvisit (hvisited ▸ hkind) declaration
      (hvisited ▸ hchild)
    have hinner := unparenthesized_kind_ne hgrammar hdeclaration hfunction
    have hexpression : declaration.isFunction =
        declaration.unparenthesized.hasKind ["ArrowFunctionExpression", "FunctionExpression"] := by
      rw [Bool.eq_iff_iff, isExpression_iff, isFunction]
      exact (and_iff_left hinner).symm
    rw [if_neg (not_or.mpr ⟨hfunction, hvariables⟩), List.append_nil, hexpression, ofDefaultExport,
      hchild]
    simp only
    split <;> simp [exportOf, hkind]

end TopLevel

/-! ## Doc comments of exported functions -/

namespace Rule

/-- Where something is reported about a doc comment, there is one. -/
theorem isSome_docBefore_of_docReports {file : SourceFile} {named : NamedFunction}
    (h : docReports file named ≠ []) : (file.docBefore named.anchor.start).isSome = true := by
  by_contra hnone
  rw [Bool.not_eq_true, Option.isSome_eq_false_iff, Option.isNone_iff_eq_none] at hnone
  apply h
  unfold docReports
  simp [hnone]

/-- Where there is a doc comment above an export, none is asked for. -/
theorem reports_exportRequiresJsdoc {context : Context} {visit : Visit}
    (hdoc : (context.file.docBefore visit.node.start).isSome = true) {entry : String × Check}
    (hentry : entry ∈ exportRequiresJsdoc.checks) : (entry.2 context visit).reports = [] := by
  have hnothing (subject : String) :
      undocumentedReports context.file visit.node subject = [] := if_pos hdoc
  simp only [exportRequiresJsdoc, reporting, List.map_cons, List.map_nil, List.cons_append,
    List.nil_append, List.mem_cons, List.not_mem_nil, or_false] at hentry
  rcases hentry with rfl | rfl
  · simp only
    split
    · exact hnothing _
    · rfl
  · simp only [undocumentedDefault]
    split
    · split
      · exact hnothing _
      · rfl
    · rfl

end Rule

namespace TopLevel

open Node

/-- **The exported functions are those that a doc comment above an export documents.** In a program
that the grammar allows, a statement that exports a declaration adds to the exported functions just
those that are found at it or at its declaration and documented above it: in their order, each once,
and under their names, unless it is a default export. So if something is reported about the doc
comment of one of them, no doc comment is asked of the statement. -/
theorem functions_documentedBy {program : Node} (hgrammar : program.Grammatical)
    {before after : List Node} {statement declaration : Node}
    (hbody : program.children "body" = before ++ statement :: after)
    (hexports : statement.ExportsAny declaration) :
    (ofProgram program).functions =
        (ofStatements before).functions ++
          (program.documentedBy statement declaration).map (exportOf statement) ++
          (ofStatements after).functions ∧
      ∀ file : SourceFile,
        (∃ named ∈ program.documentedBy statement declaration, Rule.docReports file named ≠ []) →
        ∀ survey : Survey, ∀ visit : Visit, visit.node = statement →
          ∀ entry ∈ Rule.exportRequiresJsdoc.checks,
            (entry.2 ⟨file, survey⟩ visit).reports = [] := by
  constructor
  · have hprogram : program.Reaches program :=
      ⟨⟨program, none, none⟩, by rw [visits_eq]; exact List.mem_cons_self, rfl⟩
    have hstatement : program.Reaches statement :=
      (hprogram.places_children (hbody ▸ List.mem_append_right _ List.mem_cons_self)).reaches
    have hadded : (entriesOf statement).filterMap Entry.function? =
        (program.documentedBy statement declaration).map (exportOf statement) := by
      rcases hexports.kind with hkind | hkind
      · exact functions_namedExport ⟨hkind, hexports.child⟩
      · exact functions_defaultExport hgrammar hstatement hkind hexports.child
    change (ofStatements (program.children "body")).functions = _
    rw [hbody, functions_ofStatements, functions_ofStatements, functions_ofStatements,
      filterMap_entriesOf_split, hadded]
  · rintro file ⟨named, hnamed, hreports⟩ survey visit rfl entry hentry
    have hanchor : named.anchor = visit.node := by
      simpa using (List.mem_filter.mp hnamed).2
    apply Rule.reports_exportRequiresJsdoc _ hentry
    rw [← hanchor]
    exact Rule.isSome_docBefore_of_docReports hreports

/-- The tree of `/** @param y */ export default (function f(x) {});` after a function that is not
exported. -/
def documentedDefault : Node :=
  ⟨0, "Program", .int 0, .int 0, [("body", .array [
    .atStart 1 "FunctionDeclaration" [("id", .atStart 2 "Identifier" [("name", .text "g")])],
    .object 3 [("type", .text "ExportDefaultDeclaration"),
      ("start", .number (.int 16)), ("end", .number (.int 51)),
      ("declaration", .atStart 4 "ParenthesizedExpression" [
        ("expression", .atStart 5 "FunctionExpression" [
          ("id", .atStart 6 "Identifier" [("name", .text "f")]),
          ("params", .array [.atStart 7 "Identifier" [("name", .text "x")]])])])]])]⟩

/-- The file of this program, with the doc comment. -/
def documentedFile : SourceFile where
  filePath := "src/f.ts"
  traits := Path.classify "src/f.ts"
  runner := none
  granted := []
  units := Text.units "/** @param y */ export default (function f(x) {});".toList
  comments := [⟨.block, "* @param y ", .int 0, .int 15⟩]

/-- The one exported function is found in its parentheses. Its doc comment names another parameter,
and so no doc comment is asked for. -/
theorem functions_documentedBy_default :
    documentedDefault.Grammatical ∧
      ∃ unexported statement declaration,
        documentedDefault.children "body" = [unexported, statement] ∧
        statement.ExportsAny declaration ∧
        (∃ named ∈ documentedDefault.documentedBy statement declaration, named.name = "f" ∧
          Rule.docReports documentedFile named ≠ []) ∧
        (ofProgram documentedDefault).functions.map (·.name) = ["default"] ∧
        ∀ survey : Survey, ∀ entry ∈ Rule.exportRequiresJsdoc.checks,
          (entry.2 ⟨documentedFile, survey⟩
            ⟨statement, some documentedDefault, some "body"⟩).reports = [] := by
  have hgrammar : documentedDefault.Grammatical := ⟨by decide +kernel, by decide +kernel⟩
  obtain ⟨unexported, statement, declaration, hbody, hexports, named, hown, hname, hreports⟩ :
      ∃ unexported statement declaration,
        documentedDefault.children "body" = [unexported, statement] ∧
        statement.ExportsAny declaration ∧
        ∃ named ∈ statement.namedFunctions (some documentedDefault), named.name = "f" ∧
          Rule.docReports documentedFile named ≠ [] := by
    refine ⟨_, _, _, rfl, ⟨.inr rfl, rfl⟩, ?_⟩
    simp only [← List.isEmpty_eq_false_iff]
    decide +kernel
  have hnamed : named ∈ documentedDefault.documentedBy statement declaration := by
    rw [NamedFunction.documentedBy_eq hexports]
    exact List.mem_append_left _ hown
  obtain ⟨-, hdocumented⟩ :=
    @functions_documentedBy _ hgrammar [unexported] [] _ _ hbody hexports
  refine ⟨hgrammar, _, _, _, hbody, hexports, ⟨named, hnamed, hname, hreports⟩, ?_, ?_⟩
  · decide +kernel
  · exact fun survey => hdocumented documentedFile ⟨named, hnamed, hreports⟩ survey _ rfl

end TopLevel

end PureLint
