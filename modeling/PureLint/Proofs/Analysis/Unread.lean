import PureLint.Proofs.Analysis.Reports
import PureLint.Proofs.Survey.ExportedVariables
import PureLint.Proofs.Survey.Unread

/-!
# Reports on unread names

A name is reported if the file declares or imports it and no identifier anywhere in the file reads
it. Names with an underscore are meant to stay unread, and variables that are exported may be read
elsewhere.
-/

namespace PureLint

namespace Rule

/-- A name is among the unread ones if the table holds it, it is not meant to stay unread, and it is
not read. -/
theorem mem_keys_unread {table : NameTable} {used : List String} {name : String} :
    name ∈ (unread table used).map Prod.fst ↔
      name ∈ table.map Prod.fst ∧ ¬Text.startsWith name "_" = true ∧ name ∉ used := by
  simp [unread]

end Rule

/-- The declared variables of a survey that are not read and not exported. -/
def Survey.unreadVariables (survey : Survey) : NameTable :=
  (Rule.unread survey.names.declared survey.names.used).filter fun (name, _) =>
    !survey.topLevel.names.contains name

/-- What is reported are the declared variables that are not read and not exported. -/
theorem Rule.unusedVariableReports_eq (survey : Survey) :
    ((unread survey.names.declared survey.names.used).filterMap fun (name, span) =>
      if survey.topLevel.names.contains name then none
      else some (⟨span, s!"Variable '{name}' is declared but never used"⟩ : Report)) =
    survey.unreadVariables.map fun (name, span) =>
      ⟨span, s!"Variable '{name}' is declared but never used"⟩ :=
  filterMap_unless (fun entry => survey.topLevel.names.contains entry.1) _
    (unread survey.names.declared survey.names.used)

/-- The unread variables of a program are those that some node declares, unless they are meant to
stay unread, read anywhere, or exported. -/
theorem Survey.mem_keys_unreadVariables {program : Node} {name : String} :
    name ∈ ((Survey.ofProgram program).run program.events).unreadVariables.map Prod.fst ↔
      (∃ visit ∈ program.visits, ∃ declared, (name, declared) ∈ visit.node.declarations) ∧
        ¬Text.startsWith name "_" = true ∧ ¬program.Reads name ∧
          ∀ statement ∈ program.children "body", ¬TopLevel.ExportsName statement name := by
  let survey := (Survey.ofProgram program).run program.events
  have hdeclared : name ∈ survey.names.declared.map Prod.fst ↔
      ∃ visit ∈ program.visits, ∃ declared, (name, declared) ∈ visit.node.declarations := by
    rw [declared_eq_collect, NameTable.mem_keys_collect Names.keys_putNew]
    simp only [List.mem_flatMap, List.mem_singleton, Prod.exists]
    constructor
    · rintro ⟨_, declared, ⟨visit, hvisit, hdeclared⟩, rfl⟩
      exact ⟨visit, hvisit, declared, hdeclared⟩
    · rintro ⟨visit, hvisit, declared, hdeclared⟩
      exact ⟨_, declared, ⟨visit, hvisit, hdeclared⟩, rfl⟩
  have hexported : name ∈ survey.topLevel.names ↔
      ∃ statement ∈ program.children "body", TopLevel.ExportsName statement name := by
    rw [topLevel_run]
    exact TopLevel.mem_names_iff
  have hunread : name ∈ survey.unreadVariables.map Prod.fst ↔
      name ∈ (Rule.unread survey.names.declared survey.names.used).map Prod.fst ∧
        name ∉ survey.topLevel.names := by
    simp [unreadVariables]
  rw [hunread, Rule.mem_keys_unread, hdeclared, mem_used_iff, hexported]
  simp only [not_exists, not_and, and_assoc]

namespace AnalysisOptions

variable {o : AnalysisOptions} (program : Node) (comments : List Comment)
  (hnames : (o.rules.map (·.id) ++ o.policies.map (·.id)).Nodup)

include hnames

/-- An import is reported if no identifier anywhere in the file reads it, at its last import
declaration. -/
theorem messagesOf_noUnusedImports (hrule : Rule.noUnusedImports ∈ o.rules) :
    ∃ unread : NameTable,
      o.messagesOf program comments "no-unused-imports" =
        unread.map (fun (name, span) => ⟨"no-unused-imports",
          s!"Import '{name}' is declared but never used", span⟩) ∧
      unread.Lists
        (fun name => (∃ visit ∈ program.visits, name ∈ visit.node.importedNames) ∧
          ¬Text.startsWith name "_" = true ∧ ¬program.Reads name)
        (fun name span => ∃ visit,
          IsLast program.visits (fun visit => name ∈ visit.node.importedNames) visit ∧
            span = visit.node.span) := by
  let survey := (Survey.ofProgram program).run program.events
  have himported : survey.names.imported = _ := Survey.imported_eq_collect program
  refine ⟨Rule.unread survey.names.imported survey.names.used, ?_, ?_, ?_, ?_⟩
  · rw [messagesOf_reportingAtEnd hnames hrule, List.map_map]
    rfl
  · rw [himported]
    exact (NameTable.nodup_keys_collect Names.keys_put).sublist (List.filter_sublist.map _)
  · intro name
    rw [Rule.mem_keys_unread, himported, NameTable.mem_keys_collect Names.keys_put,
      Survey.mem_used_iff]
  · intro name span hmem
    have hentry := (List.mem_filter.mp hmem).1
    rwa [himported, NameTable.mem_collect_put] at hentry

/-- A variable is reported if no identifier anywhere in the file reads it and it is not exported, at
the first place where it is declared. -/
theorem messagesOf_noUnusedVariables (hrule : Rule.noUnusedVariables ∈ o.rules) :
    ∃ unread : NameTable,
      o.messagesOf program comments "no-unused-variables" =
        unread.map (fun (name, span) => ⟨"no-unused-variables",
          s!"Variable '{name}' is declared but never used", span⟩) ∧
      unread.Lists
        (fun name =>
          (∃ visit ∈ program.visits, ∃ declared, (name, declared) ∈ visit.node.declarations) ∧
            ¬Text.startsWith name "_" = true ∧ ¬program.Reads name ∧
              ∀ statement ∈ program.children "body", ¬TopLevel.ExportsName statement name)
        (fun name span => ∃ declaration,
          IsFirst (program.visits.flatMap fun visit => visit.node.declarations) (·.1 = name)
            declaration ∧ span = declaration.2.span) := by
  let survey := (Survey.ofProgram program).run program.events
  have hdeclared : survey.names.declared = _ := Survey.declared_eq_collect program
  refine ⟨survey.unreadVariables, ?_, ?_, fun name => Survey.mem_keys_unreadVariables, ?_⟩
  · rw [messagesOf_reportingAtEnd hnames hrule, Rule.unusedVariableReports_eq, List.map_map]
    rfl
  · have hsublist : survey.unreadVariables.Sublist survey.names.declared :=
      List.filter_sublist.trans List.filter_sublist
    rw [hdeclared] at hsublist
    exact (NameTable.nodup_keys_collect Names.keys_putNew).sublist (hsublist.map _)
  · intro name span hmem
    have hentry := (List.mem_filter.mp (List.mem_filter.mp hmem).1).1
    rw [hdeclared, NameTable.mem_collect_putNew] at hentry
    simpa only [List.mem_singleton, eq_comm] using hentry

omit hnames

/-- **Names that are never read are reported, whatever comes first in the file.** Before any
directive takes messages away, the imports that are reported are those that some import declaration
brings in, that do not start with an underscore and that no identifier anywhere in the tree reads,
each once and at its last import declaration. A variable is reported at most once, and only if a
declarator gives it as its plain name, or it is a parameter of a function other than an arrow
function, if it does not start with an underscore, is not read anywhere, and is not the name under
which a statement exports what it declares. All these are reported that no statement binds by what
it exports. The place is that of the first declaration of the name, where all parameters of a
function stand, in their order, at the entry of the function. -/
theorem messagesOf_unread (o : AnalysisOptions) (program : Node) (comments : List Comment)
    (hnames : (o.rules.map (·.id) ++ o.policies.map (·.id)).Nodup)
    (himports : Rule.noUnusedImports ∈ o.rules) (hvariables : Rule.noUnusedVariables ∈ o.rules) :
    (∃ unread : NameTable,
      o.messagesOf program comments "no-unused-imports" =
        unread.map (fun (name, span) => ⟨"no-unused-imports",
          s!"Import '{name}' is declared but never used", span⟩) ∧
      unread.Lists
        (fun name => (∃ visit ∈ program.visits, name ∈ visit.node.importedNames) ∧
          ¬Text.startsWith name "_" = true ∧ ¬program.Reads name)
        (fun name span => ∃ visit,
          IsLast program.visits (fun visit => name ∈ visit.node.importedNames) visit ∧
            span = visit.node.span)) ∧
    ∃ unread : NameTable,
      o.messagesOf program comments "no-unused-variables" =
        unread.map (fun (name, span) => ⟨"no-unused-variables",
          s!"Variable '{name}' is declared but never used", span⟩) ∧
      (unread.map Prod.fst).Nodup ∧
      (∀ name ∈ unread.map Prod.fst,
        (∃ visit ∈ program.visits, ∃ declared, (name, declared) ∈ visit.node.declarations) ∧
          ¬Text.startsWith name "_" = true ∧ ¬program.Reads name ∧
            ∀ statement ∈ program.children "body", ¬TopLevel.ExportsName statement name) ∧
      (∀ name,
        (∃ visit ∈ program.visits, ∃ declared, (name, declared) ∈ visit.node.declarations) →
          ¬Text.startsWith name "_" = true → ¬program.Reads name →
            (∀ statement ∈ program.children "body", ¬TopLevel.BindsExport statement name) →
              name ∈ unread.map Prod.fst) ∧
      (∀ name span, (name, span) ∈ unread → ∃ declaration,
        IsFirst (program.visits.flatMap fun visit => visit.node.declarations) (·.1 = name)
          declaration ∧ span = declaration.2.span) := by
  obtain ⟨unread, hmessages, hlists⟩ :=
    messagesOf_noUnusedVariables program comments hnames hvariables
  refine ⟨messagesOf_noUnusedImports program comments hnames himports, unread, hmessages,
    hlists.nodup, ?_, ?_, hlists.placed⟩
  · intro name
    exact (hlists.mem_iff name).mp
  · intro name hdeclares hplain hread hexports
    refine (hlists.mem_iff name).mpr ⟨hdeclares, hplain, hread, ?_⟩
    intro statement hstatement h
    exact hexports statement hstatement h.bindsExport

/-- An analysis by the two rules on unread names. -/
def onlyUnread : AnalysisOptions where
  filePath := "src/a.ts"
  source := ""
  traits := Path.classify "src/a.ts"
  rules := [Rule.noUnusedVariables, Rule.noUnusedImports]

/-- The tree of `function f(p, _q) { return b; } import { a, b } from "x";`. -/
def importedBelow : Node :=
  ⟨0, "Program", .int 0, .int 0, [("body", .array [
    .atStart 1 "FunctionDeclaration" [
      ("id", .atStart 2 "Identifier" [("name", .text "f")]),
      ("params", .array [.atStart 3 "Identifier" [("name", .text "p")],
        .atStart 4 "Identifier" [("name", .text "_q")]]),
      ("body", .atStart 5 "BlockStatement" [("body", .array [
        .atStart 6 "ReturnStatement" [
          ("argument", .atStart 7 "Identifier" [("name", .text "b")])]])])],
    .atStart 8 "ImportDeclaration" [
      ("specifiers", .array [
        .atStart 9 "ImportSpecifier" [
          ("imported", .atStart 10 "Identifier" [("name", .text "a")]),
          ("local", .atStart 11 "Identifier" [("name", .text "a")])],
        .atStart 12 "ImportSpecifier" [
          ("imported", .atStart 13 "Identifier" [("name", .text "b")]),
          ("local", .atStart 14 "Identifier" [("name", .text "b")])]]),
      ("source", .atStart 15 "Literal" [("value", .text "x")])]])]⟩

/-- The parameter and the import that are not read are reported, and the import that is read before
it is brought in is not. -/
theorem messagesOf_unread_importedBelow :
    (∃ unread : NameTable,
      onlyUnread.messagesOf importedBelow [] "no-unused-imports" =
        unread.map (fun (name, span) => ⟨"no-unused-imports",
          s!"Import '{name}' is declared but never used", span⟩) ∧
      unread.Lists
        (fun name => (∃ visit ∈ importedBelow.visits, name ∈ visit.node.importedNames) ∧
          ¬Text.startsWith name "_" = true ∧ ¬importedBelow.Reads name)
        (fun name span => ∃ visit,
          IsLast importedBelow.visits (fun visit => name ∈ visit.node.importedNames) visit ∧
            span = visit.node.span)) ∧
      (onlyUnread.messagesOf importedBelow [] "no-unused-imports").map (·.text) =
        ["Import 'a' is declared but never used"] ∧
      (onlyUnread.messagesOf importedBelow [] "no-unused-variables").map (·.text) =
        ["Variable 'p' is declared but never used"] := by
  have hnames : (onlyUnread.rules.map (·.id) ++ onlyUnread.policies.map (·.id)).Nodup := by decide
  obtain ⟨himports, -⟩ := messagesOf_unread onlyUnread importedBelow [] hnames
    (List.mem_cons_of_mem _ List.mem_cons_self) List.mem_cons_self
  exact ⟨himports, by decide +kernel, by decide +kernel⟩

/-- The tree of `function f(a = () => { const b = 1; }, b) { return a; }`. -/
def declaredInDefault : Node :=
  ⟨0, "Program", .int 0, .int 54, [("body", .array [
    .atStart 1 "FunctionDeclaration" [
      ("id", .atStart 2 "Identifier" [("name", .text "f")]),
      ("params", .array [
        .atStart 3 "AssignmentPattern" [
          ("left", .atStart 4 "Identifier" [("name", .text "a")]),
          ("right", .atStart 5 "ArrowFunctionExpression" [
            ("params", .array []),
            ("body", .atStart 6 "BlockStatement" [("body", .array [
              .atStart 7 "VariableDeclaration" [("declarations", .array [
                .object 8 [("type", .text "VariableDeclarator"), ("start", .number (.int 29)),
                  ("end", .number (.int 34)),
                  ("id", .atStart 9 "Identifier" [("name", .text "b")]),
                  ("init", .atStart 10 "Literal" [("value", .number (.int 1))])]])]])])])],
        .object 11 [("type", .text "Identifier"), ("start", .number (.int 39)),
          ("end", .number (.int 40)), ("name", .text "b")]]),
      ("body", .atStart 12 "BlockStatement" [("body", .array [
        .atStart 13 "ReturnStatement" [
          ("argument", .atStart 14 "Identifier" [("name", .text "a")])]])])]])]⟩

/-- The first visit to a declarator or parameter of the name is that to the declarator inside the
default, but the name is reported only at the parameter, which starts after it. -/
theorem messagesOf_unread_declaredInDefault :
    let first := declaredInDefault.visits.find? fun visit =>
      visit.node.kind == "VariableDeclarator" && visit.node.nameAt "id" == some "b" ||
        visit.node.parameterName == some "b" && declaredInDefault.visits.any fun fn =>
          fn.node.hasKind ["FunctionDeclaration", "FunctionExpression"] &&
            (fn.node.children "params").any visit.node.same
    let messages := onlyUnread.messagesOf declaredInDefault [] "no-unused-variables"
    first.map (fun visit => visit.node.kind) = some "VariableDeclarator" ∧
      messages.map (·.text) = ["Variable 'b' is declared but never used"] ∧
      (first.any fun visit => messages.all fun m => visit.node.start.lt m.span.start) = true := by
  decide +kernel

end AnalysisOptions

end PureLint
