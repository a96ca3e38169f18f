import PureLint.Proofs.Analysis.Reports
import PureLint.Proofs.Survey.ExportedVariables
import PureLint.Proofs.Survey.Notes

/-!
# Reports on exported variables

One function may be exported and nothing else, so each exported variable that holds no function is
reported, and each exported function but the first. Variables that a pattern binds are exported,
too, but escape the count.
-/

namespace PureLint.AnalysisOptions

open TopLevel

/-- **An exported variable is counted once if its declarator gives it as a plain name, and not at
all if a pattern binds it.** Let a top-level statement export the declaration of variables. Among
the exported functions and the other exported values stand, between those of the statements before
and after it, those of its declarators in their order: each that has a plain name is in one of the
two lists, depending on whether it holds a function, and each that has a pattern is in none,
whatever identifiers this binds. The names of exported declarations are the plain ones. What is
counted is reported, before any directive takes messages away, except for the first exported
function. -/
theorem exportedVariables_counted (o : AnalysisOptions) (program : Node) (comments : List Comment)
    (hnames : (o.rules.map (·.id) ++ o.policies.map (·.id)).Nodup)
    (hrule : Rule.onePublicFunction ∈ o.rules) {before after : List Node}
    {statement declaration : Node} (hbody : program.children "body" = before ++ statement :: after)
    (hexports : statement.ExportsDeclaration declaration)
    (hkind : declaration.kind = "VariableDeclaration") :
    let known := ofProgram program
    let place := statement.span
    known.functions = (ofStatements before).functions ++
        ((declaration.children "declarations").flatMap fun declarator =>
          if declarator.holdsFunction "init" then declarator.exportedAs place else []) ++
        (ofStatements after).functions ∧
      known.others = (ofStatements before).others ++
        ((declaration.children "declarations").flatMap fun declarator =>
          if declarator.holdsFunction "init" then [] else declarator.exportedAs place) ++
        (ofStatements after).others ∧
      (∀ declarator ∈ declaration.children "declarations",
        ∀ identifier ∈ declarator.identifiersAt "id", ∀ name, identifier.name? = some name →
          (declarator.child "id" = some identifier →
            declarator.exportedAs place = [⟨name, place⟩] ∧ name ∈ known.names) ∧
          (declarator.child "id" ≠ some identifier → declarator.exportedAs place = [])) ∧
      (∀ name, name ∈ known.names ↔
        ∃ statement ∈ program.children "body", ExportsName statement name) ∧
      o.messagesOf program comments "one-public-function" =
        known.others.map (fun ⟨name, span⟩ => ⟨"one-public-function",
          s!"Only functions can be exported. Found non-function export: {name}", span⟩) ++
        (known.functions.drop 1).map (fun ⟨name, span⟩ => ⟨"one-public-function",
          s!"Only one function can be exported per file. Found additional export: {name}",
          span⟩) := by
  intro known place
  have hknown : known = ofStatements (before ++ statement :: after) := by
    rw [← hbody]
    rfl
  refine ⟨?_, ?_, ?_, fun name => mem_names_iff, ?_⟩
  · rw [hknown, functions_exportedVariables hexports hkind]
  · rw [hknown, others_exportedVariables hexports hkind]
  · intro declarator hdeclarator identifier hidentifier name hname
    constructor
    · intro hchild
      refine ⟨exportedAs_of_child hchild hname, mem_names_iff.mpr ⟨statement, ?_, ?_⟩⟩
      · rw [hbody]
        exact List.mem_append_right _ List.mem_cons_self
      · refine .bound hexports hkind hdeclarator ?_
        rw [Node.nameAt, hchild]
        exact hname
    · intro hinside
      exact exportedAs_of_inside hidentifier hinside
  · rw [messagesOf_reportingAtEnd hnames hrule, List.map_append, List.map_map, List.map_map,
      Survey.topLevel_run]
    rfl

/-- An analysis by the rule on exports alone. -/
def onlyExports : AnalysisOptions where
  filePath := "src/a.ts"
  source := ""
  traits := Path.classify "src/a.ts"
  rules := [Rule.onePublicFunction]

/-- The tree of `export const limit = 1, parse = (() => 1), { b } = limit;`. -/
def mixedExport : Node :=
  ⟨0, "Program", .int 0, .int 0, [("body", .array [
    .atStart 1 "ExportNamedDeclaration" [("declaration", .atStart 2 "VariableDeclaration" [
      ("declarations", .array [
        .atStart 3 "VariableDeclarator" [
          ("id", .atStart 4 "Identifier" [("name", .text "limit")]),
          ("init", .atStart 5 "Literal" [("value", .number (.int 1))])],
        .atStart 6 "VariableDeclarator" [
          ("id", .atStart 7 "Identifier" [("name", .text "parse")]),
          ("init", .atStart 8 "ParenthesizedExpression" [
            ("expression", .atStart 9 "ArrowFunctionExpression" [])])],
        .atStart 10 "VariableDeclarator" [
          ("id", .atStart 11 "ObjectPattern" [("properties", .array [
            .atStart 12 "Property" [
              ("key", .atStart 13 "Identifier" [("name", .text "b")]),
              ("value", .atStart 14 "Identifier" [("name", .text "b")])]])]),
          ("init", .atStart 15 "Identifier" [("name", .text "limit")])]])])]])]⟩

/-- Of the exported variables, the plain ones are counted, one as a function and one not. -/
theorem exportedVariables_counted_mixedExport :
    let known := ofProgram mixedExport
    (∃ statement declaration, mixedExport.children "body" = [statement] ∧
      statement.ExportsDeclaration declaration ∧ declaration.kind = "VariableDeclaration" ∧
      known.functions = (declaration.children "declarations").flatMap fun declarator =>
        if declarator.holdsFunction "init" then declarator.exportedAs statement.span else []) ∧
      known.functions.map (·.name) = ["parse"] ∧ known.others.map (·.name) = ["limit"] ∧
      known.names = ["limit", "parse"] ∧
      (onlyExports.messagesOf mixedExport [] "one-public-function").map (·.text) =
        ["Only functions can be exported. Found non-function export: limit"] := by
  intro known
  refine ⟨?_, by decide +kernel, by decide +kernel, by decide +kernel, by decide +kernel⟩
  have hnames : (onlyExports.rules.map (·.id) ++ onlyExports.policies.map (·.id)).Nodup := by
    decide
  obtain ⟨hfunctions, -⟩ := @exportedVariables_counted onlyExports mixedExport [] hnames
    List.mem_cons_self [] [] _ _ rfl ⟨rfl, rfl⟩ rfl
  refine ⟨_, _, rfl, ⟨rfl, rfl⟩, rfl, hfunctions.trans ?_⟩
  rw [ofStatements, List.foldl_nil, List.nil_append, List.append_nil]

/-- The tree of `export const { a, b } = config;`. -/
def destructuredExport : Node :=
  ⟨0, "Program", .int 0, .int 0, [("body", .array [
    .atStart 1 "ExportNamedDeclaration" [("declaration", .atStart 2 "VariableDeclaration" [
      ("declarations", .array [.atStart 3 "VariableDeclarator" [
        ("id", .atStart 4 "ObjectPattern" [("properties", .array [
          .atStart 5 "Property" [
            ("key", .atStart 6 "Identifier" [("name", .text "a")]),
            ("value", .atStart 7 "Identifier" [("name", .text "a")])],
          .atStart 8 "Property" [
            ("key", .atStart 9 "Identifier" [("name", .text "b")]),
            ("value", .atStart 10 "Identifier" [("name", .text "b")])]])]),
        ("init", .atStart 11 "Identifier" [("name", .text "config")])]])])]])]⟩

/-- The two variables are exported, but they are neither counted nor named, and not reported. -/
theorem uncounted_destructuredExport :
    (∃ statement ∈ destructuredExport.children "body", ∃ declaration,
      statement.ExportsDeclaration declaration ∧ declaration.kind = "VariableDeclaration" ∧
      ∃ declarator ∈ declaration.children "declarations",
        (declarator.identifiersAt "id").filterMap Node.name? = ["a", "b"]) ∧
      let known := ofProgram destructuredExport
      known.names = [] ∧ known.functions.map (·.name) = [] ∧ known.others.map (·.name) = [] ∧
        (onlyExports.messagesOf destructuredExport [] "one-public-function").map (·.text) = [] := by
  refine ⟨⟨_, List.mem_singleton.mpr rfl, _, ⟨rfl, rfl⟩, rfl, _, List.mem_singleton.mpr rfl, ?_⟩,
    by decide +kernel, by decide +kernel, by decide +kernel, by decide +kernel⟩
  decide +kernel

end PureLint.AnalysisOptions
