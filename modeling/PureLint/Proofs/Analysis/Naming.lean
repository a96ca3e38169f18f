import PureLint.Proofs.Analysis.Reports
import PureLint.Proofs.Survey.Reference
import PureLint.Proofs.Tree.Naming

/-!
# Reports on named functions

The rules on the parameters of functions report what they find once for each name that a function
goes by. Most functions go by one name at most, but an expression that stands in parentheses where
it is held goes by the name it is held under and by its own.
-/

namespace PureLint

namespace AnalysisOptions

variable {o : AnalysisOptions} {program : Node} {comments : List Comment}

/-- A rule that only reports on named functions reports what it finds on each naming. -/
theorem messagesOf_onNamed {id description : String}
    (hnames : (o.rules.map (·.id) ++ o.policies.map (·.id)).Nodup)
    (find : SourceFile → NamedFunction → List Report)
    (hrule : ({ id, description, checks := reporting NamedFunction.kinds (fun context visit =>
      (visit.node.namedFunctions visit.parent).flatMap (find context.file)) } : Rule) ∈ o.rules) :
    o.messagesOf program comments id =
      (program.namings.flatMap (find (o.file comments))).map (Report.messageOf id) := by
  have hvisits : program.visits =
      ((Survey.ofProgram program).stages program.events).map Prod.fst :=
    (Survey.stages_fst _ _).symm
  rw [messagesOf_reporting hnames (by decide) (by decide) hrule, Node.namings, hvisits,
    List.flatMap_map, List.flatMap_assoc]
  congr 1
  apply List.flatMap_congr
  rintro ⟨visit, survey⟩ -
  split
  · rfl
  · rename_i hkind
    rw [NamedFunction.namedFunctions_eq_nil hkind]
    rfl

/-- **The rules on parameters report on a function once for each of its two names.** The one is that
under which a declaration of variables or a default export holds it, the other that by which it
names itself, and a function may have one, both or none of them. An expression that has both stands
directly in parentheses, where its holder has declarators as its declarations. -/
theorem functions_named (o : AnalysisOptions) (program : Node) (comments : List Comment)
    (hnames : (o.rules.map (·.id) ++ o.policies.map (·.id)).Nodup)
    (hdoc : Rule.jsdocParamMatch ∈ o.rules) (htypes : Rule.paramMissingType ∈ o.rules)
    (hroot : program.Distinct) :
    o.messagesOf program comments "jsdoc-param-match" =
        (program.namings.flatMap (Rule.docReports (o.file comments))).map
          (Report.messageOf "jsdoc-param-match") ∧
      o.messagesOf program comments "param-missing-type" =
        (program.namings.flatMap fun named =>
          (named.fn.children "params").filterMap (Rule.untypedParameter? named)).map
            (Report.messageOf "param-missing-type") ∧
      (∀ named ∈ program.namings, ∃ visit ∈ program.visits,
        visit.node = named.fn ∧ visit.node.hasKind Node.functionKinds = true) ∧
      (∀ visit ∈ program.visits, visit.node.hasKind Node.functionKinds = true →
        ∃ held own : Option String,
          ((program.namings.filter fun named => named.fn.same visit.node).map (·.name)).Perm
            (held.toList ++ own.toList) ∧
          (∀ name, held = some name ↔
            ∃ holder, program.Reaches holder ∧ holder.HoldsAs visit.node name) ∧
          ∀ name, own = some name ↔ visit.NamesItself name) ∧
      ∀ visit ∈ program.visits, visit.node.kind = "FunctionExpression" →
        ∀ holder, program.Reaches holder → ∀ held own : String,
          holder.HoldsAs visit.node held → visit.NamesItself own →
            (∃ outer, visit.parent = some outer ∧ Node.Encloses outer visit.node) ∨
              ∃ declarator ∈ holder.children "declarations",
                declarator.kind ≠ "VariableDeclarator" := by
  refine ⟨?_, ?_, fun named => Node.exists_visit_of_mem_namings, ?_, ?_⟩
  · exact messagesOf_onNamed hnames Rule.docReports hdoc
  · exact messagesOf_onNamed hnames
      (fun _ named => (named.fn.children "params").filterMap (Rule.untypedParameter? named)) htypes
  · intro visit hvisit hfn
    exact hroot.namings_function hvisit hfn
  · intro visit hvisit hkind holder hholder held own hheld hown
    exact hheld.encloses hroot hholder hvisit hkind hown

/-- An analysis by the two rules on parameters. -/
def onlyParameters : AnalysisOptions where
  filePath := "src/a.ts"
  source := ""
  traits := Path.classify "src/a.ts"
  rules := [Rule.jsdocParamMatch, Rule.paramMissingType]

/-- The tree of `const f = function g(x) {}; (function h(y) {});`. -/
def heldDirectly : Node :=
  ⟨0, "Program", .int 0, .int 0, [("body", .array [
    .atStart 1 "VariableDeclaration" [("declarations", .array [
      .atStart 2 "VariableDeclarator" [
        ("id", .atStart 3 "Identifier" [("name", .text "f")]),
        ("init", .atStart 4 "FunctionExpression" [
          ("id", .atStart 5 "Identifier" [("name", .text "g")]),
          ("params", .array [.atStart 6 "Identifier" [("name", .text "x")]])])]])],
    .atStart 7 "ExpressionStatement" [
      ("expression", .atStart 8 "ParenthesizedExpression" [
        ("expression", .atStart 9 "FunctionExpression" [
          ("id", .atStart 10 "Identifier" [("name", .text "h")]),
          ("params", .array [.atStart 11 "Identifier" [("name", .text "y")]])])])]])]⟩

/-- The function that is held directly goes by the name of the variable, and the one that nothing
holds by its own. -/
theorem functions_named_heldDirectly :
    heldDirectly.Distinct ∧
      (∀ visit ∈ heldDirectly.visits, visit.node.hasKind Node.functionKinds = true →
        ∃ held own : Option String,
          ((heldDirectly.namings.filter fun named => named.fn.same visit.node).map (·.name)).Perm
            (held.toList ++ own.toList) ∧
          (∀ name, held = some name ↔
            ∃ holder, heldDirectly.Reaches holder ∧ holder.HoldsAs visit.node name) ∧
          ∀ name, own = some name ↔ visit.NamesItself name) ∧
      (onlyParameters.messagesOf heldDirectly [] "param-missing-type").map (·.text) =
        ["Parameter 'x' in function 'f' must have a type",
          "Parameter 'y' in function 'h' must have a type"] := by
  have hnames : (onlyParameters.rules.map (·.id) ++ onlyParameters.policies.map (·.id)).Nodup := by
    decide
  have hroot : heldDirectly.Distinct := by decide +kernel
  obtain ⟨-, -, -, hnamings, -⟩ := functions_named onlyParameters heldDirectly [] hnames
    List.mem_cons_self (List.mem_cons_of_mem _ List.mem_cons_self) hroot
  exact ⟨hroot, hnamings, by decide +kernel⟩

/-- The tree of `const f = (function g(x) {});`. -/
def heldInParentheses : Node :=
  ⟨0, "Program", .int 0, .int 0, [("body", .array [
    .atStart 1 "VariableDeclaration" [("declarations", .array [
      .atStart 2 "VariableDeclarator" [
        ("id", .atStart 3 "Identifier" [("name", .text "f")]),
        ("init", .atStart 4 "ParenthesizedExpression" [
          ("expression", .atStart 5 "FunctionExpression" [
            ("id", .atStart 6 "Identifier" [("name", .text "g")]),
            ("params", .array [.atStart 7 "Identifier" [("name", .text "x")]])])])]])]])]⟩

/-- The one function is named by the declaration and by itself, and its parameter is reported under
both names. -/
theorem named_twice_heldInParentheses :
    heldInParentheses.Distinct ∧
      (∃ visit ∈ heldInParentheses.visits, visit.node.kind = "FunctionExpression" ∧
        (heldInParentheses.namings.filter fun named => named.fn.same visit.node).map (·.name) =
          ["f", "g"]) ∧
      (onlyParameters.messagesOf heldInParentheses [] "param-missing-type").map (·.text) =
        ["Parameter 'x' in function 'f' must have a type",
          "Parameter 'x' in function 'g' must have a type"] := by
  decide +kernel

end AnalysisOptions

end PureLint
