import PureLint.Proofs.Analysis.Arrays
import PureLint.Proofs.Survey.Reference
import PureLint.Proofs.Tree.Callee

/-!
# Side effects at the top level

In a file other than a test, each statement at the top level is reported once or not at all. Which
are reported is decided by the statement and by the expression that it directly holds: neither
parentheses nor an optional chain around a call, an assignment, an update or a `new` are looked
through. What a call calls and the test of a condition are seen through parentheses.
-/

namespace PureLint

namespace Node

/-- A literal whose value is a truth value. -/
structure IsBooleanLiteral (n : Node) : Prop where
  kind : n.kind = "Literal"
  value : ∃ b, n.fields.lookup "value" = some (.bool b)

/-- The calls at the top level that are allowed: of a function where it is written, of `main` in a
main entry, and those that register tests with the file's test runner. -/
inductive RunsAtLoad (call : Node) (file : SourceFile) : Prop
  | written {fn : Node} : call.Calls fn → fn.kind ∈ functionKinds → RunsAtLoad call file
  | main {target : Node} :
    file.traits.isMainEntry = true → call.Calls target → target.name? = some "main" →
      RunsAtLoad call file
  | registration {runner : TestRunner} {name : String} :
    file.runner = some runner → call.CallsName name → name ∈ runner.registrations →
      RunsAtLoad call file

/-- The side effects of an expression, as messages call them. -/
inductive ExpressionEffect (expression : Node) (file : SourceFile) : String → Prop
  | call : expression.kind = "CallExpression" → ¬expression.RunsAtLoad file →
      ExpressionEffect expression file "function calls"
  | assignment : expression.kind = "AssignmentExpression" →
      ExpressionEffect expression file "assignments"
  | update : expression.kind = "UpdateExpression" →
      ExpressionEffect expression file "update expressions"
  | new : expression.kind = "NewExpression" → ExpressionEffect expression file "new expressions"

/-- The side effects of a statement, as messages call them. -/
inductive StatementEffect (statement : Node) (file : SourceFile) : String → Prop
  | expression {expression : Node} {effect : String} :
    statement.kind = "ExpressionStatement" → statement.child "expression" = some expression →
      expression.ExpressionEffect file effect → StatementEffect statement file effect
  | loop : statement.kind ∈ Rule.loopKinds → StatementEffect statement file "loops"
  | condition :
    statement.kind = "IfStatement" →
      (∀ test literal, statement.child "test" = some test →
        Relation.ReflTransGen Encloses test literal → ¬literal.IsBooleanLiteral) →
      StatementEffect statement file "if statements"

/-- Parentheses or an optional chain, and the expression directly in them. -/
structure Wraps (outer inner : Node) : Prop where
  kind : outer.kind = "ParenthesizedExpression" ∨ outer.kind = "ChainExpression"
  child : outer.child "expression" = some inner

variable {n : Node} {file : SourceFile} {effect : String}

/-- A truth value seen through parentheses is that of a literal that they lead to. -/
theorem isSome_truth?_iff :
    n.truth?.isSome = true ↔
      ∃ literal, Relation.ReflTransGen Encloses n literal ∧ literal.IsBooleanLiteral := by
  have hkind (m : Node) (h : m.IsBooleanLiteral) : m.kind ≠ "ParenthesizedExpression" := by
    rw [h.kind]
    decide
  rw [← holds_unparenthesized_iff hkind, truth?]
  constructor
  · intro h
    split at h
    · rename_i hliteral
      split at h
      · rename_i b hvalue
        exact ⟨hliteral, b, hvalue⟩
      · cases h
    · cases h
  · rintro ⟨hliteral, b, hvalue⟩
    simp [hliteral, hvalue]

/-- A function seen through parentheses is one that they lead to. -/
theorem isFunction_iff :
    n.isFunction = true ↔
      ∃ fn, Relation.ReflTransGen Encloses n fn ∧ fn.kind ∈ functionKinds := by
  have hkind (m : Node) (h : m.kind ∈ functionKinds) : m.kind ≠ "ParenthesizedExpression" := by
    rintro heq
    rw [heq] at h
    revert h
    decide
  rw [← holds_unparenthesized_iff hkind, isFunction, hasKind, List.contains_iff_mem]

end Node

namespace Rule

variable {file : SourceFile} {call expression statement : Node} {effect : String}

/-- A call is let through where it is one of those allowed. -/
theorem mayRunAtLoad_iff : mayRunAtLoad file call = true ↔ call.RunsAtLoad file := by
  rw [mayRunAtLoad, Bool.or_eq_true, Bool.or_eq_true, Bool.and_eq_true, beq_iff_eq,
    Node.calleeName_eq_some_iff, Option.any_eq_true, Option.any_eq_true]
  simp only [Node.isFunction_iff, TestRunner.isRegistration, Option.any_eq_true,
    TestRunner.calledName_eq_some_iff, List.contains_iff_mem]
  constructor
  · rintro ((⟨callee, hcallee, fn, hsteps, hfn⟩ | ⟨hentry, target, htarget, hname⟩) |
      ⟨runner, hrunner, name, hname, hregisters⟩)
    · exact .written ⟨callee, hcallee, hsteps⟩ hfn
    · exact .main hentry htarget hname
    · exact .registration hrunner hname hregisters
  · rintro (⟨⟨callee, hcallee, hsteps⟩, hfn⟩ | ⟨hentry, htarget, hname⟩ |
      ⟨hrunner, hname, hregisters⟩)
    · exact Or.inl (Or.inl ⟨callee, hcallee, _, hsteps, hfn⟩)
    · exact Or.inl (Or.inr ⟨hentry, _, htarget, hname⟩)
    · exact Or.inr ⟨_, hrunner, _, hname, hregisters⟩

/-- An expression is told to have the effects that it has. -/
theorem expressionEffect?_eq_some_iff :
    expressionEffect? file expression = some effect ↔ expression.ExpressionEffect file effect := by
  constructor
  · intro h
    unfold expressionEffect? at h
    split at h
    · rename_i hkind
      rw [Option.ite_none_left_eq_some, mayRunAtLoad_iff] at h
      cases h.2
      exact .call hkind h.1
    · rename_i hkind
      cases h
      exact .assignment hkind
    · rename_i hkind
      cases h
      exact .update hkind
    · rename_i hkind
      cases h
      exact .new hkind
    · cases h
  · rintro (⟨hkind, hbanned⟩ | hkind | hkind | hkind)
    · rw [← mayRunAtLoad_iff] at hbanned
      simp [expressionEffect?, hkind, hbanned]
    all_goals simp [expressionEffect?, hkind]

/-- The test of a condition has no truth value where no literal is seen through its parentheses. -/
theorem isNone_truth?_test_iff :
    ((statement.child "test").bind Node.truth?).isSome = false ↔
      ∀ test literal, statement.child "test" = some test →
        Relation.ReflTransGen Node.Encloses test literal → ¬literal.IsBooleanLiteral := by
  cases statement.child "test" with
  | none => simp
  | some test =>
    rw [Option.bind_some, ← Bool.not_eq_true, Node.isSome_truth?_iff, not_exists]
    simp only [not_and]
    constructor
    · rintro h _ literal ⟨⟩ hsteps
      exact h literal hsteps
    · intro h literal hsteps
      exact h test literal rfl hsteps

/-- A statement is told to have the effects that it has. -/
theorem statementEffect?_eq_some_iff :
    statementEffect? file statement = some effect ↔ statement.StatementEffect file effect := by
  constructor
  · intro h
    unfold statementEffect? at h
    split at h
    · rename_i hkind
      obtain ⟨expression, hexpression, heffect⟩ := Option.bind_eq_some_iff.mp h
      exact .expression hkind hexpression (expressionEffect?_eq_some_iff.mp heffect)
    · split at h
      · rename_i hloop
        cases h
        exact .loop (List.contains_iff_mem.mp hloop)
      · split at h
        · rename_i hkind
          split at h
          · cases h
          · rename_i htest
            cases h
            exact .condition hkind (isNone_truth?_test_iff.mp (Bool.eq_false_iff.mpr htest))
        · cases h
  · rintro (⟨hkind, hexpression, heffect⟩ | hloop | ⟨hkind, htest⟩)
    · rw [← expressionEffect?_eq_some_iff] at heffect
      simp [statementEffect?, hkind, hexpression, heffect]
    · have hkind : statement.kind ≠ "ExpressionStatement" := by
        intro heq
        rw [heq] at hloop
        revert hloop
        decide
      rw [statementEffect?, if_neg hkind, if_pos (List.contains_iff_mem.mpr hloop)]
    · have hother : ¬loopKinds.contains statement.kind = true := by
        rw [hkind]
        decide
      rw [← isNone_truth?_test_iff] at htest
      rw [statementEffect?, if_neg (by simp [hkind]), if_neg hother, if_pos hkind, htest]
      rfl

/-- A statement has no side effect whose expression stands in parentheses or an optional chain,
whatever is in them. -/
theorem statementEffect?_eq_none_of_wraps {wrapper inner : Node}
    (hkind : statement.kind = "ExpressionStatement")
    (hwrapper : statement.child "expression" = some wrapper) (h : wrapper.Wraps inner) :
    statementEffect? file statement = none := by
  rw [statementEffect?, if_pos hkind, hwrapper, Option.bind_some, expressionEffect?]
  rcases h.kind with hwraps | hwraps <;> simp [hwraps]

end Rule

namespace AnalysisOptions

/-- **Before any directive takes one away, a file other than a test has one report for each
statement at the top level that has a side effect, at the statement, and no other. A statement whose
expression stands in parentheses or an optional chain has none, whatever is in them and however many
these are. A test has no report.** -/
theorem messagesOf_noTopLevelSideEffects (o : AnalysisOptions) (program : Node)
    (comments : List Comment) (hnames : (o.rules.map (·.id) ++ o.policies.map (·.id)).Nodup)
    (hrule : Rule.noTopLevelSideEffects ∈ o.rules) :
    let told := Rule.statementEffect? (o.file comments)
    (o.traits.isTest = false →
      o.messagesOf program comments "no-top-level-side-effects" =
        (program.visits.filter fun visit => visit.node.kind = "Program").flatMap fun visit =>
          (visit.node.children "body").filterMap fun statement =>
            (told statement).map fun effect => ⟨"no-top-level-side-effects",
              s!"Top-level {effect} are not allowed (side effects)", statement.span⟩) ∧
      (o.traits.isTest = true →
        o.messagesOf program comments "no-top-level-side-effects" = []) ∧
      (∀ statement effect, told statement = some effect ↔
        statement.StatementEffect (o.file comments) effect) ∧
      ∀ statement wrapper inner, statement.kind = "ExpressionStatement" →
        statement.child "expression" = some wrapper →
          Relation.TransGen Node.Wraps wrapper inner → told statement = none := by
  intro told
  have hmessages : o.messagesOf program comments "no-top-level-side-effects" = _ :=
    messagesOf_reporting hnames (List.nodup_singleton _) (by decide) hrule
  have htraits : (o.file comments).traits = o.traits := rfl
  refine ⟨?_, ?_, fun _ _ => Rule.statementEffect?_eq_some_iff, ?_⟩
  · intro htest
    have hvisits : program.visits =
        ((Survey.ofProgram program).stages program.events).map Prod.fst :=
      (Survey.stages_fst _ _).symm
    rw [hmessages, hvisits, List.filter_map, List.flatMap_map, flatMap_filter,
      List.map_flatMap]
    apply List.flatMap_congr
    intro stage hstage
    simp only [Function.comp_apply, List.mem_singleton, htraits, htest]
    by_cases hkind : stage.1.node.kind = "Program"
    · simp only [hkind, if_true, decide_true, Bool.false_eq_true, if_false, List.map_filterMap,
        Option.map_map]
      rfl
    · simp [hkind]
  · intro htest
    rw [hmessages]
    simp [htraits, htest]
  · intro statement wrapper inner hkind hwrapper hwraps
    obtain ⟨next, hnext, -⟩ := Relation.TransGen.head'_iff.mp hwraps
    exact Rule.statementEffect?_eq_none_of_wraps hkind hwrapper hnext

/-- The tree of `(run)(); (() => {})(); for (;;) {} if ((true)) {} if (on) {}`, without the empty
blocks. -/
def loadEffects : Node :=
  ⟨0, "Program", .int 0, .int 0, [("body", .array [
    .atStart 1 "ExpressionStatement" [("expression", .atStart 2 "CallExpression" [
      ("callee", .atStart 3 "ParenthesizedExpression" [
        ("expression", .atStart 4 "Identifier" [("name", .text "run")])])])],
    .atStart 5 "ExpressionStatement" [("expression", .atStart 6 "CallExpression" [
      ("callee", .atStart 7 "ParenthesizedExpression" [
        ("expression", .atStart 8 "ArrowFunctionExpression" [])])])],
    .atStart 9 "ForStatement" [],
    .atStart 10 "IfStatement" [("test", .atStart 11 "ParenthesizedExpression" [
      ("expression", .atStart 12 "Literal" [("value", .bool true)])])],
    .atStart 13 "IfStatement" [("test", .atStart 14 "Identifier" [("name", .text "on")])]])]⟩

/-- The call of a function where it is written and the condition that is a literal are not
reported. -/
theorem messagesOf_noTopLevelSideEffects_loadEffects :
    (allRules.messagesOf loadEffects [] "no-top-level-side-effects").map (·.text) =
      ["Top-level function calls are not allowed (side effects)",
        "Top-level loops are not allowed (side effects)",
        "Top-level if statements are not allowed (side effects)"] := by
  have hrule : Rule.noTopLevelSideEffects ∈ allRules.rules := by simp [allRules, Rule.all]
  have htest : allRules.traits.isTest = false := by decide +kernel
  rw [(messagesOf_noTopLevelSideEffects allRules loadEffects [] nodup_names_allRules hrule).1 htest]
  decide +kernel

/-- The tree of `run?.()`. -/
def optionalCall : Node :=
  ⟨0, "Program", .int 0, .int 0, [("body", .array [
    .atStart 1 "ExpressionStatement" [("expression", .atStart 2 "ChainExpression" [
      ("expression", .atStart 3 "CallExpression" [
        ("callee", .atStart 4 "Identifier" [("name", .text "run")]),
        ("optional", .bool true)])])]])]⟩

/-- The only statement is a call that is not allowed, and it is not reported. -/
theorem messagesOf_noTopLevelSideEffects_optionalCall :
    allRules.traits.isTest = false ∧
      (∃ statement chain call, optionalCall.children "body" = [statement] ∧
        statement.kind = "ExpressionStatement" ∧ statement.child "expression" = some chain ∧
        chain.Wraps call ∧ call.kind = "CallExpression" ∧
        ¬call.RunsAtLoad (allRules.file [])) ∧
      allRules.messagesOf optionalCall [] "no-top-level-side-effects" = [] := by
  refine ⟨by decide +kernel, ?_, ?_⟩
  · refine ⟨_, _, _, rfl, rfl, rfl, ⟨Or.inr rfl, rfl⟩, rfl, ?_⟩
    rw [← Rule.mayRunAtLoad_iff]
    decide +kernel
  · exact List.isEmpty_iff.mp (by decide +kernel)

end AnalysisOptions

end PureLint
