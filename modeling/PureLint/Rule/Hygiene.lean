import PureLint.Rule.Basic

/-!
# Conditions, cases and discarded results

Rules on small statements that read as mistakes.
-/

namespace PureLint.Rule

/-- What is reported about a condition that is a boolean literal. -/
def constantConditionReports (keyword : String) (visit : Visit) : List Report :=
  match (visit.node.child "test").bind Node.truth? with
  | some value =>
    let shown := if value then "true" else "false"
    [visit.node.report s!"{keyword} ({shown}) is not allowed. Constant conditions are banned"]
  | none => []

/-- Bans constant conditions. -/
def noConstantCondition : Rule where
  id := "no-constant-condition"
  description := "Flags if and while statements whose test is a boolean literal."
  checks :=
    reporting ["IfStatement"] (fun _ visit => constantConditionReports "if" visit) ++
    reporting ["WhileStatement"] fun _ visit => constantConditionReports "while" visit

/-- Whether a case holds nothing, or exactly one block or break. -/
def isBlockCase (consequent : List Node) : Bool :=
  match consequent with
  | [] => true
  | [only] => only.kind == "BlockStatement" || only.kind == "BreakStatement"
  | _ => false

/-- Requires the statements of a case to be one block. -/
def switchCaseBlock : Rule where
  id := "switch-case-block"
  description := "Requires each non-empty switch case to be a single block statement."
  checks := reporting ["SwitchCase"] fun _ visit =>
    reportIf (!isBlockCase (visit.node.children "consequent")) visit
      "Switch case must use block statement: case 'value': \x7b ... \x7d"

/-- Whether a statement only calls `map`. -/
def discardsMap (statement : Node) : Bool :=
  (statement.child "expression").any fun expression =>
    expression.kind == "CallExpression" && expression.calleeMember.any (·.property == "map")

/-- Bans calls of `map` whose result is discarded. -/
def noUnusedMap : Rule where
  id := "no-unused-map"
  description := "Flags .map() calls whose result is discarded."
  checks := reporting ["ExpressionStatement"] fun _ visit =>
    reportIf (discardsMap visit.node) visit
      "map() return value must be used. Assign the result or use a for-of loop for side effects"

end PureLint.Rule
