import PureLint.Rule.Basic

/-!
# Throwing and catching

Rules on throw statements and catch clauses.
-/

namespace PureLint.Rule

/-- Whether a thrown expression is a name, or makes something whose name ends in `Error`. -/
def isErrorValue (argument : Node) : Bool :=
  argument.kind == "Identifier" ||
    (argument.kind == "NewExpression" && argument.calleeName.any (Text.endsWith · "Error"))

/-- Bans throwing unless the file grants itself to throw, and then bans throwing what is no
error. A granted throw is a use of the grant. -/
def noThrow : Rule where
  id := "no-throw"
  description := "Flags throw statements unless the file declares '@allow throws'."
  checks := [("ThrowStatement", fun context visit =>
    if context.file.allows .throws then
      { reports := reportIf (!(visit.node.child "argument").any isErrorValue) visit
          ("Only Error instances can be thrown. " ++
            "Use 'throw new <Name>Error(...)' or rethrow a caught error")
        uses := [.throws] }
    else
      { reports := [visit.node.report
          "Throw statements require '@allow throws' directive. Return a Result value instead"] })]

/-- Whether a condition tests that the name is an error, by `instanceof` or by `Error.isError`. -/
def testsForError (test : Node) (name : String) : Bool :=
  if test.kind = "BinaryExpression" ∧ test.text? "operator" = some "instanceof" then
    test.nameAt "left" == some name && test.nameAt "right" == some "Error"
  else if test.kind = "CallExpression" then
    test.calleeMember.any (fun member => member.isOn "Error" && member.property == "isError") &&
      ((test.children "arguments").head?.bind Node.name?) == some name
  else false

/-- Whether a statement is a conditional that tests that the name is an error. -/
def startsByTesting (statement : Node) (name : String) : Bool :=
  statement.kind == "IfStatement" && (statement.child "test").any (testsForError · name)

/-- What is reported about a catch clause. -/
def catchReports (clause : Node) : List Report :=
  match clause.child "param" with
  | none =>
    [clause.report "Catch clause must have an error parameter to handle errors properly"]
  | some param =>
    match ((clause.child "body").bind fun body => (body.children "body").head?) with
    | none =>
      [clause.report "Empty catch block is not allowed. Check the error type and handle it"]
    | some first =>
      let name := param.name?.getD "e"
      if startsByTesting first name then []
      else [clause.report
        (s!"Catch block must check error type with 'if ({name} instanceof Error)' or " ++
          s!"'if (Error.isError({name}))' as its first statement")]

/-- Requires catch clauses to bind what they caught and to test it first. -/
def catchErrorHandling : Rule where
  id := "catch-error-handling"
  description := "Requires catch clauses to bind the error and check its type first."
  checks := reporting ["CatchClause"] fun _ visit => catchReports visit.node

end PureLint.Rule
