import PureLint.Rule.Basic

/-!
# Side effects and scope

Rules on what a function may reach outside its parameters.
-/

namespace PureLint.Rule

/-- The members whose call has a hidden input. -/
def effectMembers : List (String × String) := [("Math", "random"), ("Date", "now")]

/-- The functions that start a timer. -/
def timerStarters : List String :=
  ["setTimeout", "setInterval", "setImmediate", "requestAnimationFrame", "requestIdleCallback"]

/-- Whether the walk is in a function, outside the defaults of its parameters. -/
def inFunctionBody (context : Context) : Bool :=
  context.survey.scope.inFunction && !context.survey.scope.inDefault

/-- The message about a side effect. -/
def effectMessage (usage : String) : String :=
  s!"Direct use of '{usage}' is not allowed in functions. " ++
    "Pass it as a parameter or use a default parameter instead"

/-- The side effect of a call, as it is written in messages. -/
def effectOf? (timersAllowed : Bool) (call : Node) : Option String :=
  match call.calleeMember with
  | some member =>
    (effectMembers.find? fun effect => member.isOn effect.1 && member.property == effect.2).map
      fun effect => effect.1 ++ "." ++ effect.2 ++ "()"
  | none =>
    match call.calleeName with
    | some name =>
      if timerStarters.contains name && !timersAllowed then some (name ++ "()") else none
    | none => none

/-- Bans hidden inputs and timers in function bodies. -/
def noSideEffectFunctions : Rule where
  id := "no-side-effect-functions"
  description := "Flags Math.random(), Date.now(), new Date() and timers inside function bodies."
  checks :=
    reporting ["CallExpression"] (fun context visit =>
      if inFunctionBody context then
        match effectOf? (context.file.allows .timers) visit.node with
        | some usage => [visit.node.report (effectMessage usage)]
        | none => []
      else []) ++
    reporting ["NewExpression"] fun context visit =>
      reportIf (inFunctionBody context && visit.node.calleeName == some "Date") visit
        (effectMessage "new Date()")

/-- Bans `this` in functions, other than in error files. -/
def noThisInFunctions : Rule where
  id := "no-this-in-functions"
  description := "Flags 'this' inside functions."
  checks := reporting ["ThisExpression"] fun context visit =>
    reportIf (context.survey.scope.inFunction && !context.file.traits.isErrorFile) visit
      "Using 'this' in functions is not allowed in pure TypeScript subset"

/-- Bans the global `process` unless the file imports a `process` of its own. -/
def noGlobalProcess : Rule where
  id := "no-global-process"
  description := "Flags the global 'process'. Import it from 'node:process' instead."
  checks := reporting [referenceCheckKind] fun context visit =>
    reportIf (visit.node.name? == some "process" &&
        !context.survey.topLevel.processNames.contains "process") visit
      "Global 'process' is not allowed. Import it from 'node:process' instead"

/-- Bans the names of the running file and its directory. -/
def noFilenameDirname : Rule where
  id := "no-filename-dirname"
  description := "Flags __filename and __dirname. Use import.meta.url instead."
  checks := reporting [referenceCheckKind] fun _ visit =>
    match visit.node.name? with
    | some name =>
      reportIf (name == "__filename" || name == "__dirname") visit
        s!"{name} is not allowed in pure TypeScript subset. Use import.meta.url instead"
    | none => []

end PureLint.Rule
