import PureLint.Comment.ParamTag
import PureLint.Rule.Basic
import PureLint.Tree.NamedFunction

/-!
# Functions and modules

Rules on the parameters and the documentation of functions, and on what runs when a module loads.
-/

namespace PureLint.Rule

/-- The greatest number of parameters that a function may have. -/
def maxParameters : Nat := 2

/-- The name of a function: its own, or the key of the method or property that holds it. -/
def shownName (visit : Visit) : String :=
  ((visit.node.nameAt "id").or (visit.parent.bind (·.nameAt "key"))).getD "<anonymous>"

/-- What is reported about a function with too many parameters. -/
def parameterCountReports (subject : String) (fn : Node) : List Report :=
  let count := (fn.children "params").length
  if count ≤ maxParameters then []
  else [fn.report (s!"{subject} has {count} parameters (max: {maxParameters}). " ++
    "Use an options object as the second parameter instead")]

/-- Bounds the number of parameters. -/
def maxFunctionParams : Rule where
  id := "max-function-params"
  description := "Flags functions with more than two parameters."
  checks :=
    reporting ["FunctionDeclaration", "FunctionExpression"] (fun _ visit =>
      parameterCountReports ("Function '" ++ shownName visit ++ "'") visit.node) ++
    reporting ["ArrowFunctionExpression"] fun _ visit =>
      parameterCountReports "Arrow function" visit.node

/-- The kinds of loops. -/
def loopKinds : List String :=
  ["ForStatement", "ForInStatement", "ForOfStatement", "WhileStatement", "DoWhileStatement"]

/-- Whether a call at the top level is allowed: of a function where it is written, of `main` in a
main entry, or to register tests with the file's test runner. -/
def mayRunAtLoad (file : SourceFile) (call : Node) : Bool :=
  (call.child "callee").any Node.isFunction ||
    (file.traits.isMainEntry && call.calleeName == some "main") ||
    file.runner.any (·.isRegistration call)

/-- The side effect that an expression at the top level has, as messages call it. -/
def expressionEffect? (file : SourceFile) (expression : Node) : Option String :=
  match expression.kind with
  | "CallExpression" => if mayRunAtLoad file expression then none else some "function calls"
  | "AssignmentExpression" => some "assignments"
  | "UpdateExpression" => some "update expressions"
  | "NewExpression" => some "new expressions"
  | _ => none

/-- The side effect that a statement at the top level has, as messages call it. A condition that is
a boolean literal belongs to another rule. -/
def statementEffect? (file : SourceFile) (statement : Node) : Option String :=
  if statement.kind = "ExpressionStatement" then
    (statement.child "expression").bind (expressionEffect? file)
  else if loopKinds.contains statement.kind then some "loops"
  else if statement.kind = "IfStatement" then
    if ((statement.child "test").bind Node.truth?).isSome then none else some "if statements"
  else none

/-- Bans side effects at the top level, other than in test files. -/
def noTopLevelSideEffects : Rule where
  id := "no-top-level-side-effects"
  description := "Flags calls, assignments, loops and conditionals at module scope."
  checks := reporting ["Program"] fun context visit =>
    if context.file.traits.isTest then []
    else (visit.node.children "body").filterMap fun statement =>
      (statementEffect? context.file statement).map fun effect =>
        statement.report s!"Top-level {effect} are not allowed (side effects)"

/-- What an exported declaration is and what it is called, where it must be documented. -/
def documentedExport? (traits : PathTraits) (declaration : Node) : Option String :=
  let name := declaration.nameAt "id"
  match declaration.kind with
  | "FunctionDeclaration" => some ("function '" ++ name.getD "anonymous" ++ "'")
  | "VariableDeclaration" =>
    ((declaration.children "declarations").find? (·.holdsFunction "init")).map fun bound =>
      "function '" ++ (bound.nameAt "id").getD "anonymous" ++ "'"
  | "TSTypeAliasDeclaration" =>
    if traits.directory = .types then some ("type '" ++ name.getD "" ++ "'") else none
  | "TSInterfaceDeclaration" =>
    if traits.directory = .types then some ("interface '" ++ name.getD "" ++ "'") else none
  | "ClassDeclaration" =>
    if traits.isErrorFile && Text.endsWith traits.stem "Error" then
      some ("error class '" ++ name.getD "anonymous" ++ "'")
    else none
  | _ => none

/-- What is reported about an export that a doc block must stand above. -/
def undocumentedReports (file : SourceFile) (statement : Node) (subject : String) : List Report :=
  if (file.docBefore statement.start).isSome then []
  else [statement.report s!"Exported {subject} must have a JSDoc comment"]

/-- What is reported about a default export that is a function. -/
def undocumentedDefault (file : SourceFile) (statement : Node) : List Report :=
  match statement.child "declaration" with
  | some declaration =>
    if declaration.isFunction then
      let name := (declaration.unparenthesized.nameAt "id").getD "anonymous"
      undocumentedReports file statement ("function '" ++ name ++ "'")
    else []
  | none => []

/-- Requires doc blocks above exported functions, types and error classes. -/
def exportRequiresJsdoc : Rule where
  id := "export-requires-jsdoc"
  description :=
    "Requires a /** */ comment above exported functions, " ++
      "and above exported types and error classes."
  checks :=
    reporting ["ExportNamedDeclaration"] (fun context visit =>
      match (visit.node.child "declaration").bind (documentedExport? context.file.traits) with
      | some subject => undocumentedReports context.file visit.node subject
      | none => []) ++
    reporting ["ExportDefaultDeclaration"] fun context visit =>
      undocumentedDefault context.file visit.node

/-- What is reported about the tags of a documented function: each named parameter without a tag,
each tag without a parameter, and unequal counts. -/
def tagReports (named : NamedFunction) (params : List Node) (tags : List String) : List Report :=
  let fn := named.name
  let missing := params.filterMap fun param =>
    match param.parameterName with
    | some name =>
      if tags.contains name then none
      else some (param.report
        s!"JSDoc @param tag missing for parameter '{name}' in function '{fn}'")
    | none => none
  let names := params.filterMap Node.parameterName
  let extra := (tags.filter fun tag => !names.contains tag).map fun tag =>
    named.fn.report s!"JSDoc @param '{tag}' does not match any parameter in function '{fn}'"
  let tagCount := tags.length
  let paramCount := params.length
  let counts :=
    if tagCount = paramCount then []
    else [named.fn.report
      s!"JSDoc has {tagCount} @param tags but function '{fn}' has {paramCount} parameters"]
  missing ++ extra ++ counts

/-- What is reported about the doc block above a named function. A block without tags is left
alone. -/
def docReports (file : SourceFile) (named : NamedFunction) : List Report :=
  let params := named.fn.children "params"
  if params.isEmpty then []
  else
    match file.docBefore named.anchor.start with
    | none => []
    | some doc =>
      let tags := ParamTag.names doc
      if tags.isEmpty then [] else tagReports named params tags

/-- Requires parameter tags to match the parameters. -/
def jsdocParamMatch : Rule where
  id := "jsdoc-param-match"
  description := "Requires @param tags to match the documented function parameters."
  checks := reporting NamedFunction.kinds fun context visit =>
    (visit.node.namedFunctions visit.parent).flatMap (docReports context.file)

/-- What is reported about a parameter without a type. One with a default has the default's type,
and a destructured one is typed as a whole. -/
def untypedParameter? (named : NamedFunction) (param : Node) : Option Report := do
  let name ← param.parameterName
  let fn := named.name
  if (param.kind == "Identifier" || param.kind == "RestElement") && !param.hasType then
    some (param.report s!"Parameter '{name}' in function '{fn}' must have a type")
  else none

/-- Requires types on the parameters of named functions. -/
def paramMissingType : Rule where
  id := "param-missing-type"
  description := "Requires type annotations on the parameters of named functions."
  checks := reporting NamedFunction.kinds fun _ visit =>
    (visit.node.namedFunctions visit.parent).flatMap fun named =>
      (named.fn.children "params").filterMap (untypedParameter? named)

end PureLint.Rule
