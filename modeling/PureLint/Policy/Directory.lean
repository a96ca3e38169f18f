import PureLint.Record
import PureLint.Rule.Basic

/-!
# Directory conventions

The policy that files follow by where they lie: test files import a test runner and what they test,
index files only re-export, and the files of an errors, a pure or a types directory export what the
directory is for, under the name of the file.
-/

namespace PureLint.Policy

/-- A message about the file as a whole. -/
def fileReport (message : String) : Report := ⟨.fileStart, message⟩

/-- The source of an import, empty if it is no text. -/
def sourceOf (statement : Node) : String := (statement.literalTextAt "source").getD ""

/-- The import declarations among statements. -/
def imports (body : List Node) : List Node := body.filter (·.kind == "ImportDeclaration")

/-- The declaration that a statement exports by name. -/
def exportedDeclaration? (statement : Node) : Option Node :=
  if statement.kind = "ExportNamedDeclaration" then statement.child "declaration" else none

/-- The functions whose call is a sign of tests. -/
def testCalls : List String := ["describe", "it", "test", "expect"]

/-- Whether a statement is a call that is a sign of tests. -/
def isTestCall (statement : Node) : Bool :=
  statement.kind == "ExpressionStatement" &&
    (statement.child "expression").any fun expression =>
      expression.kind == "CallExpression" && expression.calleeName.any testCalls.contains

/-- What is reported about the test runner that a test file imports. -/
def runnerReports (runner : TestRunner) (body : List Node) : List Report :=
  let sources := (imports body).map sourceOf
  let imported (runner : TestRunner) : Bool := sources.any runner.ownsSource
  let name := runner.name
  match TestRunner.all.find? fun other => other != runner && imported other with
  | some other =>
    let found := other.name
    [fileReport s!"Test file should use '{name}' but found imports for '{found}'"]
  | none =>
    if !imported runner && body.any isTestCall then
      [fileReport s!"Test file should import from '{name}' test runner"]
    else []

/-- Whether an import brings in the tested function: under that name, or as the default of a source
that has the name in it. -/
def importsTested (tested : String) (statement : Node) : Bool :=
  (statement.children "specifiers").any fun specifier =>
    if specifier.kind = "ImportSpecifier" then specifier.nameAt "imported" == some tested
    else if specifier.kind = "ImportDefaultSpecifier" then
      Text.contains (sourceOf statement) tested
    else false

/-- What is reported about what a test file imports to test. -/
def testedReports (traits : PathTraits) (body : List Node) : List Report :=
  let tested := traits.testedName
  let name := traits.basename
  if tested = "" then []
  else if (imports body).isEmpty then
    [fileReport s!"Test file '{name}' must have at least one import statement"]
  else if (imports body).any (importsTested tested) then []
  else
    [fileReport
      s!"Test file '{name}' must import function '{tested}' from the module being tested"]

/-- What is reported about a statement of an index file. -/
def indexReports (statement : Node) : List Report :=
  let only (what : String) : List Report :=
    [statement.report s!"index.ts files can only contain re-exports, not {what}"]
  match statement.kind with
  | "ExportNamedDeclaration" =>
    if (statement.child "source").isNone && (statement.child "declaration").isSome then
      only "direct exports"
    else []
  | "ExportDefaultDeclaration" => only "default exports"
  | "FunctionDeclaration" | "ClassDeclaration" | "VariableDeclaration" => only "declarations"
  | _ => []

/-- The class that a statement exports by name, with its name. -/
def exportedClass? (statement : Node) : Option (Node × String) := do
  let declaration ← exportedDeclaration? statement
  if declaration.kind = "ClassDeclaration" then
    some (declaration, ← declaration.nameAt "id")
  else none

/-- What is reported about an exported class of an error file. -/
def errorClassReports (stem : String) (declaration : Node) (name : String) : List Report :=
  if name = stem then
    if declaration.nameAt "superClass" = some "Error" then []
    else [declaration.report s!"Error class '{name}' must extend Error"]
  else if Text.endsWith name "Error" then
    [declaration.report s!"Error class must be named '{stem}' to match filename"]
  else []

/-- What is reported about an error file. -/
def errorFileReports (traits : PathTraits) (body : List Node) : List Report :=
  let classes := body.filterMap exportedClass?
  let stem := traits.stem
  let name := traits.basename
  classes.flatMap (fun (declaration, name) => errorClassReports stem declaration name) ++
    if classes.any fun (_, name) => name == stem then []
    else [fileReport s!"Error file '{name}' must export error class '{stem}' extending Error"]

/-- The function declaration that a statement exports by name. -/
def exportedFunction? (statement : Node) : Option Node :=
  (exportedDeclaration? statement).filter (·.kind == "FunctionDeclaration")

/-- The function that a statement declares, exported by name or not exported. -/
def declaredFunction? (statement : Node) : Option Node :=
  (exportedFunction? statement).or
    (if statement.kind = "FunctionDeclaration" then some statement else none)

/-- What is reported about a file in a pure directory. -/
def pureFileReports (traits : PathTraits) (body : List Node) : List Report :=
  let stem := traits.stem
  let effects := (imports body).filter fun statement =>
    Text.contains (sourceOf statement) "/io/"
  let async := (body.filterMap declaredFunction?).filter (·.flag "async")
  let exported := body.filterMap exportedFunction?
  effects.map (·.report
    "pure/**/*.ts files cannot import from io/**/*.ts (pure functions cannot depend on I/O)") ++
  async.map (·.report "Functions in pure/**/*.ts cannot be async") ++
  if exported.isEmpty || exported.any (·.nameAt "id" == some stem) then []
  else [fileReport s!"pure/**/*.ts must export a function named '{stem}' matching the filename"]

/-- How messages call the declarations that are no types. -/
def nonTypeKinds : List (String × String) :=
  [("TSEnumDeclaration", "enums"), ("FunctionDeclaration", "functions"),
   ("ClassDeclaration", "classes"), ("VariableDeclaration", "variables")]

/-- Whether a declaration is a type alias or an interface. -/
def declaresType (declaration : Node) : Bool :=
  declaration.kind == "TSTypeAliasDeclaration" || declaration.kind == "TSInterfaceDeclaration"

/-- What is reported about an exported declaration that is no type. -/
def nonTypeReports (declaration : Node) : List Report :=
  if declaresType declaration then []
  else
    match Record.answer? nonTypeKinds declaration.kind with
    | some what =>
      [declaration.report s!"types/**/*.ts should only export type definitions, not {what}"]
    | none => []

/-- An exported type and its name. -/
def namedType? (declaration : Node) : Option (Node × String) :=
  if declaresType declaration then (declaration.nameAt "id").map fun name => (declaration, name)
  else none

/-- What is reported about the names of the exported types. -/
def typeNameReports (stem : String) (types : List (Node × String)) : List Report :=
  let misnamed := types.filter fun (_, name) => name != stem
  misnamed.map fun (declaration, _) =>
    if types.length = 1 then
      declaration.report s!"Type export must be named '{stem}' to match the filename"
    else
      declaration.report
        s!"types/**/*.ts should only export one type named '{stem}' matching the filename"

/-- What is reported about a file in a types directory. -/
def typesFileReports (traits : PathTraits) (body : List Node) : List Report :=
  let declarations := body.filterMap exportedDeclaration?
  declarations.flatMap nonTypeReports ++
    typeNameReports traits.stem (declarations.filterMap namedType?)

/-- What is reported about a file that is no test file. All conventions that apply add up. -/
def directoryReports (traits : PathTraits) (body : List Node) : List Report :=
  (if traits.stem = "index" then body.flatMap indexReports else []) ++
  (if traits.isErrorFile then errorFileReports traits body else []) ++
  (if Path.hasDirectory traits.path "pure" then pureFileReports traits body else []) ++
  (if Path.hasDirectory traits.path "types" then typesFileReports traits body else [])

/-- Applies the convention of a file's directory. Test files follow their own convention only. -/
def pathBasedRestrictions : Policy where
  id := "path-based-restrictions"
  description := "Applies directory conventions: test, index, errors, pure and types files."
  check context program :=
    let traits := context.file.traits
    let body := program.children "body"
    { reports :=
        if traits.isTest then
          runnerReports (context.file.runner.getD .vitest) body ++ testedReports traits body
        else directoryReports traits body }

end PureLint.Policy
