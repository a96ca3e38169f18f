import PureLint.Rule.Basic

/-!
# One named export

The policy that a file exports by name what its own name announces, in the shape that its directory
is for.
-/

namespace PureLint.Policy

/-- What a declaration comes to: whether it exports the expected name, and what is reported. -/
structure ExportVerdict where
  isExpected : Bool
  reports : List Report := []

/-- What a file must export, and how messages call it. -/
structure Expected where
  name : String
  directory : Convention

/-- Whether functions and variables must carry the name of the file. -/
def Expected.bindsNames (e : Expected) : Bool :=
  e.directory != .types && e.directory != .errors

/-- What is reported about an exported function that is asynchronous or not. -/
def asyncReports (e : Expected) (statement : Node) (name : String) (isAsync : Bool) :
    List Report :=
  if e.directory = .io ∧ !isAsync ∧ !Text.endsWith name "Sync" then
    [statement.report s!"IO function '{name}' must be async or end with 'Sync'"]
  else if e.directory = .pure ∧ isAsync then
    [statement.report s!"Pure function '{name}' cannot be async"]
  else []

/-- What is reported about an exported function or variable under another name. -/
def misnamedReports (e : Expected) (statement : Node) (what name : String) : List Report :=
  let expected := e.name
  if e.bindsNames && name != expected then
    [statement.report s!"Exported {what} '{name}' must match filename '{expected}'"]
  else []

/-- The verdict on an exported function. -/
def functionVerdict (e : Expected) (statement declaration : Node) : ExportVerdict :=
  match declaration.nameAt "id" with
  | none => ⟨false, []⟩
  | some name =>
    ⟨name == e.name,
      asyncReports e statement name (declaration.flag "async") ++
        misnamedReports e statement "function" name⟩

/-- The verdict on exported variables. -/
def variableVerdict (e : Expected) (statement declaration : Node) : ExportVerdict :=
  let names := (declaration.children "declarations").filterMap (·.nameAt "id")
  ⟨names.contains e.name, names.flatMap (misnamedReports e statement "variable")⟩

/-- The verdict on an exported type alias or interface. It counts in a types directory only. -/
def typeVerdict (e : Expected) (statement declaration : Node) : ExportVerdict :=
  let name := (declaration.nameAt "id").getD ""
  let isAlias := declaration.kind == "TSTypeAliasDeclaration"
  let expected := e.name
  let message :=
    if e.directory = .types then
      (if isAlias then "Type" else "Interface") ++
        s!" export must be named '{expected}' to match the filename"
    else
      "Exported " ++ (if isAlias then "type" else "interface") ++
        s!" '{name}' must match filename '{expected}'"
  ⟨e.directory == .types && name == expected,
    if name = expected then [] else [statement.report message]⟩

/-- The verdict on an exported class. Classes count in an errors directory only. -/
def classVerdict (e : Expected) (statement declaration : Node) : ExportVerdict :=
  let expected := e.name
  match declaration.nameAt "id" with
  | some name =>
    if e.directory != .errors then ⟨false, []⟩
    else if name = expected then ⟨true, []⟩
    else ⟨false, [statement.report s!"Error class must be named '{expected}' to match filename"]⟩
  | none => ⟨false, []⟩

/-- The verdict on a declaration that a statement exports. -/
def declarationVerdict (e : Expected) (statement declaration : Node) : ExportVerdict :=
  match declaration.kind with
  | "FunctionDeclaration" => functionVerdict e statement declaration
  | "VariableDeclaration" => variableVerdict e statement declaration
  | "TSTypeAliasDeclaration" | "TSInterfaceDeclaration" => typeVerdict e statement declaration
  | "ClassDeclaration" => classVerdict e statement declaration
  | _ => ⟨false, []⟩

/-- The verdict on a statement that exports by name. -/
def namedVerdict (e : Expected) (statement : Node) : ExportVerdict :=
  match statement.child "declaration" with
  | some declaration => declarationVerdict e statement declaration
  | none =>
    if (statement.child "source").isNone && !(statement.children "specifiers").isEmpty then
      ⟨false, [statement.report ("Export specifier syntax 'export \x7b \x7d' is not allowed. " ++
        "Use direct export declarations like 'export function' or 'export type'")]⟩
    else ⟨false, []⟩

/-- What is reported about a statement. -/
def statementReports (e : Expected) (statement : Node) : List Report :=
  match statement.kind with
  | "ExportDefaultDeclaration" =>
    [statement.report "Export default is not allowed. Use named export matching the filename"]
  | "ExportNamedDeclaration" => (namedVerdict e statement).reports
  | _ => []

/-- The message about a file that never exports what it should. -/
def missingExport (e : Expected) (stem : String) : String :=
  let name := e.name
  let directory := e.directory.name
  let ofDirectory (what : String) : String :=
    s!"{directory}/**/*.ts must export a {what} named '{name}' matching the filename"
  match e.directory with
  | .types => ofDirectory "type"
  | .errors => ofDirectory "class"
  | .pure => ofDirectory "function"
  | .io => ofDirectory "function"
  | .regular => s!"File '{stem}' must export a function with the same name '{name}'"

/-- What is reported about the exports of a file. -/
def namedExportReports (e : Expected) (stem : String) (body : List Node) : List Report :=
  let named := body.filter (·.kind == "ExportNamedDeclaration")
  body.flatMap (statementReports e) ++
    if named.isEmpty || named.any fun statement => (namedVerdict e statement).isExpected then []
    else [⟨.fileStart, missingExport e stem⟩]

/-- The name that a file must export: its stem without one leading underscore. -/
def expectedName (stem : String) : String := Text.stripStart stem "_"

/-- Whether a file is free of the policy: index and test files, entry points and main entries. -/
def isExempt (traits : PathTraits) : Bool :=
  traits.stem == "index" || traits.isTest || traits.isMainEntry || traits.isEntryPoint

/-- Requires one named export that matches the name of the file. -/
def strictNamedExport : Policy where
  id := "strict-named-export"
  description :=
    "Requires a single named export matching the file name, shaped by the directory it lives in."
  check context program :=
    let traits := context.file.traits
    if isExempt traits then {}
    else
      let expected : Expected := ⟨expectedName traits.stem, traits.directory⟩
      { reports := namedExportReports expected traits.stem (program.children "body") }

end PureLint.Policy
