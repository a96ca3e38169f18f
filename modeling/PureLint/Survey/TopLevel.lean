import PureLint.Lookup
import PureLint.Tree.Binding

/-!
# Top-level statements

What the statements of a program tell before the tree is walked: the shape of its exports, its
re-exports, and the names under which it imports the `process` module.
-/

namespace PureLint

/-- An exported name and the statement that exports it. -/
structure Export where
  name : String
  span : Span

/-- What the top-level statements of a program export and re-export. -/
structure TopLevel where
  functions : List Export := []
  others : List Export := []
  /-- The names of exported declarations, each once. -/
  names : List String := []
  reexports : List Node := []
  processNames : List String := []

namespace TopLevel

/-- Adds the name of an exported declaration. -/
def withName (t : TopLevel) (name : String) : TopLevel := { t with names := addOnce name t.names }

/-- Adds an exported function or other value. -/
def withExport (t : TopLevel) (isFunction : Bool) (e : Export) : TopLevel :=
  if isFunction then { t with functions := t.functions ++ [e] }
  else { t with others := t.others ++ [e] }

/-- Adds a variable of an exported declaration, if it is a plain name. -/
def addVariable (statement : Node) (t : TopLevel) (declarator : Node) : TopLevel :=
  match declarator.nameAt "id" with
  | some name =>
    (t.withName name).withExport (declarator.holdsFunction "init") ⟨name, statement.span⟩
  | none => t

/-- Adds the declaration that a statement exports by name. -/
def addDeclaration (t : TopLevel) (statement declaration : Node) : TopLevel :=
  if declaration.kind = "FunctionDeclaration" then
    match declaration.nameAt "id" with
    | some name => (t.withExport true ⟨name, statement.span⟩).withName name
    | none => t
  else if declaration.kind = "VariableDeclaration" then
    (declaration.children "declarations").foldl (addVariable statement) t
  else
    match declaration.nameAt "id" with
    | some name => t.withName name
    | none => t

/-- The sources from which `process` is imported. -/
def processSources : List String := ["process", "node:process"]

/-- Adds a name under which `process` is imported, other than by a namespace import. -/
def addProcessName (t : TopLevel) (specifier : Node) : TopLevel :=
  if specifier.kind = "ImportNamespaceSpecifier" then t
  else
    match specifier.nameAt "local" with
    | some name => { t with processNames := addOnce name t.processNames }
    | none => t

/-- Adds what a top-level statement tells. -/
def addStatement (t : TopLevel) (statement : Node) : TopLevel :=
  match statement.kind with
  | "ImportDeclaration" =>
    match statement.literalTextAt "source" with
    | some source =>
      if processSources.contains source then
        (statement.children "specifiers").foldl addProcessName t
      else t
    | none => t
  | "ExportNamedDeclaration" =>
    let t := if (statement.child "source").isSome then
      { t with reexports := t.reexports ++ [statement] } else t
    match statement.child "declaration" with
    | some declaration => t.addDeclaration statement declaration
    | none => t
  | "ExportAllDeclaration" => { t with reexports := t.reexports ++ [statement] }
  | "ExportDefaultDeclaration" =>
    t.withExport (statement.holdsFunction "declaration") ⟨"default", statement.span⟩
  | _ => t

/-- What the top-level statements of a program tell. -/
def ofProgram (program : Node) : TopLevel := (program.children "body").foldl addStatement {}

end TopLevel

end PureLint
