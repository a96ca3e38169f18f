import PureLint.Tree.Expression

/-!
# Named functions

A function has a name that a reader can refer to if it is declared under one, bound to a variable,
or exported as the default. A function bound to a variable is found at its declaration and not at
itself.
-/

namespace PureLint

/-- A named function and the node that a doc comment must stand directly above. -/
structure NamedFunction where
  name : String
  fn : Node
  anchor : Node

namespace NamedFunction

/-- The kinds of node that can name a function. -/
def kinds : List String :=
  ["FunctionDeclaration", "FunctionExpression", "VariableDeclaration", "ExportDefaultDeclaration"]

/-- The export that a declaration stands in, else the declaration itself. -/
def anchorOf (n : Node) (parent : Option Node) : Node :=
  (parent.filter (·.hasKind ["ExportNamedDeclaration", "ExportDefaultDeclaration"])).getD n

/-- A function declaration; an unnamed one is the default export. -/
def ofDeclaration (n : Node) (parent : Option Node) : List NamedFunction :=
  let name := (n.nameAt "id").or
    (if parent.any (·.hasKind ["ExportDefaultDeclaration"]) then some "default" else none)
  (name.map fun name => ⟨name, n, anchorOf n parent⟩).toList

/-- A function expression that is bound to nothing but has a name of its own. -/
def ofExpression (n : Node) (parent : Option Node) : List NamedFunction :=
  if parent.any (·.hasKind ["VariableDeclarator", "ExportDefaultDeclaration"]) then []
  else ((n.nameAt "id").map fun name => ⟨name, n, n⟩).toList

/-- The functions that a declaration binds to variables. -/
def ofVariables (n : Node) (parent : Option Node) : List NamedFunction :=
  (n.children "declarations").filterMap fun declarator => do
    let name ← declarator.nameAt "id"
    let init ← declarator.child "init"
    if init.isFunction then some ⟨name, init.unparenthesized, anchorOf n parent⟩ else none

/-- A function expression exported as the default. -/
def ofDefaultExport (n : Node) : List NamedFunction :=
  match n.child "declaration" with
  | none => []
  | some declaration =>
    let fn := declaration.unparenthesized
    if fn.hasKind ["ArrowFunctionExpression", "FunctionExpression"] then
      [⟨(fn.nameAt "id").getD "default", fn, n⟩]
    else []

end NamedFunction

/-- The functions that a node names, given the node it stands in. -/
def Node.namedFunctions (n : Node) (parent : Option Node) : List NamedFunction :=
  match n.kind with
  | "FunctionDeclaration" => NamedFunction.ofDeclaration n parent
  | "FunctionExpression" => NamedFunction.ofExpression n parent
  | "VariableDeclaration" => NamedFunction.ofVariables n parent
  | "ExportDefaultDeclaration" => NamedFunction.ofDefaultExport n
  | _ => []

end PureLint
