import PureLint.Lookup
import PureLint.Survey.Reference
import PureLint.Survey.TopLevel

/-!
# Names of a file

What the walk learns about the names of a file: which are declared, imported and read, which hold
arrays, and which arrays are changed. Tables keep the order in which names first came up.
-/

namespace PureLint

/-- Names with the place where each was found, in the order they first came up. -/
abbrev NameTable := List (String × Span)

namespace NameTable

/-- The table with a place for a name, in the name's old position if it has one. -/
def put (name : String) (span : Span) : NameTable → NameTable
  | [] => [(name, span)]
  | (other, old) :: rest =>
    if other = name then (other, span) :: rest else (other, old) :: put name span rest

/-- A name that is put has its new place, and all other names are as before. -/
theorem lookup_put (name other : String) (span : Span) (table : NameTable) :
    (put name span table).lookup other =
      if other = name then some span else table.lookup other := by
  induction table with
  | nil => simp [put, lookup_cons_ite]
  | cons entry rest ih =>
    obtain ⟨key, old⟩ := entry
    rw [put]
    split
    · rename_i h
      subst h
      by_cases h : other = key <;> simp [lookup_cons_ite, h]
    · rename_i h
      rw [lookup_cons_ite, ih, lookup_cons_ite]
      by_cases hk : other = key
      · simp [hk, h]
      · simp [hk]

/-- The table with a place for a name that has none yet. -/
def putNew (name : String) (span : Span) (table : NameTable) : NameTable :=
  if (table.lookup name).isSome then table else table ++ [(name, span)]

end NameTable

/-- What the walk has learnt about the names of a file. -/
structure Names where
  declared : NameTable := []
  imported : NameTable := []
  /-- The names read anywhere, as a value or in a type. -/
  used : List String := []
  arrays : NameTable := []
  mutated : List String := []
  readonlyArrays : List String := []
  /-- The identities of the identifiers that bind a name. -/
  bindings : List Nat := []

namespace Names

/-- The methods that change the array they are called on. -/
def mutatingMethods : List String :=
  ["push", "pop", "shift", "unshift", "splice", "sort", "reverse", "fill", "copyWithin"]

/-- Whether a type is an array type. -/
def isArrayType (type : Node) : Bool :=
  type.kind == "TSArrayType" || type.typeName? == some "Array"

/-- Whether a type is a read-only array type, or any type with the `readonly` operator. -/
def isReadonlyArrayType (type : Node) : Bool :=
  type.typeName? == some "ReadonlyArray" ||
    (type.kind == "TSTypeOperator" && type.text? "operator" == some "readonly")

/-- Whether an initial value is made by `Array` or one of its static members. -/
def isArrayCall (init : Node) : Bool :=
  (init.kind == "NewExpression" || init.kind == "CallExpression") &&
    (init.calleeName == some "Array" || init.calleeMember.any (·.isOn "Array"))

/-- Whether an initial value makes its variable an array: an array literal does so only where no
type is written. -/
def isArrayInit (type : Option Node) (init : Node) : Bool :=
  (init.kind == "ArrayExpression" && type.isNone) || isArrayCall init

/-- Notes identifiers that bind names. -/
def bind (names : Names) (identifiers : List Node) : Names :=
  { names with bindings := identifiers.foldl (fun ids n => n.id :: ids) names.bindings }

/-- Notes a declared name. -/
def declare (names : Names) (name : String) (span : Span) : Names :=
  { names with declared := names.declared.putNew name span }

/-- Notes a variable that holds an array. -/
def addArray (names : Names) (name : String) (span : Span) : Names :=
  { names with arrays := names.arrays.put name span }

/-- Notes what the written type of a variable tells. -/
def addAnnotated (names : Names) (name : String) (span : Span) (type : Option Node) : Names :=
  match type with
  | none => names
  | some type =>
    if isArrayType type then names.addArray name span
    else if isReadonlyArrayType type then
      { names with readonlyArrays := addOnce name names.readonlyArrays }
    else names

/-- Notes what the declaration of a variable tells. -/
def addDeclarator (names : Names) (declarator : Node) : Names :=
  let names := names.bind (declarator.identifiersAt "id")
  match declarator.child "id" with
  | none => names
  | some id =>
    match id.name? with
    | none => names
    | some name =>
      let type := id.annotatedType
      let names := (names.declare name declarator.span).addAnnotated name declarator.span type
      match declarator.child "init" with
      | some init =>
        if isArrayInit type init.unparenthesized then names.addArray name declarator.span
        else names
      | none => names

/-- Notes a parameter of a function. A parameter of an arrow function is no declared name. -/
def addParameter (declares : Bool) (names : Names) (param : Node) : Names :=
  let names := names.bind param.boundIdentifiers
  if declares then
    match param.parameterName with
    | some name => names.declare name param.span
    | none => names
  else names

/-- Notes the parameters of a function. -/
def addParameters (names : Names) (fn : Node) : Names :=
  (fn.children "params").foldl (addParameter (fn.kind != "ArrowFunctionExpression")) names

/-- Notes the name that a specifier of an import declaration brings in. -/
def addImport (declaration : Node) (names : Names) (specifier : Node) : Names :=
  match specifier.nameAt "local" with
  | some name => { names with imported := names.imported.put name declaration.span }
  | none => names

/-- Notes a call of a method that changes an array. -/
def addCall (names : Names) (call : Node) : Names :=
  match call.calleeMember with
  | some ⟨_, some object, property⟩ =>
    if mutatingMethods.contains property then
      { names with mutated := addOnce object names.mutated }
    else names
  | _ => names

/-- The name of the variable whose computed member an assignment sets. -/
def assignedIndexOf (assignment : Node) : Option String := do
  let left ← assignment.child "left"
  if left.kind = "MemberExpression" && left.flag "computed" then
    (← left.child "object").unparenthesized.name?
  else none

/-- Notes an assignment to a computed member of a variable. -/
def addAssignment (names : Names) (assignment : Node) : Names :=
  match assignedIndexOf assignment with
  | some name => { names with mutated := addOnce name names.mutated }
  | none => names

/-- Notes that the specifiers of a re-export read no local name. -/
def addReexport (names : Names) (declaration : Node) : Names :=
  if (declaration.child "source").isSome then
    names.bind ((declaration.children "specifiers").filterMap (·.child "local"))
  else names

/-- Notes a name that is read. -/
def addReference (names : Names) (visit : Visit) : Names :=
  match visit.reference? names.bindings, visit.node.name? with
  | some _, some name => { names with used := addOnce name names.used }
  | _, _ => names

/-- What is known after entering a node. -/
def enter (names : Names) (visit : Visit) : Names :=
  let node := visit.node
  match node.kind with
  | "FunctionDeclaration" | "FunctionExpression" | "ArrowFunctionExpression" =>
    names.addParameters node
  | "CatchClause" => names.bind (node.identifiersAt "param")
  | "VariableDeclarator" => names.addDeclarator node
  | "ImportDeclaration" => (node.children "specifiers").foldl (addImport node) names
  | "ExportNamedDeclaration" => names.addReexport node
  | "CallExpression" => names.addCall node
  | "AssignmentExpression" => names.addAssignment node
  | "Identifier" => names.addReference visit
  | _ => names

end Names

end PureLint
