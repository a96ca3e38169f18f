import PureLint.Decimal.Rounding
import PureLint.Rule.Basic
import PureLint.Text.Digits

/-!
# Declarations and access

Rules that ask for written types, and rules on computed members and on arrays that never change.
-/

namespace PureLint.Rule

/-- The name of a declarator that has neither a written type nor an initial value. -/
def bareName? (declarator : Node) : Option String := do
  let id ← declarator.child "id"
  let name ← id.name?
  if id.annotatedType.isSome || (declarator.child "init").isSome then none else some name

/-- Requires a type on variables declared by `let` without a value, other than in for-in and for-of
loops. -/
def letRequiresType : Rule where
  id := "let-requires-type"
  description := "Requires a type annotation on 'let' declarations without an initializer."
  checks := reporting ["VariableDeclaration"] fun _ visit =>
    if visit.node.text? "kind" != some "let" ||
        visit.parent.any (·.hasKind ["ForOfStatement", "ForInStatement"]) then []
    else (visit.node.children "declarations").filterMap fun declarator =>
      (bareName? declarator).map fun name =>
        declarator.report s!"'let' declaration for '{name}' must have an explicit type"

/-- The name of a declarator that starts empty as an array and has no written type. -/
def emptyArrayName? (declarator : Node) : Option String := do
  let id ← declarator.child "id"
  let init ← declarator.child "init"
  let name ← id.name?
  let value := init.unparenthesized
  if id.annotatedType.isNone && value.kind == "ArrayExpression" &&
      (value.children "elements").isEmpty then some name
  else none

/-- Requires a type on variables that start as an empty array. -/
def emptyArrayRequiresType : Rule where
  id := "empty-array-requires-type"
  description := "Requires a type annotation on variables initialized with []."
  checks := reporting ["VariableDeclarator"] fun _ visit =>
    match emptyArrayName? visit.node with
    | some name =>
      [visit.node.report
        s!"Empty array '{name}' requires type annotation (e.g., const {name}: Array<number> = [])"]
    | none => []

/-- How messages call what a declarator binds. -/
def shownBinding (id : Node) : String :=
  if id.kind = "ObjectPattern" then "destructured object"
  else if id.kind = "ArrayPattern" then "destructured array"
  else id.name?.getD "assignment pattern"

/-- What is reported about an exported constant without a written type. A function needs none. -/
def untypedConstant? (declarator : Node) : Option Report := do
  let id ← declarator.child "id"
  let label := shownBinding id
  if id.annotatedType.isSome || declarator.holdsFunction "init" then none
  else some (declarator.report s!"Export const '{label}' must have an explicit type")

/-- What is reported about the declaration of exported variables. -/
def exportedVariableReports (declaration : Node) : List Report :=
  if declaration.kind = "VariableDeclaration" then
    match declaration.text? "kind" with
    | some "let" =>
      [declaration.report "Export let is not allowed. Use 'export const' with explicit type"]
    | some "const" => (declaration.children "declarations").filterMap untypedConstant?
    | _ => []
  else []

/-- Requires types on exported constants and bans exported variables that can change. -/
def exportConstTypeRequired : Rule where
  id := "export-const-type-required"
  description := "Requires explicit types on exported constants and forbids 'export let'."
  checks := reporting ["ExportNamedDeclaration"] fun _ visit =>
    match visit.node.child "declaration" with
    | some declaration => exportedVariableReports declaration
    | none => []

/-- The sign and the magnitude that a text of decimal digits with an optional sign spells. -/
def signedDigits? (text : List Char) : Option (Bool × Nat) :=
  match text with
  | '+' :: ds => (Text.digits? ds).map fun n => (false, n)
  | '-' :: ds => (Text.digits? ds).map fun n => (true, n)
  | ds => (Text.digits? ds).map fun n => (false, n)

/-- The least position. -/
def leastPosition : Int := -2147483648

/-- The greatest position. -/
def greatestPosition : Int := 2147483647

/-- Whether a double lies within the positions. -/
def inPositions (x : Double) : Bool :=
  (Double.ofInt leastPosition).le x && x.le (Double.ofInt greatestPosition)

/-- Whether a key is a position: a number, or a text of digits that is read as a double within the
positions. -/
def isPositionKey (key : Node) : Bool :=
  key.isNumber ||
    (key.literalText?.bind fun text => signedDigits? text.toList).any fun (negative, n) =>
      inPositions (Double.ofNat negative n)

/-- Whether a visited node is assigned to. -/
def isAssigned (visit : Visit) : Bool :=
  visit.parent.any fun parent =>
    parent.kind == "AssignmentExpression" && (parent.child "left").any visit.node.same

/-- Bans computed members, other than by position. -/
def noDynamicAccess : Rule where
  id := "no-dynamic-access"
  description := "Flags computed member access with a non-index key."
  checks := reporting ["MemberExpression"] fun _ visit =>
    reportIf (visit.node.flag "computed" && !(visit.node.child "property").any isPositionKey) visit
      (if isAssigned visit then
        "Dynamic property assignment is not allowed. Use dot notation instead"
      else "Dynamic property access is not allowed. Use dot notation or destructuring instead")

/-- What is reported about arrays that never change and are not read-only. -/
def unchangedArrayReports (survey : Survey) : List Report :=
  let names := survey.names
  names.arrays.filterMap fun (name, span) =>
    if names.mutated.contains name || names.readonlyArrays.contains name then none
    else some ⟨span, s!"Array '{name}' is never mutated. " ++
      "Consider using 'ReadonlyArray' or 'readonly' modifier"⟩

/-- Asks for arrays that never change to be read-only. -/
def preferReadonlyArray : Rule where
  id := "prefer-readonly-array"
  description := "Flags arrays that are never mutated. Type them as ReadonlyArray instead."
  finish := reportingAtEnd unchangedArrayReports

end PureLint.Rule
