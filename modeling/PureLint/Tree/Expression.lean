import PureLint.Tree.Node

/-!
# Names, literals and calls

The few shapes of expression that the rules recognise: identifiers, literals, plain member accesses
and what a call calls. Parentheses are nodes of their own and are looked through where a rule asks
for what an expression is.
-/

namespace PureLint.Node

/-- The name of an identifier. -/
def name? (n : Node) : Option String := if n.kind = "Identifier" then n.text? "name" else none

/-- The name of the identifier in a field. -/
def nameAt (n : Node) (key : String) : Option String := (n.child key).bind name?

/-- The expression inside any number of parentheses. -/
def unparenthesized (n : Node) : Node :=
  if n.kind = "ParenthesizedExpression" then
    match _h : n.child "expression" with
    | some inner => inner.unparenthesized
    | none => n
  else n
termination_by n.weight
decreasing_by exact weight_child ‹_›

/-- The kinds of node that are functions with a body. -/
def functionKinds : List String :=
  ["FunctionDeclaration", "FunctionExpression", "ArrowFunctionExpression"]

/-- Whether a node, seen through parentheses, is a function. -/
def isFunction (n : Node) : Bool := n.unparenthesized.hasKind functionKinds

/-- Whether the node in a field is a function, seen through parentheses. -/
def holdsFunction (n : Node) (key : String) : Bool := (n.child key).any isFunction

/-- Whether a node is a literal whose value is a text. -/
def literalText? (n : Node) : Option String := if n.kind = "Literal" then n.text? "value" else none

/-- The text literal in a field. -/
def literalTextAt (n : Node) (key : String) : Option String := (n.child key).bind literalText?

/-- Whether a node is a literal whose value is a number. -/
def isNumber (n : Node) : Bool :=
  n.kind == "Literal" && (Value.numberField? n.fields "value").isSome

/-- The truth value of a boolean literal, seen through parentheses. -/
def truth? (n : Node) : Option Bool :=
  let inner := n.unparenthesized
  if inner.kind = "Literal" then
    match inner.fields.lookup "value" with
    | some (.bool b) => some b
    | _ => none
  else none

/-- A member access by a written name: `object.property`. -/
structure Member where
  object : Node
  /-- The name of the object where it is an identifier, seen through parentheses. -/
  objectName : Option String
  property : String

/-- The member access that a node is, seen through one optional chain. An access by a computed key
is none. -/
def member? (n : Node) : Option Member := do
  let target ← if n.kind = "ChainExpression" then n.child "expression" else some n
  if target.kind = "MemberExpression" && !target.flag "computed" then
    let object ← target.child "object"
    let property ← target.nameAt "property"
    some ⟨object, object.unparenthesized.name?, property⟩
  else none

/-- The name that a call calls, where its callee is an identifier, seen through parentheses. -/
def calleeName (call : Node) : Option String := do (← call.child "callee").unparenthesized.name?

/-- The member that a call calls. -/
def calleeMember (call : Node) : Option Member := do (← call.child "callee").member?

/-- Whether a member belongs to the object of this name. -/
def Member.isOn (m : Member) (object : String) : Bool := m.objectName == some object

end PureLint.Node
