import PureLint.Tree.Walk
import PureLint.Tree.Expression

/-!
# Scopes

Where the walk is: inside a function, a catch clause, a default of a parameter or a destructured
parameter. Some nodes open a scope as the walk enters them; leaving the node restores the scope
around it.
-/

namespace PureLint

/-- Where the walk is. -/
structure Scope where
  inFunction : Bool := false
  inCatch : Bool := false
  /-- The name that the innermost catch clause gives to what it caught. -/
  catchName : Option String := none
  inDefault : Bool := false
  /-- Inside a destructured parameter, where nested defaults also count. -/
  inPattern : Bool := false
  deriving DecidableEq, Repr

namespace Scope

/-- Whether a visit is to a parameter of a function or of a constructor property. -/
def isParameter (visit : Visit) : Bool :=
  match visit.parent with
  | none => false
  | some parent =>
    if parent.kind = "TSParameterProperty" then
      (parent.child "parameter").any visit.node.same
    else visit.key == some "params" && parent.isFunction

/-- The scope that a visited node opens inside the given one, if it opens one. -/
def opened? (scope : Scope) (visit : Visit) : Option Scope :=
  match visit.node.kind with
  | "FunctionDeclaration" | "FunctionExpression" | "ArrowFunctionExpression" =>
    some { scope with inFunction := true, inDefault := false, inPattern := false }
  | "AssignmentPattern" =>
    if isParameter visit || scope.inPattern then
      some { scope with inDefault := true, inPattern := true }
    else none
  | "ObjectPattern" | "ArrayPattern" | "RestElement" =>
    if isParameter visit then some { scope with inPattern := true } else none
  | "CatchClause" =>
    some { scope with inCatch := true, catchName := visit.node.nameAt "param" }
  | _ => none

end Scope

/-- The scope of the walk and the scopes around it, each with the identity of the node that
closed it off, innermost first. -/
structure ScopeStack where
  scope : Scope := {}
  around : List (Nat × Scope) := []

namespace ScopeStack

/-- The stack after entering a node. -/
def enter (s : ScopeStack) (visit : Visit) : ScopeStack :=
  match s.scope.opened? visit with
  | some scope => ⟨scope, (visit.node.id, s.scope) :: s.around⟩
  | none => s

/-- The stack after leaving a node. -/
def leave (s : ScopeStack) (node : Node) : ScopeStack :=
  match s.around with
  | (owner, scope) :: rest => if owner = node.id then ⟨scope, rest⟩ else s
  | [] => s

end ScopeStack

end PureLint
