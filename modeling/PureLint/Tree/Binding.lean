import PureLint.Tree.Expression

/-!
# Parameters, patterns and annotations

Which names a parameter or a pattern binds, and what type is written at a declaration.
-/

namespace PureLint.Node

/-- The name of a parameter, seen through a default, a rest and a constructor property. -/
def parameterName (param : Node) : Option String :=
  if param.kind = "Identifier" then param.name?
  else if param.kind = "AssignmentPattern" then param.nameAt "left"
  else if param.kind = "RestElement" then param.nameAt "argument"
  else if param.kind = "TSParameterProperty" then
    match _h : param.child "parameter" with
    | some inner => inner.parameterName
    | none => none
  else none
termination_by param.weight
decreasing_by exact weight_child ‹_›

/-- What a parameter wraps: the first node among its `left`, `argument` and `parameter`. -/
def wrapped? (param : Node) : Option Node :=
  (param.child "left").or ((param.child "argument").or (param.child "parameter"))

/-- What a parameter wraps weighs less than the parameter. -/
theorem weight_wrapped {n c : Node} (h : n.wrapped? = some c) : c.weight < n.weight := by
  rcases Option.or_eq_some_iff.mp h with hleft | ⟨-, h⟩
  · exact weight_child hleft
  · rcases Option.or_eq_some_iff.mp h with hargument | ⟨-, hparameter⟩
    · exact weight_child hargument
    · exact weight_child hparameter

/-- Whether a type is written at a parameter or at what it wraps. -/
def hasType (param : Node) : Bool :=
  if (param.child "typeAnnotation").isSome then true
  else
    match _h : param.wrapped? with
    | some inner => inner.hasType
    | none => false
termination_by param.weight
decreasing_by exact weight_wrapped ‹_›

/-- The type in the annotation of a node. -/
def annotatedType (n : Node) : Option Node := do
  let annotation ← n.child "typeAnnotation"
  if annotation.kind = "TSTypeAnnotation" then annotation.child "typeAnnotation"
  else some annotation

/-- The name of the type that a type reference refers to. -/
def typeName? (n : Node) : Option String :=
  if n.kind = "TSTypeReference" then n.nameAt "typeName" else none

/-- The field of a property or rest of an object pattern that holds what it binds. -/
def bindingField (property : Node) : String :=
  if property.kind = "RestElement" then "argument" else "value"

/-- The identifiers that a pattern binds, in the order they are written. -/
def boundIdentifiers (pattern : Node) : List Node :=
  if pattern.kind = "Identifier" then [pattern]
  else if pattern.kind = "ObjectPattern" then
    (pattern.children "properties").attach.flatMap fun ⟨property, _⟩ =>
      match _h : property.child property.bindingField with
      | some inner => inner.boundIdentifiers
      | none => []
  else if pattern.kind = "ArrayPattern" then
    (pattern.children "elements").attach.flatMap fun ⟨element, _⟩ => element.boundIdentifiers
  else if pattern.kind = "AssignmentPattern" then
    match _h : pattern.child "left" with
    | some inner => inner.boundIdentifiers
    | none => []
  else if pattern.kind = "RestElement" then
    match _h : pattern.child "argument" with
    | some inner => inner.boundIdentifiers
    | none => []
  else if pattern.kind = "TSParameterProperty" then
    match _h : pattern.child "parameter" with
    | some inner => inner.boundIdentifiers
    | none => []
  else []
termination_by pattern.weight
decreasing_by
  · exact Nat.lt_trans (weight_child ‹_›) (weight_children ‹_›)
  · exact weight_children ‹_›
  all_goals exact weight_child ‹_›

/-- The identifiers bound by the pattern in a field. -/
def identifiersAt (n : Node) (key : String) : List Node :=
  match n.child key with
  | some pattern => pattern.boundIdentifiers
  | none => []

end PureLint.Node
