import PureLint.Rule.Basic

/-!
# Banned constructs

Rules that ban a construct of the language outright, or nearly so.
-/

namespace PureLint.Rule

/-- Bans classes, other than `Error` subclasses and those in error files. -/
def noClasses : Rule where
  id := "no-classes"
  description := "Flags class declarations and expressions. Only Error subclasses are allowed."
  checks := reporting ["ClassDeclaration", "ClassExpression"] fun context visit =>
    reportIf (!context.file.traits.isErrorFile && visit.node.nameAt "superClass" != some "Error")
      visit "Classes are not allowed except when extending Error"

/-- Bans enums. -/
def noEnums : Rule where
  id := "no-enums"
  description := "Flags enum declarations. Use a union of literal types instead."
  checks := reporting ["TSEnumDeclaration"] fun _ visit =>
    reportIf true visit "Enums are not allowed in pure TypeScript subset"

/-- Bans the delete operator. -/
def noDelete : Rule where
  id := "no-delete"
  description := "Flags the delete operator."
  checks := reporting ["UnaryExpression"] fun _ visit =>
    reportIf (visit.node.text? "operator" == some "delete") visit
      "Delete operator is not allowed in pure TypeScript subset"

/-- Bans do-while loops. -/
def noDoWhile : Rule where
  id := "no-do-while"
  description := "Flags do-while loops."
  checks := reporting ["DoWhileStatement"] fun _ visit =>
    reportIf true visit "do-while statements are not allowed. Use while instead"

/-- What is reported about a property or method that is an accessor. -/
def accessorReports (visit : Visit) : List Report :=
  match visit.node.text? "kind" with
  | some "get" => [visit.node.report "Getters are not allowed in pure TypeScript subset"]
  | some "set" => [visit.node.report "Setters are not allowed in pure TypeScript subset"]
  | _ => []

/-- Bans accessors. -/
def noGettersSetters : Rule where
  id := "no-getters-setters"
  description := "Flags get/set accessors on classes and object literals, and accessor fields."
  checks :=
    reporting ["Property", "MethodDefinition", "TSAbstractMethodDefinition"]
      (fun _ visit => accessorReports visit) ++
    reporting ["AccessorProperty", "TSAbstractAccessorProperty"] fun _ visit =>
      reportIf true visit "Accessor properties (get/set) are not allowed in pure TypeScript subset"

/-- Bans calls of `forEach`. -/
def noForeach : Rule where
  id := "no-foreach"
  description := "Flags .forEach() calls. Use for-of instead."
  checks := reporting ["CallExpression"] fun _ visit =>
    reportIf (visit.node.calleeMember.any (·.property == "forEach")) visit
      "forEach is not allowed in pure TypeScript subset. Use for-of loop instead"

/-- The message about a call that runs text as code. -/
def runsText (usage : String) : String :=
  s!"{usage} is not allowed in pure TypeScript subset due to security risks"

/-- Bans running text as code. -/
def noEvalFunction : Rule where
  id := "no-eval-function"
  description := "Flags eval() and the Function constructor."
  checks :=
    reporting ["CallExpression"] (fun _ visit =>
      match visit.node.calleeName with
      | some "eval" => [visit.node.report (runsText "eval()")]
      | some "Function" => [visit.node.report (runsText "Function()")]
      | _ => []) ++
    reporting ["NewExpression"] fun _ visit =>
      reportIf (visit.node.calleeName == some "Function") visit (runsText "new Function()")

/-- Bans calls of `require`. -/
def noRequire : Rule where
  id := "no-require"
  description := "Flags require() calls."
  checks := reporting ["CallExpression"] fun _ visit =>
    reportIf (visit.node.calleeName == some "require") visit
      "require() is not allowed. Use ES6 import statements instead"

/-- Whether a call is of one of these members of `Object`. -/
def callsObject (methods : List String) (call : Node) : Bool :=
  call.calleeMember.any fun member => member.isOn "Object" && methods.contains member.property

/-- Bans defining properties through `Object`. -/
def noDefineProperty : Rule where
  id := "no-define-property"
  description := "Flags Object.defineProperty and Object.defineProperties."
  checks := reporting ["CallExpression"] fun _ visit =>
    reportIf (callsObject ["defineProperty", "defineProperties"] visit.node) visit
      ("Object.defineProperty is not allowed. " ++
        "Use direct property assignment or object literals instead")

/-- Bans `Object.assign`. -/
def noObjectAssign : Rule where
  id := "no-object-assign"
  description := "Flags Object.assign(). Use object spread instead."
  checks := reporting ["CallExpression"] fun _ visit =>
    reportIf (callsObject ["assign"] visit.node) visit
      "Object.assign is not allowed. Use spread operator (...) instead"

/-- What is reported about an assignment to a member. -/
def memberAssignmentReports (visit : Visit) : List Report :=
  match visit.node.child "left" with
  | none => []
  | some left =>
    let target := left.unparenthesized
    let sample := if target.flag "computed" then "foo[bar] = value" else "foo.bar = value"
    reportIf (target.kind == "MemberExpression") visit
      s!"Member assignments like '{sample}' are not allowed in pure TypeScript subset"

/-- Bans assignments to members, other than in error files. -/
def noMemberAssignments : Rule where
  id := "no-member-assignments"
  description := "Flags assignments to object members. Build a new object instead."
  checks := reporting ["AssignmentExpression"] fun context visit =>
    if context.file.traits.isErrorFile then [] else memberAssignmentReports visit

/-- Whether a type assertion is to `const`. -/
def isConstAssertion (n : Node) : Bool :=
  (n.child "typeAnnotation").any fun type => type.typeName? == some "const"

/-- Bans type assertions other than to `const`. -/
def noAsCast : Rule where
  id := "no-as-cast"
  description := "Flags type assertions other than 'as const'."
  checks :=
    reporting ["TSAsExpression"] (fun _ visit =>
      reportIf (!isConstAssertion visit.node) visit
        ("Type assertion with 'as' is discouraged. " ++
          "Consider using 'satisfies' for type checking or narrowing the type properly")) ++
    reporting ["TSTypeAssertion"] fun _ visit =>
      reportIf (!isConstAssertion visit.node) visit
        ("Type assertion <Type>value is not allowed. " ++
          "Use 'satisfies' operator or proper type narrowing instead")

/-- Bans interfaces that extend nothing. -/
def interfaceExtendsOnly : Rule where
  id := "interface-extends-only"
  description := "Flags interfaces that extend nothing. Use a type alias instead."
  checks := reporting ["TSInterfaceDeclaration"] fun _ visit =>
    let name := (visit.node.nameAt "id").getD ""
    reportIf (visit.node.children "extends").isEmpty visit
      s!"Interface '{name}' without extends is not allowed. Use 'type' instead"

/-- Whether a declarator starts a `Record` from an empty object literal. -/
def isEmptyRecord (declarator : Node) : Bool :=
  match declarator.child "id", declarator.child "init" with
  | some id, some init =>
    let value := init.unparenthesized
    id.annotatedType.any (·.typeName? == some "Record") && value.kind == "ObjectExpression" &&
      (value.children "properties").isEmpty
  | _, _ => false

/-- Bans records that start empty. -/
def noMutableRecord : Rule where
  id := "no-mutable-record"
  description := "Flags Record<K, V> variables initialized with \x7b\x7d. Use a Map instead."
  checks := reporting ["VariableDeclarator"] fun _ visit =>
    reportIf (isEmptyRecord visit.node) visit
      ("Mutable Record<K, V> = \x7b\x7d is not allowed. " ++
        "Use Map instead for mutable key-value collections")

end PureLint.Rule
