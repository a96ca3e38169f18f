import PureLint.Breakdown
import PureLint.Tree.Walk
import PureLint.Tree.Expression

/-!
# References

Where an identifier stands decides whether it reads a name, and whether as a value or in a type.
The tables list, by kind of parent, the fields that hold a name and never a reference, the fields
that do so unless the parent is computed, and the fields in type position.
-/

namespace PureLint

/-- How an identifier reads its name. -/
inductive ReferenceKind where
  | value
  | type
  deriving DecidableEq, Repr

/-- The name of a kind of reference. -/
def ReferenceKind.name : ReferenceKind → String
  | .value => "value"
  | .type => "type"

namespace Reference

/-- Fields that hold a name and never a reference. -/
def nameFields : List (String × List String) :=
  [("FunctionDeclaration", ["id"]),
   ("FunctionExpression", ["id"]),
   ("ClassDeclaration", ["id"]),
   ("ClassExpression", ["id"]),
   ("TSDeclareFunction", ["id", "params"]),
   ("TSTypeAliasDeclaration", ["id"]),
   ("TSInterfaceDeclaration", ["id"]),
   ("TSEnumDeclaration", ["id"]),
   ("TSEnumMember", ["id"]),
   ("TSModuleDeclaration", ["id"]),
   ("TSTypeParameter", ["name"]),
   ("TSIndexSignature", ["parameters"]),
   ("TSFunctionType", ["params"]),
   ("TSConstructorType", ["params"]),
   ("TSCallSignatureDeclaration", ["params"]),
   ("TSConstructSignatureDeclaration", ["params"]),
   ("TSMethodSignature", ["params"]),
   ("TSQualifiedName", ["right"]),
   ("LabeledStatement", ["label"]),
   ("BreakStatement", ["label"]),
   ("ContinueStatement", ["label"]),
   ("ImportSpecifier", ["imported", "local"]),
   ("ImportDefaultSpecifier", ["local"]),
   ("ImportNamespaceSpecifier", ["local"]),
   ("ImportAttribute", ["key"]),
   ("ExportSpecifier", ["exported"]),
   ("ExportAllDeclaration", ["exported"]),
   ("MetaProperty", ["meta", "property"])]

/-- Fields that hold a name unless the parent is computed. -/
def keyFields : List (String × String) :=
  [("MemberExpression", "property"),
   ("Property", "key"),
   ("MethodDefinition", "key"),
   ("PropertyDefinition", "key"),
   ("AccessorProperty", "key"),
   ("TSAbstractMethodDefinition", "key"),
   ("TSAbstractPropertyDefinition", "key"),
   ("TSAbstractAccessorProperty", "key"),
   ("TSPropertySignature", "key"),
   ("TSMethodSignature", "key")]

/-- Fields in type position. -/
def typeFields : List (String × String) :=
  [("TSTypeReference", "typeName"),
   ("TSQualifiedName", "left"),
   ("TSTypeQuery", "exprName"),
   ("TSInterfaceHeritage", "expression"),
   ("TSClassImplements", "expression"),
   ("TSTypePredicate", "parameterName")]

/-- The fields of a kind of node that hold a name and never a reference. For the name of a member
that every record has, the look-up finds this member, which is no list of fields. -/
def namesIn (kind : String) : Except Breakdown (List String) :=
  match nameFields.lookup kind with
  | some keys => .ok keys
  | none => if Record.isInherited kind then .error (.inheritedMember kind) else .ok []

/-- What an identifier in this field of this parent is read as, leaving bindings aside, where these
fields of the parent hold names. -/
def readAs (names : List String) (parent : Node) (key : String) : Option ReferenceKind :=
  if names.contains key then none
  else if keyFields.lookup parent.kind = some key ∧ !parent.flag "computed" then none
  else if typeFields.lookup parent.kind = some key then some .type
  else some .value

/-- What an identifier in this field of this parent is read as, leaving bindings aside. -/
def inField (parent : Node) (key : String) : Except Breakdown (Option ReferenceKind) :=
  (namesIn parent.kind).map fun names => readAs names parent key

/-- What `inField` answers where no look-up breaks off, for any kind of parent: one that is not in
the table has no fields for names. -/
def inField? (parent : Node) (key : String) : Option ReferenceKind :=
  readAs ((nameFields.lookup parent.kind).getD []) parent key

/-- No kind of node in the table goes by the name of a member of every record. -/
theorem lookup_nameFields_of_isInherited {kind : String} (h : Record.isInherited kind = true) :
    nameFields.lookup kind = none := by
  have hapart : nameFields.all (fun entry => !Record.isInherited entry.1) = true := by decide
  rw [List.lookup_eq_none_iff]
  rintro ⟨other, keys⟩ hmem
  have hother := List.all_eq_true.mp hapart _ hmem
  rw [bne_iff_ne]
  rintro rfl
  rw [h] at hother
  exact Bool.noConfusion hother

/-- The look-up breaks off for the kinds that go by the name of a member of every record. -/
theorem inField_eq (parent : Node) (key : String) :
    inField parent key =
      if Record.isInherited parent.kind then .error (.inheritedMember parent.kind)
      else .ok (inField? parent key) := by
  unfold inField namesIn inField?
  cases h : Record.isInherited parent.kind with
  | true =>
    rw [lookup_nameFields_of_isInherited h]
    rfl
  | false => cases nameFields.lookup parent.kind <;> rfl

end Reference

/-- How the identifier of a visit reads its name, `none` where it only declares one. The list holds
the identities of the identifiers that are known to bind a name. -/
def Visit.reference (bindings : List Nat) (visit : Visit) :
    Except Breakdown (Option ReferenceKind) :=
  if bindings.contains visit.node.id then .ok none
  else
    match visit.parent, visit.key with
    | some parent, some key => Reference.inField parent key
    | _, _ => .ok (some .value)

/-- What `Visit.reference` answers where no look-up breaks off. -/
def Visit.reference? (bindings : List Nat) (visit : Visit) : Option ReferenceKind :=
  if bindings.contains visit.node.id then none
  else
    match visit.parent, visit.key with
    | some parent, some key => Reference.inField? parent key
    | _, _ => some .value

end PureLint
