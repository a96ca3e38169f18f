import Mathlib.Data.List.Basic
import PureLint.Proofs.Tree.Contents
import PureLint.Tree.Binding

/-!
# Renaming the names in markup

In the markup of a tree, elements, their members and their attributes have names that are nodes of a
kind of their own. Renaming them changes one text field of these nodes and leaves everything else as
it is: a node keeps its identity, its kind, its place and what it binds, and the walk visits the
renamed nodes in the same order.
-/

namespace PureLint

namespace Value

/-- A text changed to another one. Other values stay. -/
def onText (f : String → String) : Value → Value
  | .text s => .text (f s)
  | value => value

mutual

/-- A value with the names in its markup changed. -/
def renameMarkup (f : String → String) : Value → Value
  | .array items => .array (renameItems f items)
  | .object id fields =>
    .object id (renameFields f (textField? fields "type" == some "JSXIdentifier") fields)
  | value => value

/-- Array items with the names in their markup changed. -/
def renameItems (f : String → String) : List Value → List Value
  | [] => []
  | item :: rest => item.renameMarkup f :: renameItems f rest

/-- Fields with the names in their markup changed. The fields of such a name hold it as a text. -/
def renameFields (f : String → String) (isName : Bool) :
    List (String × Value) → List (String × Value)
  | [] => []
  | (key, value) :: rest =>
    (key, if isName && key == "name" then (value.renameMarkup f).onText f
      else value.renameMarkup f) :: renameFields f isName rest

end

variable (f : String → String)

/-- A value in a field with the names in its markup changed. -/
def renameField (isName : Bool) (key : String) (value : Value) : Value :=
  if isName && key == "name" then (value.renameMarkup f).onText f else value.renameMarkup f

/-- Items are changed one by one. -/
theorem renameItems_eq (items : List Value) : renameItems f items = items.map (renameMarkup f) := by
  induction items with
  | nil => rfl
  | cons item rest ih => rw [renameItems, ih, List.map_cons]

/-- Fields are changed one by one. -/
theorem renameFields_eq (isName : Bool) (fields : List (String × Value)) :
    renameFields f isName fields =
      fields.map fun (key, value) => (key, value.renameField f isName key) := by
  induction fields with
  | nil => rfl
  | cons entry rest ih =>
    obtain ⟨key, value⟩ := entry
    rw [renameFields, ih]
    rfl

variable {f} {isName : Bool} {key : String} {fields : List (String × Value)} {value : Value}

/-- A field stays where it is. -/
theorem lookup_renameFields :
    (renameFields f isName fields).lookup key =
      (fields.lookup key).map (renameField f isName key) := by
  rw [renameFields_eq]
  induction fields with
  | nil => rfl
  | cons entry rest ih =>
    obtain ⟨other, value⟩ := entry
    rw [List.map_cons, List.lookup_cons, List.lookup_cons]
    split
    · rename_i h
      rw [Option.map_some, beq_iff_eq.mp h]
    · exact ih

/-- In a field a value is changed inside, and as a text if it is the name of a name. -/
theorem renameField_cases (f : String → String) (isName : Bool) (key : String) (value : Value) :
    value.renameField f isName key = value.renameMarkup f ∨
      value.renameField f isName key = (value.renameMarkup f).onText f := by
  unfold renameField
  split
  · exact Or.inr rfl
  · exact Or.inl rfl

/-- Only the name of a name is changed. -/
theorem renameField_of_ne (h : key ≠ "name") : value.renameField f isName key =
    value.renameMarkup f := by
  rw [renameField, beq_false_of_ne h, Bool.and_false, if_neg Bool.false_ne_true]

/-- Outside names only the values inside are changed. -/
theorem renameField_false : value.renameField f false key = value.renameMarkup f := rfl

/-- A text field stays, unless it is the name of a name. -/
theorem textField?_renameFields (h : isName = false ∨ key ≠ "name") :
    textField? (renameFields f isName fields) key = textField? fields key := by
  have hfield (value : Value) : value.renameField f isName key = value.renameMarkup f :=
    h.elim (fun h => h ▸ renameField_false) renameField_of_ne
  rw [textField?, textField?, lookup_renameFields]
  cases fields.lookup key with
  | none => rfl
  | some value =>
    rw [Option.map_some, hfield]
    cases value <;> rfl

/-- An object keeps its kind. -/
theorem kind_renameFields :
    textField? (renameFields f isName fields) "type" = textField? fields "type" :=
  textField?_renameFields (Or.inr (by decide))

/-- A field that holds a number stays. -/
theorem numberField?_renameFields :
    numberField? (renameFields f isName fields) key = numberField? fields key := by
  rw [numberField?, numberField?, lookup_renameFields]
  cases fields.lookup key with
  | none => rfl
  | some value =>
    rw [Option.map_some]
    rcases renameField_cases f isName key value with h | h <;> rw [h] <;> cases value <;> rfl

end Value

/-- A node with the names in its markup changed. -/
def Node.renameMarkup (f : String → String) (n : Node) : Node :=
  { n with fields := Value.renameFields f (n.kind == "JSXIdentifier") n.fields }

/-- A visit to a node with the names in the markup changed. -/
def Visit.renameMarkup (f : String → String) (visit : Visit) : Visit :=
  ⟨visit.node.renameMarkup f, visit.parent.map (·.renameMarkup f), visit.key⟩

/-- A step of the walk over a tree with the names in its markup changed. -/
def Event.renameMarkup (f : String → String) : Event → Event
  | .enter visit => .enter (visit.renameMarkup f)
  | .leave visit => .leave (visit.renameMarkup f)

variable {f : String → String}

/-! ## Reading a renamed node -/

/-- The node that a changed object is. -/
theorem Value.node?_renameMarkup (value : Value) :
    (value.renameMarkup f).node? = value.node?.map (·.renameMarkup f) := by
  cases value with
  | object id fields =>
    simp only [Value.renameMarkup, node?, kind_renameFields, numberField?_renameFields]
    split
    · rename_i hkind _ _
      rw [Option.map_some, Node.renameMarkup, hkind]
      rfl
    · rfl
  | _ => rfl

/-- Changing a text makes no node of it. -/
theorem Value.node?_renameField (isName : Bool) (key : String) (value : Value) :
    (value.renameField f isName key).node? = value.node?.map (·.renameMarkup f) := by
  rw [← node?_renameMarkup]
  rcases renameField_cases f isName key value with h | h <;> rw [h]
  cases value <;> rfl

namespace Node

variable {n : Node} {key : String}

@[simp] theorem id_renameMarkup : (n.renameMarkup f).id = n.id := rfl

@[simp] theorem kind_renameMarkup : (n.renameMarkup f).kind = n.kind := rfl

@[simp] theorem span_renameMarkup : (n.renameMarkup f).span = n.span := rfl

/-- The child in a field is the changed one. -/
@[simp] theorem child_renameMarkup :
    (n.renameMarkup f).child key = (n.child key).map (·.renameMarkup f) := by
  rw [child, child, renameMarkup, Value.lookup_renameFields]
  cases n.fields.lookup key with
  | none => rfl
  | some value => exact Value.node?_renameField _ key value

/-- The children in a field are the changed ones. -/
@[simp] theorem children_renameMarkup :
    (n.renameMarkup f).children key = (n.children key).map (·.renameMarkup f) := by
  simp only [children, renameMarkup, Value.lookup_renameFields]
  cases n.fields.lookup key with
  | none => rfl
  | some value =>
    rw [Option.map_some]
    rcases Value.renameField_cases f (n.kind == "JSXIdentifier") key value with h | h <;> rw [h]
    all_goals
      cases value with
      | array items =>
        simp only [Value.renameMarkup, Value.onText, Value.renameItems_eq, List.filterMap_map,
          List.map_filterMap]
        exact congrArg (items.filterMap ·) (funext Value.node?_renameMarkup)
      | _ => rfl

/-- A text stays, unless it is the name of a name. -/
theorem text?_renameMarkup (h : n.kind ≠ "JSXIdentifier" ∨ key ≠ "name") :
    (n.renameMarkup f).text? key = n.text? key :=
  Value.textField?_renameFields (h.imp_left beq_false_of_ne)

/-- The name of a name is changed. -/
theorem text?_name_renameMarkup (h : n.kind = "JSXIdentifier") :
    (n.renameMarkup f).text? "name" = (n.text? "name").map f := by
  have hfield (value : Value) : value.renameField f (n.kind == "JSXIdentifier") "name" =
      (value.renameMarkup f).onText f := by
    rw [Value.renameField, h]
    rfl
  simp only [text?, Value.textField?, renameMarkup, Value.lookup_renameFields]
  cases n.fields.lookup "name" with
  | none => rfl
  | some value =>
    rw [Option.map_some, hfield]
    cases value <;> rfl

/-- A flag stays. -/
@[simp] theorem flag_renameMarkup : (n.renameMarkup f).flag key = n.flag key := by
  simp only [flag, renameMarkup, Value.lookup_renameFields]
  cases n.fields.lookup key with
  | none => rfl
  | some value =>
    rw [Option.map_some]
    rcases Value.renameField_cases f (n.kind == "JSXIdentifier") key value with h | h <;> rw [h]
    all_goals cases value <;> rfl

/-- The name of an identifier stays. -/
@[simp] theorem name?_renameMarkup : (n.renameMarkup f).name? = n.name? := by
  rw [name?, name?, kind_renameMarkup]
  split
  · rename_i hkind
    exact text?_renameMarkup (Or.inl (by rw [hkind]; decide))
  · rfl

/-- The name in a field stays. -/
@[simp] theorem nameAt_renameMarkup : (n.renameMarkup f).nameAt key = n.nameAt key := by
  rw [nameAt, nameAt, child_renameMarkup, Option.bind_map]
  exact congrArg (n.child key).bind (funext fun _ => name?_renameMarkup)

/-- The name of a parameter, as that of the parameter inside it. -/
theorem parameterName_eq (param : Node) :
    param.parameterName =
      if param.kind = "Identifier" then param.name?
      else if param.kind = "AssignmentPattern" then param.nameAt "left"
      else if param.kind = "RestElement" then param.nameAt "argument"
      else if param.kind = "TSParameterProperty" then (param.child "parameter").bind parameterName
      else none := by
  rw [parameterName]
  congr 4
  cases param.child "parameter" <;> rfl

/-- The name of a parameter stays. -/
@[simp] theorem parameterName_renameMarkup :
    (n.renameMarkup f).parameterName = n.parameterName := by
  induction n using parameterName.induct with
  | case1 n hkind => simp [parameterName, hkind]
  | case2 n _ hkind => simp [parameterName, hkind]
  | case3 n _ _ hkind => simp [parameterName, hkind]
  | case4 n _ _ _ hkind inner hinner ih =>
    rw [parameterName_eq, parameterName_eq n]
    simp [hkind, hinner, ih]
  | case5 n _ _ _ hkind hnone =>
    rw [parameterName_eq, parameterName_eq n]
    simp [hkind, hnone]
  | case6 n h1 h2 h3 h4 => simp [parameterName, h1, h2, h3, h4]

/-- The identifiers bound by the pattern in a field, in the form that the recursion over patterns
has. -/
theorem identifiersAt_eq (n : Node) (key : String) :
    (match _h : n.child key with
      | some inner => inner.boundIdentifiers
      | none => []) = n.identifiersAt key := by
  unfold identifiersAt
  cases n.child key <;> rfl

/-- What a pattern binds, as the patterns inside it bind it. -/
theorem boundIdentifiers_eq (pattern : Node) :
    pattern.boundIdentifiers =
      if pattern.kind = "Identifier" then [pattern]
      else if pattern.kind = "ObjectPattern" then
        (pattern.children "properties").flatMap fun property =>
          property.identifiersAt property.bindingField
      else if pattern.kind = "ArrayPattern" then
        (pattern.children "elements").flatMap boundIdentifiers
      else if pattern.kind = "AssignmentPattern" then pattern.identifiersAt "left"
      else if pattern.kind = "RestElement" then pattern.identifiersAt "argument"
      else if pattern.kind = "TSParameterProperty" then pattern.identifiersAt "parameter"
      else [] := by
  rw [boundIdentifiers]
  simp only [List.flatMap_subtype, List.unattach_attach]
  refine if_congr Iff.rfl rfl (if_congr Iff.rfl ?_ (if_congr Iff.rfl rfl
    (if_congr Iff.rfl (identifiersAt_eq pattern "left") (if_congr Iff.rfl
      (identifiersAt_eq pattern "argument") (if_congr Iff.rfl
        (identifiersAt_eq pattern "parameter") rfl)))))
  exact congrArg (List.flatMap · _) (funext fun property => identifiersAt_eq property _)

/-- A pattern binds the changed identifiers. -/
@[simp] theorem boundIdentifiers_renameMarkup :
    (n.renameMarkup f).boundIdentifiers = n.boundIdentifiers.map (·.renameMarkup f) := by
  induction n using boundIdentifiers.induct with
  | case1 n hkind => simp [boundIdentifiers, hkind]
  | case2 n _ hkind ih =>
    rw [boundIdentifiers_eq, boundIdentifiers_eq n]
    simp only [kind_renameMarkup, hkind, reduceIte, String.reduceEq, children_renameMarkup,
      List.flatMap_map, List.map_flatMap]
    refine List.flatMap_congr fun property hproperty => ?_
    have hfield : (property.renameMarkup f).bindingField = property.bindingField := rfl
    rw [hfield, identifiersAt, identifiersAt, child_renameMarkup]
    cases hinner : property.child property.bindingField with
    | none => rfl
    | some inner => exact ih property hproperty inner hinner
  | case3 n _ _ hkind ih =>
    rw [boundIdentifiers_eq, boundIdentifiers_eq n]
    simp only [kind_renameMarkup, hkind, reduceIte, String.reduceEq, children_renameMarkup,
      List.flatMap_map, List.map_flatMap]
    exact List.flatMap_congr fun element helement => ih element helement
  | case4 n _ _ _ hkind inner hinner ih
  | case6 n _ _ _ _ hkind inner hinner ih
  | case8 n _ _ _ _ _ hkind inner hinner ih =>
    rw [boundIdentifiers_eq, boundIdentifiers_eq n]
    simp [hkind, identifiersAt, hinner, ih]
  | case5 n _ _ _ hkind hnone
  | case7 n _ _ _ _ hkind hnone
  | case9 n _ _ _ _ _ hkind hnone =>
    rw [boundIdentifiers_eq, boundIdentifiers_eq n]
    simp [hkind, identifiersAt, hnone]
  | case10 n h1 h2 h3 h4 h5 h6 => simp [boundIdentifiers, h1, h2, h3, h4, h5, h6]

/-- The pattern in a field binds the changed identifiers. -/
@[simp] theorem identifiersAt_renameMarkup :
    (n.renameMarkup f).identifiersAt key = (n.identifiersAt key).map (·.renameMarkup f) := by
  rw [identifiersAt, identifiersAt, child_renameMarkup]
  cases n.child key with
  | none => rfl
  | some pattern => exact boundIdentifiers_renameMarkup

end Node

/-! ## Walking a renamed tree -/

namespace Value

variable {parent : Option Node} {key : String}

/-- The walk over fields is the walk over what the first field holds and that over the others. -/
theorem fieldEvents_cons (value : Value) (rest : List (String × Value)) :
    fieldEvents parent ((key, value) :: rest) =
      value.held.flatMap (events parent key) ++ fieldEvents parent rest := by
  rw [fieldEvents_eq, fieldEvents_eq, contents_cons, List.flatMap_append, List.flatMap_map]

/-- What a changed field holds is walked as the changed values that the field holds. -/
theorem flatMap_held_renameField (isName : Bool) (value : Value) :
    (value.renameField f isName key).held.flatMap (events parent key) =
      value.held.flatMap fun item => (item.renameMarkup f).events parent key := by
  rcases renameField_cases f isName key value with h | h <;> rw [h]
  all_goals
    cases value with
    | array items =>
      simp only [renameMarkup, onText, renameItems_eq, held, List.flatMap_map]
    | _ => rfl

/-- If all contents of fields are walked as changed, so are the fields. -/
theorem fieldEvents_renameFields (parent : Option Node) (isName : Bool)
    {fields : List (String × Value)}
    (h : ∀ entry ∈ contents fields, ∀ parent key,
      (entry.2.renameMarkup f).events (parent.map (·.renameMarkup f)) key =
        (entry.2.events parent key).map (·.renameMarkup f)) :
    fieldEvents (parent.map (·.renameMarkup f)) (renameFields f isName fields) =
      (fieldEvents parent fields).map (·.renameMarkup f) := by
  induction fields with
  | nil => rfl
  | cons entry rest ih =>
    obtain ⟨key, value⟩ := entry
    have hrest := ih fun entry hentry => h entry <| by
      rw [contents_cons]
      exact List.mem_append_right _ hentry
    have hrename : renameFields f isName ((key, value) :: rest) =
        (key, value.renameField f isName key) :: renameFields f isName rest := rfl
    rw [hrename, fieldEvents_cons, fieldEvents_cons, hrest, List.map_append,
      flatMap_held_renameField, List.map_flatMap]
    refine congrArg (· ++ _) (List.flatMap_congr fun item hitem => ?_)
    refine h (key, item) ?_ parent key
    rw [contents_cons]
    exact List.mem_append_left _ (List.mem_map_of_mem hitem)

/-- A changed value is walked as the value, with every visit changed. -/
theorem events_renameMarkup (value : Value) (parent : Option Node) (key : String) :
    (value.renameMarkup f).events (parent.map (·.renameMarkup f)) key =
      (value.events parent key).map (·.renameMarkup f) := by
  induction value using inductionOnContents generalizing parent key with
  | object id fields ih =>
    have hnode := node?_renameMarkup (f := f) (object id fields)
    rw [renameMarkup] at hnode ⊢
    rw [events, events, kind_renameFields]
    cases hkind : textField? fields "type" with
    | none => rfl
    | some kind =>
      rw [hkind] at hnode
      simp only [hnode]
      cases hfound : (object id fields).node? with
      | none =>
        simp only [Option.map_none]
        exact fieldEvents_renameFields none _ ih
      | some node =>
        have hfields := fieldEvents_renameFields (some node) (some kind == some "JSXIdentifier") ih
        simp only [Option.map_some] at hfields ⊢
        rw [hfields, List.map_cons, List.map_append]
        rfl
  | other value h =>
    have hother : ∀ id fields, value.renameMarkup f ≠ .object id fields := by
      intro id fields heq
      cases value with
      | object id fields => exact h id fields rfl
      | _ => cases heq
    rw [events_of_ne_object h, events_of_ne_object hother]
    rfl

end Value

namespace Node

/-- A changed tree is walked as the tree, with every visit changed. -/
theorem events_renameMarkup (root : Node) :
    (root.renameMarkup f).events = root.events.map (·.renameMarkup f) := by
  have hfields : Value.fieldEvents ((some root).map (·.renameMarkup f))
      (Value.renameFields f (root.kind == "JSXIdentifier") root.fields) =
      (Value.fieldEvents (some root) root.fields).map (·.renameMarkup f) :=
    Value.fieldEvents_renameFields _ _ fun entry _ => Value.events_renameMarkup entry.2
  rw [events, events, List.map_cons, List.map_append, ← hfields]
  rfl

/-- The changed nodes are visited where the nodes were. -/
theorem visits_renameMarkup (root : Node) :
    (root.renameMarkup f).visits = root.visits.map (·.renameMarkup f) := by
  rw [visits, visits, events_renameMarkup, List.filterMap_map, List.map_filterMap]
  refine congrArg (List.filterMap · root.events) (funext fun event => ?_)
  cases event <;> rfl

end Node

end PureLint
