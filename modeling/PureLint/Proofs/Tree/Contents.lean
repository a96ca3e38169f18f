import PureLint.Tree.Walk

/-!
# The contents of an object

The walk goes down from an object into the same values in which its identities are counted: what
its fields hold, and the items of an array that a field holds. Over these contents one induction
serves for every fact about walks.
-/

namespace PureLint.Value

/-- An object of a kind that covers nothing, at the beginning of a file. -/
def atStart (id : Nat) (kind : String) (fields : List (String × Value)) : Value :=
  .object id (("type", .text kind) :: ("start", .number (.int 0)) :: ("end", .number (.int 0)) ::
    fields)

/-- What the walk goes down into at a field: the items of an array, else the value itself. -/
def held : Value → List Value
  | .array items => items
  | value => [value]

/-- The values that the walk goes down into from the fields of an object, each with its field. -/
def contents (fields : List (String × Value)) : List (String × Value) :=
  fields.flatMap fun (key, value) => value.held.map fun item => (key, item)

/-- The contents of fields are those of the first field and those of the others. -/
theorem contents_cons (key : String) (value : Value) (rest : List (String × Value)) :
    contents ((key, value) :: rest) =
      value.held.map (fun item => (key, item)) ++ contents rest := rfl

/-- The walk over items is the walks over each. -/
theorem itemEvents_eq (parent : Option Node) (key : String) (items : List Value) :
    itemEvents parent key items = items.flatMap (events parent key) := by
  induction items with
  | nil => rfl
  | cons item rest ih => rw [itemEvents, ih, List.flatMap_cons]

/-- The walk over fields is the walks over their contents. -/
theorem fieldEvents_eq (parent : Option Node) (fields : List (String × Value)) :
    fieldEvents parent fields =
      (contents fields).flatMap fun entry => events parent entry.1 entry.2 := by
  induction fields with
  | nil => rfl
  | cons entry rest ih =>
    obtain ⟨key, value⟩ := entry
    rw [contents_cons, List.flatMap_append, ← ih, List.flatMap_map]
    cases value with
    | array items =>
      rw [fieldEvents, itemEvents_eq]
      rfl
    | _ => simp [fieldEvents, held]

/-- The identities in items are those in each. -/
theorem itemIds_eq (items : List Value) : itemIds items = items.flatMap ids := by
  induction items with
  | nil => rfl
  | cons item rest ih => rw [itemIds, ih, List.flatMap_cons]

/-- The identities in fields are those in their contents. -/
theorem fieldIds_eq (fields : List (String × Value)) :
    fieldIds fields = (contents fields).flatMap fun entry => ids entry.2 := by
  induction fields with
  | nil => rfl
  | cons entry rest ih =>
    obtain ⟨key, value⟩ := entry
    rw [contents_cons, List.flatMap_append, ← ih, List.flatMap_map, fieldIds]
    cases value with
    | array items =>
      rw [ids, itemIds_eq]
      rfl
    | _ => simp [held]

/-- A value is no smaller than what is held in it. -/
theorem sizeOf_held {value item : Value} (h : item ∈ value.held) : sizeOf item ≤ sizeOf value := by
  cases value with
  | array items =>
    have hitem : sizeOf item < sizeOf items := List.sizeOf_lt_of_mem h
    simp only [Value.array.sizeOf_spec]
    omega
  | _ => exact Nat.le_of_eq (congrArg sizeOf (List.eq_of_mem_singleton h))

/-- The contents of an object are smaller than the object. -/
theorem sizeOf_contents {id : Nat} {fields : List (String × Value)} {entry : String × Value}
    (h : entry ∈ contents fields) : sizeOf entry.2 < sizeOf (Value.object id fields) := by
  obtain ⟨⟨key, value⟩, hfield, hentry⟩ := List.mem_flatMap.mp h
  obtain ⟨item, hitem, rfl⟩ := List.mem_map.mp hentry
  have hheld := sizeOf_held hitem
  have hmem := List.sizeOf_lt_of_mem hfield
  simp only [Prod.mk.sizeOf_spec] at hmem
  simp only [Value.object.sizeOf_spec]
  omega

/-- Induction along the walk: what holds of an object if it holds of its contents, and of every
value that is no object, holds of all values. -/
@[elab_as_elim]
theorem inductionOnContents {motive : Value → Prop}
    (object : ∀ id fields, (∀ entry ∈ contents fields, motive entry.2) → motive (.object id fields))
    (other : ∀ value, (∀ id fields, value ≠ .object id fields) → motive value) (value : Value) :
    motive value := by
  match value with
  | .object id fields =>
    exact object id fields fun entry hentry =>
      have hsmaller := @sizeOf_contents id fields entry hentry
      inductionOnContents object other entry.2
  | .undefined | .null | .bool _ | .number _ | .text _ | .bigint _ | .array _ =>
    exact other _ fun _ _ h => by cases h
termination_by sizeOf value
decreasing_by exact hsmaller

/-- A value that is no object is not walked. -/
theorem events_of_ne_object {value : Value} (h : ∀ id fields, value ≠ .object id fields)
    (parent : Option Node) (key : String) : value.events parent key = [] := by
  cases value with
  | object id fields => exact absurd rfl (h id fields)
  | _ => rfl

/-- The node that an object is has the object's identity and fields. -/
theorem node?_object {id : Nat} {fields : List (String × Value)} {node : Node}
    (h : (object id fields).node? = some node) :
    node.id = id ∧ node.fields = fields ∧ (textField? fields "type").isSome := by
  unfold node? at h
  simp only at h
  split at h
  · rename_i htype _ _
    cases h
    exact ⟨rfl, rfl, by simp [htype]⟩
  · cases h

/-- The walk at an object: it visits a node and goes on to the contents, goes on to the contents of
an object that is no node, or stops at an object without a text `type`. -/
theorem events_object_cases (id : Nat) (fields : List (String × Value)) (parent : Option Node)
    (key : String) :
    (∃ node : Node, (object id fields).node? = some node ∧
      (object id fields).events parent key =
        .enter ⟨node, parent, some key⟩ ::
          (fieldEvents (some node) fields ++ [.leave ⟨node, parent, some key⟩])) ∨
    ((object id fields).node? = none ∧ (textField? fields "type").isSome ∧
      (object id fields).events parent key = fieldEvents none fields) ∨
    (textField? fields "type" = none ∧ (object id fields).events parent key = []) := by
  rw [events]
  cases htype : textField? fields "type" with
  | none => exact Or.inr (Or.inr ⟨rfl, rfl⟩)
  | some kind =>
    cases hnode : (object id fields).node? with
    | none => exact Or.inr (Or.inl ⟨rfl, rfl, rfl⟩)
    | some node => exact Or.inl ⟨node, rfl, rfl⟩

section WalkInduction

variable {P : List Event → Prop} (nil : P [])
  (append : ∀ {first second : List Event}, P first → P second → P (first ++ second))
  (node : ∀ visit : Visit, P (fieldEvents (some visit.node) visit.node.fields) →
    P (.enter visit :: (fieldEvents (some visit.node) visit.node.fields ++ [.leave visit])))

include nil append

/-- What holds of the walk over each of the contents holds of the walk over fields. -/
theorem of_contents {fields : List (String × Value)} {parent : Option Node}
    (h : ∀ entry ∈ contents fields, P (events parent entry.1 entry.2)) :
    P (fieldEvents parent fields) := by
  rw [fieldEvents_eq]
  generalize contents fields = entries at h
  induction entries with
  | nil => exact nil
  | cons entry entries ih =>
    rw [List.flatMap_cons]
    apply append
    · exact h entry List.mem_cons_self
    · apply ih
      intro other hother
      exact h other (List.mem_cons_of_mem _ hother)

include node

/-- What holds of no events, of parts one after the other, and of a visit around what is walked
inside its node, holds of every walk over a value. -/
theorem of_walk (value : Value) (parent : Option Node) (key : String) :
    P (value.events parent key) := by
  induction value using inductionOnContents generalizing parent key with
  | object id fields ih =>
    have hfields (parent : Option Node) : P (fieldEvents parent fields) := by
      apply of_contents nil append
      intro entry hentry
      exact ih entry hentry parent entry.1
    rcases events_object_cases id fields parent key with
      ⟨inner, hnode, hevents⟩ | ⟨-, -, hevents⟩ | ⟨-, hevents⟩
    · obtain ⟨-, rfl, -⟩ := node?_object hnode
      rw [hevents]
      exact node ⟨inner, parent, some key⟩ (hfields (some inner))
    · rw [hevents]
      exact hfields none
    · rw [hevents]
      exact nil
  | other value h =>
    rw [events_of_ne_object h]
    exact nil

/-- What holds of every walk over a value holds of every walk inside a node. -/
theorem of_walk_fields (parent : Option Node) (fields : List (String × Value)) :
    P (fieldEvents parent fields) := by
  apply of_contents nil append
  intro entry _
  exact of_walk nil append node entry.2 parent entry.1

end WalkInduction

end PureLint.Value
