import PureLint.Tree.Value

/-!
# Nodes

A node is an object that names its kind and its two offsets. Everything else about it is read
through its fields, which may be missing or hold values of any other sort: `child` and `children`
then find nothing. Children are smaller than their node, which is what recursion over a tree rests
on.
-/

namespace PureLint

/-- A stretch of source text, from an offset up to another. -/
structure Span where
  start : Number
  stop : Number
  deriving Inhabited

/-- An empty span at the beginning of a file. -/
def Span.fileStart : Span := ⟨.int 0, .int 0⟩

/-- An object with a kind and two offsets. -/
structure Node where
  id : Nat
  kind : String
  start : Number
  stop : Number
  fields : List (String × Value)
  deriving Inhabited

/-- The node that a value is, if it is an object with a text `type` and numbers `start` and
`end`. -/
def Value.node? : Value → Option Node
  | .object id fields =>
    match textField? fields "type", numberField? fields "start", numberField? fields "end" with
    | some kind, some start, some stop => some ⟨id, kind, start, stop, fields⟩
    | _, _, _ => none
  | _ => none

namespace Node

/-- The source text that a node covers. -/
def span (n : Node) : Span := ⟨n.start, n.stop⟩

/-- Whether a node is of one of the given kinds. -/
def hasKind (n : Node) (kinds : List String) : Bool := kinds.contains n.kind

/-- Two nodes are one and the same object. -/
def same (m n : Node) : Bool := m.id == n.id

/-- The node in a field. -/
def child (n : Node) (key : String) : Option Node := (n.fields.lookup key).bind Value.node?

/-- The nodes among the items of an array in a field. -/
def children (n : Node) (key : String) : List Node :=
  match n.fields.lookup key with
  | some (.array items) => items.filterMap Value.node?
  | _ => []

/-- The text in a field. -/
def text? (n : Node) (key : String) : Option String := Value.textField? n.fields key

/-- Whether a field holds `true`. -/
def flag (n : Node) (key : String) : Bool :=
  match n.fields.lookup key with
  | some (.bool b) => b
  | _ => false

/-- A measure of the tree below a node. -/
noncomputable def weight (n : Node) : Nat := sizeOf n.fields

/-- An entry is smaller than the fields it is found in. -/
theorem sizeOf_lookup {key : String} {value : Value} {fields : List (String × Value)}
    (h : fields.lookup key = some value) : sizeOf value < sizeOf fields := by
  induction fields with
  | nil => simp at h
  | cons entry rest ih =>
    obtain ⟨k, v⟩ := entry
    rw [List.lookup_cons] at h
    split at h
    · cases h
      simp only [List.cons.sizeOf_spec, Prod.mk.sizeOf_spec]
      omega
    · have := ih h
      simp only [List.cons.sizeOf_spec]
      omega

/-- A node weighs less than the value it is read from. -/
theorem weight_of_node? {value : Value} {n : Node} (h : value.node? = some n) :
    n.weight < sizeOf value := by
  unfold Value.node? at h
  split at h
  · split at h
    · cases h
      simp only [weight, Value.object.sizeOf_spec]
      omega
    · cases h
  · cases h

/-- A child weighs less than its node. -/
theorem weight_child {n c : Node} {key : String} (h : n.child key = some c) :
    c.weight < n.weight := by
  obtain ⟨value, hlookup, hnode⟩ := Option.bind_eq_some_iff.mp h
  exact Nat.lt_trans (weight_of_node? hnode) (sizeOf_lookup hlookup)

/-- An item of an array field weighs less than its node. -/
theorem weight_children {n c : Node} {key : String} (h : c ∈ n.children key) :
    c.weight < n.weight := by
  unfold children at h
  split at h
  · rename_i items hlookup
    obtain ⟨value, hmem, hnode⟩ := List.mem_filterMap.mp h
    have hvalue := List.sizeOf_lt_of_mem hmem
    have harray := sizeOf_lookup hlookup
    have hweight := weight_of_node? hnode
    simp only [Value.array.sizeOf_spec] at harray
    unfold weight at *
    omega
  · cases h

end Node

end PureLint
