import PureLint.Tree.Node

/-!
# The walk over a tree

A depth-first walk visits a node, then what its fields hold, in the order of the fields. It goes
down into every object with a text `type`, whether it stands in a field or directly in an array
there, but hands out only nodes: an object without offsets is passed through, and its children
have no parent. The walk is given as the list of its events.
-/

namespace PureLint

/-- A node on the walk, the node it was found in and the field it was found under. -/
structure Visit where
  node : Node
  parent : Option Node
  key : Option String

/-- A step of the walk. -/
inductive Event where
  | enter (visit : Visit)
  | leave (visit : Visit)

namespace Value

mutual

/-- The events of walking a value found under `key` in `parent`. -/
def events (parent : Option Node) (key : String) : Value → List Event
  | .object id fields =>
    match textField? fields "type" with
    | none => []
    | some _ =>
      match (Value.object id fields).node? with
      | some node =>
        let visit : Visit := ⟨node, parent, some key⟩
        .enter visit :: (fieldEvents (some node) fields ++ [.leave visit])
      | none => fieldEvents none fields
  | _ => []

/-- The events of walking the fields of an object. -/
def fieldEvents (parent : Option Node) : List (String × Value) → List Event
  | [] => []
  | (key, .array items) :: rest => itemEvents parent key items ++ fieldEvents parent rest
  | (key, value) :: rest => events parent key value ++ fieldEvents parent rest

/-- The events of walking the items of an array. An array among them is not walked. -/
def itemEvents (parent : Option Node) (key : String) : List Value → List Event
  | [] => []
  | item :: rest => events parent key item ++ itemEvents parent key rest

end

end Value

/-- The events of walking the tree of a node. -/
def Node.events (root : Node) : List Event :=
  let visit : Visit := ⟨root, none, none⟩
  .enter visit :: (Value.fieldEvents (some root) root.fields ++ [.leave visit])

/-- The nodes of a tree in the order the walk enters them. -/
def Node.visits (root : Node) : List Visit :=
  root.events.filterMap fun
    | .enter visit => some visit
    | .leave _ => none

end PureLint
