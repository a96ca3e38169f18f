import PureLint.Json.Basic
import PureLint.Tree.Value

/-!
# Numbering the objects of a tree

A tree that is kept as plain data has no identities. They are given to its objects in the order in
which the data names them, an object before those inside it.
-/

namespace PureLint.Value

mutual

/-- The value of a piece of data, with its objects numbered from `next` on, and the next number that
is free. -/
def ofJson (next : Nat) : Json → Value × Nat
  | .null => (.null, next)
  | .bool b => (.bool b, next)
  | .number x => (.number x, next)
  | .text s => (.text s, next)
  | .array items =>
    let (items, next) := ofJsonItems next items
    (.array items, next)
  | .object fields =>
    let (fields, after) := ofJsonFields (next + 1) fields
    (.object next fields, after)

/-- The values of array items. -/
def ofJsonItems (next : Nat) : List Json → List Value × Nat
  | [] => ([], next)
  | item :: rest =>
    let (item, next) := ofJson next item
    let (rest, next) := ofJsonItems next rest
    (item :: rest, next)

/-- The values of fields. -/
def ofJsonFields (next : Nat) : List (String × Json) → List (String × Value) × Nat
  | [] => ([], next)
  | (key, value) :: rest =>
    let (value, next) := ofJson next value
    let (rest, next) := ofJsonFields next rest
    ((key, value) :: rest, next)

end

end PureLint.Value
