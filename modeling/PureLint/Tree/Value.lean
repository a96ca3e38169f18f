import PureLint.Number

/-!
# Values of a syntax tree

What a parser hands over: objects with named fields, arrays, and plain values. Each object carries
an identity, so that two equal objects at different places of a tree stay apart.
-/

namespace PureLint

/-- A value in a parse result. -/
inductive Value where
  | undefined
  | null
  | bool (b : Bool)
  | number (x : Number)
  | text (s : String)
  | bigint (digits : String)
  | array (items : List Value)
  | object (id : Nat) (fields : List (String × Value))
  deriving Inhabited

namespace Value

/-- The entry of a field, if it is there and is a text. -/
def textField? (fields : List (String × Value)) (key : String) : Option String :=
  match fields.lookup key with
  | some (.text s) => some s
  | _ => none

/-- The entry of a field, if it is there and is a number. -/
def numberField? (fields : List (String × Value)) (key : String) : Option Number :=
  match fields.lookup key with
  | some (.number x) => some x
  | _ => none

mutual

/-- The text of a value, if it has one: an array joins its items by commas, and an object shows no
contents. An object with a field in the place of the member that makes the text has none. -/
def text? : Value → Option String
  | .undefined => some "undefined"
  | .null => some "null"
  | .bool b => some (if b then "true" else "false")
  | .number x => some x.text
  | .text s => some s
  | .bigint digits => some digits
  | .array items => (itemTexts? items).map (",".intercalate ·)
  | .object _ fields =>
    if (fields.lookup "toString").isSome then none else some "[object Object]"

/-- The texts of an array's items, where a missing value leaves an empty text. -/
def itemTexts? : List Value → Option (List String)
  | [] => some []
  | .undefined :: rest => (itemTexts? rest).map ("" :: ·)
  | .null :: rest => (itemTexts? rest).map ("" :: ·)
  | item :: rest => do return (← text? item) :: (← itemTexts? rest)

end

mutual

/-- The identities of the objects in a value, outermost first. -/
def ids : Value → List Nat
  | .array items => itemIds items
  | .object id fields => id :: fieldIds fields
  | _ => []

/-- The identities of the objects among array items. -/
def itemIds : List Value → List Nat
  | [] => []
  | item :: rest => ids item ++ itemIds rest

/-- The identities of the objects among fields. -/
def fieldIds : List (String × Value) → List Nat
  | [] => []
  | (_, value) :: rest => ids value ++ fieldIds rest

end

end Value

end PureLint
