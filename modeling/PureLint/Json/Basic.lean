import PureLint.Number
import PureLint.Record

/-!
# Structured data

The values that a data file holds. The fields of an object are a record: in the order of the file,
with names that spell small natural numbers first, and each name once.
-/

namespace PureLint

/-- A value of a data file. -/
inductive Json where
  | null
  | bool (b : Bool)
  | number (x : Number)
  | text (s : String)
  | array (items : List Json)
  | object (fields : List (String × Json))
  deriving Inhabited

namespace Json

/-- What messages call the sort of a value. -/
def sort : Json → String
  | .null => "null"
  | .bool _ => "boolean"
  | .number _ => "number"
  | .text _ => "string"
  | .array _ => "array"
  | .object _ => "object"

/-- The entry of a field of an object. -/
def field? : Json → String → Option Json
  | .object fields, key => fields.lookup key
  | _, _ => none

end Json

end PureLint
