import PureLint.Config.Issue

/-!
# Validators

A configuration is read by a schema, and the schema is put together from a few readings: of texts,
truth values and options, of lists and records, and of objects field by field. A validator supplies
these readings.
-/

namespace PureLint.Config

/-- Reads a part of a value, given where the part is. -/
abbrev Reader (α : Type) := List Step → Json → Checked α

/-- The readings that a schema is put together from. -/
structure Validator where
  text : Reader String
  truth : Reader Bool
  /-- Reads one of the options. -/
  option (options : List String) : Reader String
  /-- Reads a list item by item. -/
  array {α : Type} (item : Reader α) : Reader (List α)
  /-- Reads an object entry by entry. -/
  record {α : Type} (entry : Reader α) : Reader (List (String × α))
  /-- Reads an object by the fields that are known. -/
  object {α : Type} (known : List Step → List (String × Json) → Checked α) : Reader α

/-- Reads a text. -/
def readText : Reader String
  | _, .text s => .ok s
  | path, value => .fail path (.wrongSort "string" value.sort)

/-- Reads a truth value. -/
def readBool : Reader Bool
  | _, .bool b => .ok b
  | path, value => .fail path (.wrongSort "boolean" value.sort)

/-- Reads one of the options. -/
def readOption (options : List String) : Reader String
  | path, .text s => if options.contains s then .ok s else .fail path (.unknownOption options s)
  | path, value => .fail path (.noOption options value.sort)

/-- Reads a list item by item. -/
def readArray {α : Type} (item : Reader α) : Reader (List α)
  | path, .array items => .all (items.mapIdx fun index value => item (path ++ [.item index]) value)
  | path, value => .fail path (.wrongSort "array" value.sort)

/-- Reads an object entry by entry, of which those under some names are read and not kept. -/
def readRecord {α : Type} (keeps : String → Bool) (entry : Reader α) : Reader (List (String × α))
  | path, .object fields =>
    (Checked.all (fields.map fun (name, value) =>
      (entry (path ++ [.key name]) value).map fun result => (name, result))).map
      fun results => results.filter fun result => keeps result.1
  | path, value => .fail path (.wrongSort "object" value.sort)

/-- Reads an object by the fields that are known. -/
def readObject {α : Type} (known : List Step → List (String × Json) → Checked α) : Reader α
  | path, .object fields => known path fields
  | path, value => .fail path (.wrongSort "object" value.sort)

namespace Validator

/-- The validator whose records keep the entries under these names. -/
def keeping (keeps : String → Bool) : Validator where
  text := readText
  truth := readBool
  option := readOption
  array := readArray
  record := readRecord keeps
  object := readObject

/-- The validator that the program runs with. Its records keep no entry under one name, which is
not documented. -/
def standard : Validator := keeping (· != "__proto__")

end Validator

end PureLint.Config
