import PureLint.Lookup
import PureLint.Text.Digits

/-!
# Records

A record is a list of named entries in the order in which a reader meets them: names that spell a
small natural number come first and ascend, all others follow in the order they were first given.
Giving a name again replaces its entry and keeps its place.
-/

namespace PureLint.Record

/-- The number that a name spells, if it is written without sign or leading zero and is below
`2^32 - 1`. -/
def index? (name : String) : Option Nat :=
  (Text.plainDigits? name.toList).filter fun n => n < 4294967295

/-- Whether an entry named `name` stands before one named `other` although given later. -/
def precedes (name other : String) : Bool :=
  match index? name, index? other with
  | some m, some n => m < n
  | some _, none => true
  | none, _ => false

/-- Gives `name` the entry `value`. -/
def set {α : Type} (name : String) (value : α) : List (String × α) → List (String × α)
  | [] => [(name, value)]
  | (other, old) :: rest =>
    if name = other then (name, value) :: rest
    else if precedes name other then (name, value) :: (other, old) :: rest
    else (other, old) :: set name value rest

/-- The record that giving all the entries in turn leaves. -/
def ofPairs {α : Type} (entries : List (String × α)) : List (String × α) :=
  entries.foldl (fun record entry => set entry.1 entry.2 record) []

/-- The members that every record has without holding an entry for them, each with its text. -/
def inherited : List (String × String) :=
  ("__proto__", "[object Object]") :: ("constructor", native "Object") ::
    ["__defineGetter__", "__defineSetter__", "hasOwnProperty", "__lookupGetter__",
      "__lookupSetter__", "isPrototypeOf", "propertyIsEnumerable", "toString", "valueOf",
      "toLocaleString"].map fun name => (name, native name)
where
  native (name : String) : String := "function " ++ name ++ "() \x7b [native code] \x7d"

/-- Whether every record has a member of this name. -/
def isInherited (name : String) : Bool := (inherited.lookup name).isSome

/-- The text that a record of texts answers for a name: its entry, else the member that every
record has. -/
def answer? (record : List (String × String)) (name : String) : Option String :=
  (record.lookup name).or (inherited.lookup name)

end PureLint.Record
