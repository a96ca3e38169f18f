import PureLint.Record

/-!
# Breaking off

A check that fails is told in a warning, and the analysis goes on. There are two ways in which it
cannot: a table is asked for a name under which every record answers with a member of its own, and
something was thrown that cannot be made a text for the warning. Then the analysis breaks off, with
no result at all.
-/

namespace PureLint

/-- What an analysis breaks off with. -/
inductive Breakdown where
  /-- A table was asked for the name of a member that every record has. -/
  | inheritedMember (name : String)
  /-- Something that was thrown has no text. -/
  | noText
  deriving DecidableEq, Repr

/-- The message of the error. -/
def Breakdown.message : Breakdown → String
  | .inheritedMember _ => "NAME_POSITIONS[parent.type]?.includes is not a function"
  | .noText => "Cannot convert object to primitive value"

end PureLint
