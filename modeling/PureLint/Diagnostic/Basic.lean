import PureLint.Tree.Node

/-!
# Diagnostics

A diagnostic is one message of one rule about a stretch of a file, with the position where it
starts.
-/

namespace PureLint

/-- A line and a column, both counted from one. -/
structure Position where
  line : Nat
  column : Number

/-- A message of a rule about a place in a file. -/
structure Diagnostic where
  rule : String
  filePath : String
  message : String
  span : Span
  position : Position

end PureLint
