import PureLint.Diagnostic.Basic
import PureLint.Text.Units

/-!
# Positions

Offsets become lines and columns by a table of the offsets where lines start. The line of an offset
is found by halving the range of lines that it can be on. An offset outside the text counts as the
nearer of its two ends.
-/

namespace PureLint

/-- Where the lines of a text start, and how long the text is, in units. -/
structure LineTable where
  starts : List Nat
  size : Nat

/-- The lines that an offset can be on, from the first index to the last. -/
structure LineRange where
  first : Nat
  last : Nat
  deriving DecidableEq, Repr

/-- The middle line of a range, the second of two. -/
def LineRange.middle (range : LineRange) : Nat := (range.first + range.last + 1) / 2

namespace LineTable

/-- The table of a source text. -/
def ofSource (source : String) : LineTable :=
  let us := Text.units source.toList
  ⟨Text.lineStarts us, us.length⟩

/-- Where the line of this index starts. -/
def startOf (table : LineTable) (index : Nat) : Nat := (table.starts[index]?).getD 0

/-- The part of a range that an offset is on: from the middle line on if this starts at or before
the offset, else the lines before it. -/
def halve (table : LineTable) (offset : Number) (range : LineRange) : LineRange :=
  if offset.reaches (table.startOf range.middle) then ⟨range.middle, range.last⟩
  else ⟨range.first, range.middle - 1⟩

/-- Halving a range of more than one line leaves fewer lines. -/
theorem halve_lt (table : LineTable) (offset : Number) {range : LineRange}
    (h : range.first < range.last) :
    (table.halve offset range).last - (table.halve offset range).first <
      range.last - range.first := by
  unfold halve LineRange.middle
  split
  · simp only
    omega
  · simp only
    omega

/-- The line that is left of a range when it has been halved as long as there is more than one. -/
def search (table : LineTable) (offset : Number) (range : LineRange) : Nat :=
  if range.first < range.last then table.search offset (table.halve offset range)
  else range.first
termination_by range.last - range.first
decreasing_by exact table.halve_lt offset ‹_›

/-- All lines of a table. -/
def allLines (table : LineTable) : LineRange := ⟨0, table.starts.length - 1⟩

/-- The position of an offset: the last line that starts at or before it, and how far it is along
that line. -/
def position (table : LineTable) (offset : Number) : Position :=
  let p := offset.clamp table.size
  let index := table.search p table.allLines
  ⟨index + 1, p.column (table.startOf index)⟩

/-- The span of the line of this index without its newline, empty at the end of the text if there
is no such line. -/
def lineSpan (table : LineTable) (index : Nat) : Span :=
  let start := (table.starts[index]?).getD table.size
  let stop : Int :=
    match table.starts[index + 1]? with
    | some next => (next : Int) - 1
    | none => table.size
  ⟨.int start, .int stop⟩

end LineTable

end PureLint
