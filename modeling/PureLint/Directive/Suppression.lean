import PureLint.Lookup
import PureLint.Text.Search
import PureLint.Text.Units
import PureLint.Directive.RuleNames

/-!
# Suppressions

Comments that switch rules off: for the whole file, for the next line, or for the line they stand
on. The scan is over the text of the lines, so a directive counts wherever it is written. Lines are
counted from zero.
-/

namespace PureLint

/-- The suppressions of a file. -/
structure Suppressions where
  /-- Whether the whole file is switched off. -/
  wholeFile : Bool := false
  /-- The lines that have a directive, in the order they first got one. -/
  disabledLines : List Int := []
  /-- The rules that directives name, by line, each in the order first named. A line has an entry
  from the first directive on that names a rule. -/
  overrides : List (Int × List String) := []
  deriving DecidableEq, Repr

namespace Suppressions

/-- Either marker switches off the whole file. -/
def fileMarkers : List (List Char) :=
  ["// purets-disable-file".toList, "/* purets-disable-file".toList]

/-- The marker of a directive for the next line. -/
def nextLineMarker : List Char := "// purets-disable-next-line".toList

/-- The marker of a directive for its own line. -/
def sameLineMarker : List Char := "// purets-disable-line".toList

/-- Whether a line switches off the whole file. -/
def marksFile (line : List Char) : Bool := fileMarkers.any fun marker => Text.occurs marker line

/-- Takes over a directive for a line, which names these rules, or none if it is meant for all. The
rules that several directives name for a line are kept together. -/
def disable (s : Suppressions) (line : Int) (rules : List String) : Suppressions :=
  let s := { s with disabledLines := addOnce line s.disabledLines }
  if rules.isEmpty then s
  else
    { s with overrides := updateEntry line (fun named =>
        rules.foldl (fun named rule => addOnce rule named) (named.getD [])) s.overrides }

/-- Takes over the directive for `target` that a line gives with this marker, if it has the
marker. -/
def takeMarker (s : Suppressions) (marker line : List Char) (target : Int) : Suppressions :=
  match Text.after? marker line with
  | some rest => s.disable target (Directive.ruleNames rest)
  | none => s

/-- Takes over what the line of this index gives. A line that switches off the whole file is not
searched for anything else. -/
def takeLine (s : Suppressions) (line : List Char) (index : Nat) : Suppressions :=
  if marksFile line then { s with wholeFile := true }
  else (s.takeMarker nextLineMarker line (index + 1)).takeMarker sameLineMarker line index

/-- The suppressions that the text of a file asks for. -/
def ofSource (source : String) : Suppressions :=
  ((Text.lines source.toList).map Text.trim).zipIdx.foldl
    (fun s (line, index) => s.takeLine line index) {}

/-- Whether a line is switched off, for some rule at least. -/
def coversLine (s : Suppressions) (line : Int) : Bool :=
  s.wholeFile || s.disabledLines.contains line

/-- Whether a rule is switched off on a line. A directive that names no rule is for all of them, but
only if no other directive for the line names one. -/
def covers (s : Suppressions) (line : Int) (rule : String) : Bool :=
  if s.wholeFile then true
  else if s.disabledLines.contains line then
    match s.overrides.lookup line with
    | none => true
    | some rules => rules.isEmpty || rules.contains rule
  else (s.overrides.lookup line).any (·.contains rule)

/-- In a file that is switched off, every rule is off on every line. -/
theorem covers_of_wholeFile {s : Suppressions} (h : s.wholeFile = true) (line : Int)
    (rule : String) : s.covers line rule = true := by
  simp [covers, h]

end Suppressions

end PureLint
