import PureLint.Diagnostic.Position
import PureLint.Directive.Suppression
import PureLint.Directive.Expectation

/-!
# The sink of a file

Every message of every rule on a file goes to its sink. The sink drops what a suppression covers,
takes an expected message as seen, and stores all others in the order they come.
-/

namespace PureLint

/-- What has been reported on a file, and the directives that govern it. -/
structure Sink where
  filePath : String
  table : LineTable
  suppressions : Suppressions
  expectations : Expectations
  stored : List Diagnostic := []

namespace Sink

/-- The sink of a source text with its own directives. -/
def ofSource (filePath source : String) : Sink :=
  { filePath := filePath
    table := LineTable.ofSource source
    suppressions := Suppressions.ofSource source
    expectations := Expectations.ofSource source }

/-- What becomes of a message. -/
inductive Fate where
  | suppressed
  | expected
  | kept
  deriving DecidableEq, Repr

/-- The fate of a message of a rule on a line, counted from zero. -/
def fate (s : Sink) (line : Int) (rule : String) : Fate :=
  if s.suppressions.covers line rule then .suppressed
  else if s.expectations.expects line rule then .expected
  else .kept

/-- Takes a message of a rule about a span. -/
def add (s : Sink) (rule message : String) (span : Span) : Sink :=
  let position := s.table.position span.start
  let line : Int := (position.line : Int) - 1
  match s.fate line rule with
  | .suppressed => s
  | .expected => { s with expectations := s.expectations.markSeen line rule }
  | .kept => { s with stored := s.stored ++ [⟨rule, s.filePath, message, span, position⟩] }

/-- The rule under which unseen expectations are reported. -/
def unseenRule : String := "unused-expect-error"

/-- The message about one expected rule that was never seen on a line, counted from zero. -/
def unseenDiagnostic (s : Sink) (line : Nat) (rule : String) : Diagnostic :=
  { rule := unseenRule
    filePath := s.filePath
    message := "Expected error '" ++ rule ++ "' on line " ++ toString (line + 1) ++
      " was not triggered"
    span := s.table.lineSpan line
    position := ⟨line + 1, .int 1⟩ }

/-- The messages about all expectations that were never seen. -/
def unseenDiagnostics (s : Sink) : List Diagnostic :=
  s.expectations.unseen.flatMap fun (line, rules) => rules.map (s.unseenDiagnostic line)

/-- Stores the messages about unseen expectations. -/
def close (s : Sink) : Sink := { s with stored := s.stored ++ s.unseenDiagnostics }

end Sink

end PureLint
