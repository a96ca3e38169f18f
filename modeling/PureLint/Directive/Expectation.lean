import PureLint.Lookup
import PureLint.Text.Search
import PureLint.Text.Units
import PureLint.Directive.RuleNames

/-!
# Expectations

A comment can announce that the next line will break certain rules. What was announced is taken out
of the report and noted as seen; what was announced and never seen is reported at the end. Lines are
counted from zero.
-/

namespace PureLint

/-- The rules expected to be broken, and those seen so far. -/
structure Expectations where
  /-- The expected rules by line, ascending. -/
  expected : List (Nat × List String)
  /-- The rules seen so far by line, in the order the lines were first seen. -/
  seen : List (Int × List String) := []

namespace Expectations

/-- The marker of an expectation for the next line. -/
def marker : List Char := "// purets-expect-error".toList

/-- What the line of this index expects of the next one. A line that names no rule expects
nothing. -/
def ofLine (index : Nat) (line : List Char) : Option (Nat × List String) := do
  let rest ← Text.after? marker line
  let rules := Directive.ruleNames rest
  if rules.isEmpty then none else some (index + 1, rules)

/-- The expectations that the text of a file announces, with nothing seen. -/
def ofSource (source : String) : Expectations :=
  let lines := (Text.lines source.toList).map Text.trim
  { expected := (lines.mapIdx ofLine).filterMap id }

/-- The rules expected on a line. -/
def expectedOn (e : Expectations) (line : Int) : List String :=
  ((e.expected.find? fun entry => (entry.1 : Int) == line).map (·.2)).getD []

/-- The rules seen on a line, with repetitions. -/
def seenOn (e : Expectations) (line : Int) : List String := (e.seen.lookup line).getD []

/-- Whether a rule is expected to be broken on a line. -/
def expects (e : Expectations) (line : Int) (rule : String) : Bool :=
  (e.expectedOn line).contains rule

/-- Adds a rule to the end of the list kept for a line. -/
def note (line : Int) (rule : String) : List (Int × List String) → List (Int × List String)
  | [] => [(line, [rule])]
  | (other, rules) :: rest =>
    if other = line then (other, rules ++ [rule]) :: rest else (other, rules) :: note line rule rest

/-- Notes that a rule was broken on a line. -/
def markSeen (e : Expectations) (line : Int) (rule : String) : Expectations :=
  { e with seen := note line rule e.seen }

/-- What was seen does not change what is expected. -/
@[simp] theorem expects_markSeen (e : Expectations) (line other : Int) (rule name : String) :
    (e.markSeen line rule).expects other name = e.expects other name := rfl

/-- Noting a rule for a line leaves the entries of all other lines. -/
theorem lookup_note (line other : Int) (rule : String) (seen : List (Int × List String)) :
    (note line rule seen).lookup other =
      if other = line then some ((seen.lookup line).getD [] ++ [rule]) else seen.lookup other := by
  induction seen with
  | nil => simp [note, lookup_cons_ite]
  | cons entry rest ih =>
    obtain ⟨key, rules⟩ := entry
    rw [note]
    split
    · rename_i h
      subst h
      by_cases h : other = key <;> simp [lookup_cons_ite, h]
    · rename_i h
      simp only [lookup_cons_ite, ih]
      by_cases hk : other = key
      · simp [hk, h]
      · simp [hk, Ne.symm h]

/-- A rule that was seen joins those seen on its line, and no other line changes. -/
theorem seenOn_markSeen (e : Expectations) (line other : Int) (rule : String) :
    (e.markSeen line rule).seenOn other =
      if other = line then e.seenOn line ++ [rule] else e.seenOn other := by
  simp only [seenOn, markSeen, lookup_note]
  split <;> rfl

/-- The expected rules that were never seen, by line. -/
def unseen (e : Expectations) : List (Nat × List String) :=
  e.expected.filterMap fun (line, rules) =>
    let left := rules.filter fun rule => !(e.seenOn line).contains rule
    if left.isEmpty then none else some (line, left)

end Expectations

end PureLint
