import PureLint.Text.Units

/-!
# Regular expressions

Regular expressions over 16-bit units and the texts they match. An expression takes away beginnings
of a text, and what it can leave of the text says what it takes; a text matches if an expression can
leave nothing of it. An expression may also look at the next unit without taking it, or ask for the
end of the text.
-/

namespace PureLint

/-- A set of units: those in one of the ranges or, when negated, those in none of them. -/
structure UnitSet where
  negated : Bool := false
  ranges : List (UInt16 × UInt16)

namespace UnitSet

/-- Whether a unit belongs to the set. -/
def contains (set : UnitSet) (u : UInt16) : Bool :=
  (set.ranges.any fun (first, last) => first ≤ u && u ≤ last) != set.negated

/-- The set of one unit. -/
def only (u : UInt16) : UnitSet := { ranges := [(u, u)] }

/-- The set of no unit. -/
def nothing : UnitSet := { ranges := [] }

/-- The units that do not end a line: all but the line feed, the carriage return and the separators
U+2028 and U+2029. -/
def inLine : UnitSet := { negated := true, ranges := [(10, 10), (13, 13), (0x2028, 0x2029)] }

end UnitSet

/-- A regular expression over 16-bit units. -/
inductive Regex where
  /-- Takes nothing. -/
  | empty
  /-- Takes one unit of the set. -/
  | one (set : UnitSet)
  /-- Takes what the first takes and then what the second takes. -/
  | both (first second : Regex)
  /-- Takes what one of the two takes. -/
  | either (left right : Regex)
  /-- Takes what the inner expression takes, any number of times. -/
  | many (inner : Regex)
  /-- Takes nothing, where the next unit is one of the set. -/
  | next (set : UnitSet)
  /-- Takes nothing, at the end of the text. -/
  | atEnd

namespace Regex

/-- One expression after another. -/
def sequence (parts : List Regex) : Regex := parts.foldr both empty

/-- Exactly these units. -/
def ofUnits (us : List UInt16) : Regex := sequence (us.map fun u => one (.only u))

/-- Exactly this text. -/
def ofChars (cs : List Char) : Regex := ofUnits (Text.units cs)

/-- The expression once or not at all. -/
def optional (r : Regex) : Regex := either r empty

/-- The expression at least once. -/
def atLeastOnce (r : Regex) : Regex := both r (many r)

/-- What is left after taking parts away at most so many times. A part that takes nothing is not
repeated, so the length of the text bounds the repetitions. -/
def repeated (leaves : List UInt16 → List (List UInt16)) : Nat → List UInt16 → List (List UInt16)
  | 0, us => [us]
  | n + 1, us =>
    us :: ((leaves us).filter (·.length < us.length)).flatMap (repeated leaves n)

/-- What an expression can leave of a text by taking its beginning away. -/
def leaves : Regex → List UInt16 → List (List UInt16)
  | empty, us => [us]
  | one _, [] => []
  | one set, u :: rest => if set.contains u then [rest] else []
  | both first second, us => (first.leaves us).flatMap second.leaves
  | either left right, us => left.leaves us ++ right.leaves us
  | many inner, us => repeated inner.leaves us.length us
  | next _, [] => []
  | next set, u :: rest => if set.contains u then [u :: rest] else []
  | atEnd, us => if us.isEmpty then [us] else []

/-- Whether an expression matches a whole text. -/
def accepts (r : Regex) (us : List UInt16) : Bool := (r.leaves us).any List.isEmpty

/-- The empty expression leaves the whole text. -/
@[simp] theorem leaves_empty (us : List UInt16) : empty.leaves us = [us] := by
  cases us <;> rfl

/-- One expression after another leaves what the second leaves of what the first leaves. -/
@[simp] theorem leaves_both (first second : Regex) (us : List UInt16) :
    (both first second).leaves us = (first.leaves us).flatMap second.leaves := by
  cases us <;> rfl

/-- A choice leaves what either of the two leaves. -/
@[simp] theorem leaves_either (left right : Regex) (us : List UInt16) :
    (either left right).leaves us = left.leaves us ++ right.leaves us := by
  cases us <;> rfl

/-- Fixed units leave the rest after them, if the text begins with them. -/
theorem mem_leaves_ofUnits {vs us rest : List UInt16} :
    rest ∈ (ofUnits vs).leaves us ↔ us = vs ++ rest := by
  induction vs generalizing us with
  | nil => simp [ofUnits, sequence, eq_comm]
  | cons v vs ih =>
    have hparts : ofUnits (v :: vs) = both (one (.only v)) (ofUnits vs) := rfl
    rw [hparts, leaves_both, List.mem_flatMap]
    cases us with
    | nil => simp [leaves]
    | cons u us =>
      have hu : (UnitSet.only v).contains u = true ↔ u = v := by
        simp only [UnitSet.contains, UnitSet.only, List.any_cons, List.any_nil, Bool.or_false,
          bne_iff_ne, ne_eq, Bool.not_eq_false, Bool.and_eq_true, decide_eq_true_eq]
        exact ⟨fun h => UInt16.le_antisymm h.2 h.1, fun h => by simp [h]⟩
      by_cases h : u = v
      · subst h
        simp [leaves, hu, ih]
      · simp [leaves, mt hu.mp h, h]

end Regex
end PureLint
