import PureLint.Text.Units

/-!
# Distance of words

How many single changes turn one word into another, where a change adds, drops or replaces a unit,
or swaps two that stand together and are changed no further. The table of the distances between the
beginnings of the words is filled row by row.
-/

namespace PureLint.Text

/-- One row of the table, for the unit `c` of the first word and the unit before it. `left` is the
distance just found, `above` is the row above from one place back, and `higher` the row above that
from two places back. -/
def distanceRow (c : UInt16) (before : Option UInt16) :
    List UInt16 → Option UInt16 → Nat → List Nat → List Nat → List Nat
  | u :: us, previous, left, diagonal :: up :: above, higher =>
    let replaced := diagonal + if c = u then 0 else 1
    let best := min (min (up + 1) (left + 1)) replaced
    let swapped :=
      match previous, before, higher with
      | some p, some b, h :: _ => if c = p ∧ b = u then min best (h + 1) else best
      | _, _, _ => best
    let higher := if previous.isSome then higher.drop 1 else higher
    swapped :: distanceRow c before us (some u) swapped (up :: above) higher
  | _, _, _, _, _ => []

/-- The last row of the table, given the two rows above. -/
def distanceRows (word : List UInt16) :
    List UInt16 → Option UInt16 → List Nat → List Nat → List Nat
  | [], _, _, above => above
  | c :: rest, before, higher, above =>
    let first := above.head?.getD 0 + 1
    let row := first :: distanceRow c before word none first above higher
    distanceRows word rest (some c) above row

/-- The distance of two words. -/
def distance (a b : List UInt16) : Nat :=
  let last := distanceRows b a none [] (List.range (b.length + 1))
  last.getLast?.getD 0

end PureLint.Text
