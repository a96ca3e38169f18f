import PureLint.Decimal.Double

/-!
# Whole numbers as doubles

A double has a significand of 53 bits. A whole number of more bits is rounded to the nearest one
that fits, and to the even significand of the two that are equally near. From a certain size on
there is no such double but infinity.
-/

namespace PureLint

/-- Whether a natural number over a power of two is nearer to the next whole number than to its own
whole part, or equally near where the next one is even. -/
def roundsUp (n bits : Nat) : Prop :=
  twoTo bits < 2 * (n % twoTo bits) ∨
    2 * (n % twoTo bits) = twoTo bits ∧ n / twoTo bits % 2 = 1

instance (n bits : Nat) : Decidable (roundsUp n bits) := inferInstanceAs (Decidable (_ ∨ _))

/-- A natural number over a power of two, rounded to the nearest whole number and to the even one
of two that are equally near. -/
def roundHalfEven (n bits : Nat) : Nat :=
  if roundsUp n bits then n / twoTo bits + 1 else n / twoTo bits

/-- A magnitude with the sign that it is given. -/
def signed (negative : Bool) (n : Nat) : Int := if negative then -n else n

namespace Double

/-- How many of the bits of a natural number a significand has no room for. -/
def excess (n : Nat) : Nat := n.log2 + 1 - 53

/-- The natural number that a natural number is rounded to. -/
def rounded (n : Nat) : Nat := roundHalfEven n (excess n) * twoTo (excess n)

/-- The double nearest to a natural number with a sign. -/
def ofNat (negative : Bool) (n : Nat) : Double :=
  if rounded n < twoTo 1024 then .finite negative (roundHalfEven n (excess n)) (excess n)
  else .infinite negative

/-- The double nearest to an integer. -/
def ofInt (n : Int) : Double := ofNat (n < 0) n.natAbs

/-- Whether one double is at most another. Nothing compares to not-a-number. -/
def le : Double → Double → Bool
  | .nan, _ => false
  | _, .nan => false
  | .infinite negative, .infinite other => negative || !other
  | .infinite negative, .finite .. => negative
  | .finite .., .infinite negative => !negative
  | .finite negative m p, .finite other n q =>
    -- both are scaled by the same power of two, to whole numbers
    signed negative (m * twoTo (p - q).toNat) ≤ signed other (n * twoTo (q - p).toNat)

end Double

end PureLint
