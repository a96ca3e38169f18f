import PureLint.Decimal.Shortest

/-!
# Numbers of a syntax tree

Offsets are whole numbers almost always, and then all arithmetic on them is exact. A tree made by
hand can hold any double; such a number keeps its float.
-/

namespace PureLint

/-- A whole number, or a float that is not a whole number of moderate size. -/
inductive Number where
  | int (n : Int)
  | float (x : Float)
  deriving Inhabited

namespace Number

/-- The number as a float. -/
def toFloat : Number → Float
  | .int n => Float.ofInt n
  | .float x => x

/-- A float as a number: whole numbers below `2^53` in size are held exactly. -/
def ofFloat (x : Float) : Number :=
  match Double.ofFloat x with
  | .finite negative m q =>
    let (numerator, denominator) := scaled m q
    if numerator % denominator = 0 ∧ numerator / denominator < twoTo 53 then
      let n : Int := numerator / denominator
      .int (if negative then -n else n)
    else .float x
  | _ => .float x

/-- The number `digits * 10^exponent`, rounded to a double where it is not a whole number below
`2^53`. Powers far outside the range of doubles go to zero or infinity at once. -/
def ofDecimal (negative : Bool) (digits : Nat) (exponent : Int) : Number :=
  let magnitude := exponent + Decimal.digitCount digits
  if digits = 0 ∨ magnitude < -400 then .int 0
  else if exponent = 0 ∧ digits < twoTo 53 then .int (if negative then -digits else digits)
  else
    let x :=
      if 400 < magnitude then 1.0 / 0.0
      else Float.ofScientific digits (exponent < 0) exponent.natAbs
    ofFloat (if negative then -x else x)

/-- Whether one number is less than another. Nothing is less or greater than not-a-number. -/
def lt : Number → Number → Bool
  | .int m, .int n => m < n
  | x, y => x.toFloat < y.toFloat

/-- The number brought into the range from zero to `limit`. -/
def clamp (limit : Nat) : Number → Number
  | .int n => .int (min (max n 0) limit)
  | .float x =>
    if x ≤ 0 then .int 0
    else if Float.ofNat limit ≤ x then .int limit
    else .float x

/-- Whether a line that starts at `start` starts at or before this offset. -/
def reaches (start : Nat) : Number → Bool
  | .int n => (start : Int) ≤ n
  | .float x => Float.ofNat start ≤ x

/-- The column of an offset on a line that starts at `start`, counted from one. -/
def column (start : Nat) : Number → Number
  | .int n => .int (n - start + 1)
  | .float x => .float (x - Float.ofNat start + 1)

/-- The place in a sequence of `length` elements that the number marks as a bound: fractions are
cut off, and a negative number counts from the end. -/
def bound (length : Nat) : Number → Nat
  | .int n => if n < 0 then (length + n).toNat else min n.toNat length
  | .float x =>
    match Double.ofFloat x with
    | .nan => 0
    | .infinite negative => if negative then 0 else length
    | .finite negative m q =>
      let (numerator, denominator) := scaled m q
      let whole := numerator / denominator
      if !negative || whole = 0 then min whole length else length - whole

/-- The text of the number. -/
def text : Number → String
  | .int n => toString n
  | .float x => (Double.ofFloat x).text

end Number

end PureLint
