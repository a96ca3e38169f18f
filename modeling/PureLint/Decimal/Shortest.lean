import PureLint.Decimal.Double

/-!
# The shortest decimal that reads back

Among the decimals that round to a given double, the text of a number shows one with the fewest
digits, and of those the nearest. A decimal is tested against the interval of reals that round to
the double; its ends belong to it exactly when the significand is even. For each count of digits
only the two neighbours of the double on that decimal grid need testing.
-/

namespace PureLint.Decimal

/-- A positive decimal `digits * 10^exponent`. -/
structure Scientific where
  digits : Nat
  exponent : Int
  deriving Repr, DecidableEq

/-- The number of decimal digits of a natural number, one for zero. -/
def digitCount (n : Nat) : Nat := (Nat.toDigits 10 n).length

/-- Whether `digits * 10^e` reads back as `m * 2^q`: it lies between the midpoints to the two
neighbouring doubles. The gap below a power of two is half the gap above it. -/
def readsBack (m : Nat) (q : Int) (d : Nat) (e : Int) : Bool :=
  let halfBelow := m == twoTo 52 && q > -1074
  -- everything is scaled by `4 * 2^(-q)` or its like, so that all terms are whole
  let twos : Nat := (-(q - 2)).toNat
  let extra : Nat := (q - 2).toNat
  let tens : Nat := (-e).toNat
  let value := d * tenTo e.toNat * twoTo twos
  let unit := tenTo tens * twoTo extra
  let upper := (4 * m + 2) * unit
  let lower := (if halfBelow then 4 * m - 1 else 4 * m - 2) * unit
  if m % 2 == 0 then lower ≤ value && value ≤ upper else lower < value && value < upper

/-- The distance from `d * 10^e` to `m * 2^q`, both scaled to whole numbers by the same factor. -/
def distance (m : Nat) (q : Int) (d : Nat) (e : Int) : Nat :=
  let value := d * tenTo e.toNat * twoTo (-q).toNat
  let target := m * twoTo q.toNat * tenTo (-e).toNat
  if value ≤ target then target - value else value - target

/-- The neighbours of `m * 2^q` on the grid of multiples of `10^e`: the whole part and the next. -/
def neighbours (m : Nat) (q : Int) (e : Int) : Nat × Nat :=
  let numerator := m * twoTo q.toNat * tenTo (-e).toNat
  let denominator := twoTo (-q).toNat * tenTo e.toNat
  let d := numerator / denominator
  (d, d + 1)

/-- The decimal on the grid `10^e` that reads back as `m * 2^q`, the nearer one if both do, and the
even one if they are equally near. -/
def onGrid? (m : Nat) (q : Int) (e : Int) : Option Scientific :=
  let (low, high) := neighbours m q e
  match decide (0 < low) && readsBack m q low e, readsBack m q high e with
  | false, false => none
  | true, false => some ⟨low, e⟩
  | false, true => some ⟨high, e⟩
  | true, true =>
    let below := distance m q low e
    let above := distance m q high e
    if below < above || (below == above && low % 2 == 0) then some ⟨low, e⟩ else some ⟨high, e⟩

/-- The exponent of the leading decimal digit of `m * 2^q`. -/
def leadingExponent (m : Nat) (q : Int) : Int :=
  let (numerator, denominator) := scaled m q
  if denominator ≤ numerator then (digitCount (numerator / denominator) : Int) - 1
  else -(digitCount ((denominator - 1) / numerator) : Int)

/-- The first grid, from one digit to seventeen, that holds a decimal reading back. -/
def search (m : Nat) (q : Int) (top : Int) : Nat → Option Scientific
  | 0 => none
  | left + 1 =>
    match onGrid? m q (top - (16 - left)) with
    | some found => some found
    | none => search m q top left

/-- The shortest decimal of `m * 2^q`, for positive `m`, without trailing zeros. -/
def shortest (m : Nat) (q : Int) : Scientific :=
  match search m q (leadingExponent m q) 17 with
  | some found => strip found (digitCount found.digits)
  | none => ⟨m, 0⟩
where
  strip (s : Scientific) : Nat → Scientific
    | 0 => s
    | left + 1 => if s.digits % 10 == 0 && s.digits != 0 then
        strip ⟨s.digits / 10, s.exponent + 1⟩ left else s

/-- The text of a positive decimal: positional while the point falls within the digits or at most
twenty-one places before it or six zeros after it, in powers of ten otherwise. -/
def Scientific.text (s : Scientific) : String :=
  let ds := Nat.toDigits 10 s.digits
  let k : Int := ds.length
  let n := s.exponent + k
  if k ≤ n ∧ n ≤ 21 then String.ofList (ds ++ List.replicate (n - k).toNat '0')
  else if 0 < n ∧ n ≤ 21 then
    String.ofList (ds.take n.toNat ++ '.' :: ds.drop n.toNat)
  else if -6 < n ∧ n ≤ 0 then
    String.ofList ('0' :: '.' :: List.replicate (-n).toNat '0' ++ ds)
  else
    let power := n - 1
    let sign := if power < 0 then "-" else "+"
    let tail := "e" ++ sign ++ toString power.natAbs
    match ds with
    | [d] => d.toString ++ tail
    | d :: rest => d.toString ++ "." ++ String.ofList rest ++ tail
    | [] => tail

end PureLint.Decimal

/-- The text of a double: the shortest decimal that reads back, `0` for either zero. -/
def PureLint.Double.text : Double → String
  | .nan => "NaN"
  | .infinite false => "Infinity"
  | .infinite true => "-Infinity"
  | .finite _ 0 _ => "0"
  | .finite negative m q =>
    (if negative then "-" else "") ++ (Decimal.shortest m q).text
