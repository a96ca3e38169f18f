import PureLint.Decimal.Shortest

/-!
# Two decimal places

The text of a double with exactly two decimal places: the exact value rounded to the nearest
hundredth, a half going away from zero.
-/

namespace PureLint.Decimal

/-- A count of hundredths with the point set before its last two digits. -/
def hundredthsText (n : Nat) : String :=
  let fraction := n % 100
  toString (n / 100) ++ "." ++ (if fraction < 10 then "0" else "") ++ toString fraction

end PureLint.Decimal

/-- The text with two decimal places. From `10^21` on the shortest text is shown instead. -/
def PureLint.Double.fixedText : Double → String
  | .finite negative m q =>
    let (numerator, denominator) := scaled m q
    if tenTo 21 * denominator ≤ numerator then (Double.finite negative m q).text
    else
      let sign := if negative && m != 0 then "-" else ""
      sign ++ Decimal.hundredthsText (roundHalfUp (100 * numerator) denominator)
  | x => x.text
