/-!
# Decimal digits

The natural number that decimal digits spell. Only the ten ASCII digits count.
-/

namespace PureLint.Text

/-- The number that digits spell, the first digit counting most. -/
def digitsValue (ds : List Char) : Nat :=
  ds.foldl (fun n c => 10 * n + (c.toNat - '0'.toNat)) 0

/-- The number that a text spells, if it has at least one character and is made of digits. -/
def digits? (cs : List Char) : Option Nat :=
  if cs.isEmpty || !cs.all Char.isDigit then none else some (digitsValue cs)

/-- The number that a text spells without leading zeros. -/
def plainDigits? (cs : List Char) : Option Nat :=
  if cs.head? == some '0' && cs.length != 1 then none else digits? cs

end PureLint.Text
