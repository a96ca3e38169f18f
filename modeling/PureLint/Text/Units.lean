import PureLint.Text.Blank

/-!
# Sixteen-bit units

Offsets into a source text count the 16-bit units of its UTF-16 form, where a character beyond the
basic plane takes two. This file holds that form, the length it gives a text, the order it puts on
texts, and the splitting of characters into lines, which every offset is reported against.
-/

namespace PureLint.Text

/-- The units of one character: itself, or a surrogate pair beyond the basic plane. -/
def unitsOf (c : Char) : List UInt16 :=
  let n := c.toNat
  if n < 0x10000 then [UInt16.ofNat n]
  else
    let m := n - 0x10000
    [UInt16.ofNat (0xD800 + m / 0x400), UInt16.ofNat (0xDC00 + m % 0x400)]

/-- The units of a text. -/
def units (cs : List Char) : List UInt16 := cs.flatMap unitsOf

/-- The empty text has no units. -/
@[simp] theorem units_nil : units [] = [] := rfl

/-- The units of one text after another are those of both. -/
@[simp] theorem units_append (cs ds : List Char) : units (cs ++ ds) = units cs ++ units ds :=
  List.flatMap_append

/-- The text that units spell. A lone surrogate, which no text holds, becomes the replacement
character. -/
def ofUnits : List UInt16 → List Char
  | [] => []
  | [u] => [lone u]
  | u :: v :: rest =>
    if 0xD800 ≤ u ∧ u < 0xDC00 ∧ 0xDC00 ≤ v ∧ v < 0xE000 then
      Char.ofNat (0x10000 + (u.toNat - 0xD800) * 0x400 + (v.toNat - 0xDC00)) :: ofUnits rest
    else lone u :: ofUnits (v :: rest)
where
  lone (u : UInt16) : Char :=
    if 0xD800 ≤ u ∧ u < 0xE000 then Char.ofNat 0xFFFD else Char.ofNat u.toNat

/-- The length of a text in units. -/
def size (s : String) : Nat := (units s.toList).length

/-- The order of texts by their units, under which a surrogate pair comes before U+E000. -/
def unitsLE (s t : String) : Bool :=
  go (units s.toList) (units t.toList)
where
  go : List UInt16 → List UInt16 → Bool
    | [], _ => true
    | _ :: _, [] => false
    | a :: as, b :: bs => a < b || (a == b && go as bs)

/-- The text put in order by its units, equal texts in the order given. -/
def sortByUnits (texts : List String) : List String := texts.mergeSort unitsLE

/-- Whether all units are blank. A lone surrogate never is. -/
def allBlank (us : List UInt16) : Bool := us.all fun u => isBlankCode u.toNat

/-- The lines of a text, which newline characters separate. -/
def lines (cs : List Char) : List (List Char) := cs.splitOn '\n'

/-- The offset of each line's first unit: zero, and the offset after each newline. -/
def lineStarts (us : List UInt16) : List Nat := 0 :: go 0 us
where
  go (offset : Nat) : List UInt16 → List Nat
    | [] => []
    | u :: rest => if u = 10 then (offset + 1) :: go (offset + 1) rest else go (offset + 1) rest

end PureLint.Text
