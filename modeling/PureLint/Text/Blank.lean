/-!
# Blank characters

Which characters count as blank, how a text loses the blanks at its ends, and its first word.
Every blank character lies in the basic plane, so one table serves for characters and for the
16-bit units of `PureLint.Text.Units`.
-/

namespace PureLint.Text

/-- The code points that count as blank: the ASCII controls from tab to carriage return, the space
separators, the line and paragraph separators, and the byte order mark. -/
def isBlankCode (n : Nat) : Bool :=
  (0x09 ≤ n && n ≤ 0x0D) || n == 0x20 || n == 0xA0 || n == 0x1680 ||
    (0x2000 ≤ n && n ≤ 0x200A) || n == 0x2028 || n == 0x2029 || n == 0x202F ||
    n == 0x205F || n == 0x3000 || n == 0xFEFF

/-- A blank character separates words and is dropped by `trim`. -/
def isBlank (c : Char) : Bool := isBlankCode c.toNat

/-- The text from its first character that is not blank. -/
def trimStart (cs : List Char) : List Char := cs.dropWhile isBlank

/-- The text up to its last character that is not blank. -/
def trimEnd (cs : List Char) : List Char := (cs.reverse.dropWhile isBlank).reverse

/-- The text without the blanks at its two ends. -/
def trim (cs : List Char) : List Char := trimEnd (trimStart cs)

/-- The characters before the first blank, none if the text starts with one. -/
def firstWord (cs : List Char) : List Char := cs.takeWhile fun c => !isBlank c

/-- `trim` on strings. -/
def trimString (s : String) : String := String.ofList (trim s.toList)

end PureLint.Text
