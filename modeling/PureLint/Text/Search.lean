/-!
# Finding one text inside another

Tests for a beginning, an end and an occurrence, and the text after a first occurrence. The versions
on strings read the same rules off the characters.
-/

namespace PureLint.Text

/-- The rest of the text after `start`, if the text begins with it. -/
def dropStart? : List Char → List Char → Option (List Char)
  | [], cs => some cs
  | _ :: _, [] => none
  | p :: ps, c :: cs => if p = c then dropStart? ps cs else none

/-- The rest of the text after the first occurrence of `pattern`, `none` if there is no
occurrence. -/
def after? (pattern : List Char) : List Char → Option (List Char)
  | [] => dropStart? pattern []
  | c :: cs =>
    match dropStart? pattern (c :: cs) with
    | some rest => some rest
    | none => after? pattern cs

/-- The text before the first occurrence of `pattern`, `none` if there is no occurrence. -/
def before? (pattern : List Char) : List Char → Option (List Char)
  | [] => (dropStart? pattern []).map fun _ => []
  | c :: cs =>
    match dropStart? pattern (c :: cs) with
    | some _ => some []
    | none => (before? pattern cs).map (c :: ·)

/-- Whether `pattern` occurs somewhere in the text. -/
def occurs (pattern cs : List Char) : Bool := (after? pattern cs).isSome

/-- A text begins with `start` exactly if it is `start` and the rest. -/
theorem dropStart?_eq_some_iff {start cs rest : List Char} :
    dropStart? start cs = some rest ↔ cs = start ++ rest := by
  induction start generalizing cs with
  | nil => simp [dropStart?]
  | cons p start ih =>
    cases cs with
    | nil => simp [dropStart?]
    | cons c cs =>
      by_cases h : p = c
      · simp [dropStart?, h, ih]
      · simp [dropStart?, h, Ne.symm h]

/-- There is text after a pattern exactly if the pattern occurs. -/
theorem after?_isSome_iff {pattern cs : List Char} :
    (after? pattern cs).isSome ↔ pattern <:+: cs := by
  induction cs with
  | nil => cases pattern <;> simp [after?, dropStart?]
  | cons c cs ih =>
    rw [List.infix_cons_iff, after?]
    split
    · rename_i rest hrest
      simp only [Option.isSome_some, true_iff]
      exact Or.inl ⟨rest, (dropStart?_eq_some_iff.mp hrest).symm⟩
    · rename_i hnone
      have hstart : ¬pattern <+: c :: cs := by
        rintro ⟨rest, hrest⟩
        rw [dropStart?_eq_some_iff.mpr hrest.symm] at hnone
        cases hnone
      rw [ih, or_iff_right hstart]

/-- A pattern occurs exactly if it is a part of the text without a gap. -/
theorem occurs_iff {pattern cs : List Char} : occurs pattern cs = true ↔ pattern <:+: cs :=
  after?_isSome_iff

/-- Whether the string begins with `start`. -/
def startsWith (s start : String) : Bool := start.toList.isPrefixOf s.toList

/-- Whether the string ends with `ending`. -/
def endsWith (s ending : String) : Bool := ending.toList.isSuffixOf s.toList

/-- Whether `pattern` occurs somewhere in the string. -/
def contains (s pattern : String) : Bool := occurs pattern.toList s.toList

/-- The string without `start` if it begins with it, else the string itself. -/
def stripStart (s start : String) : String :=
  match dropStart? start.toList s.toList with
  | some rest => String.ofList rest
  | none => s

/-- The string without `ending` if it ends with it. -/
def stripEnd? (s ending : String) : Option String :=
  (dropStart? ending.toList.reverse s.toList.reverse).map fun rest => String.ofList rest.reverse

end PureLint.Text
