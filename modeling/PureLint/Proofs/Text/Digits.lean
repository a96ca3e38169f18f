import Mathlib.Data.Nat.Digits.Defs
import PureLint.Rule.Declaration

/-!
# Spelled integers

The decimal digits of a text are read with the first one counting most, and leading zeros are
allowed. What such digits spell, with a sign before them or without one, is said here by the value
of the digits alone, and the readers are shown to find exactly that.
-/

namespace PureLint

namespace Text

/-- A text of one or more decimal digits. -/
structure IsNumeral (ds : List Char) : Prop where
  nonempty : ds ≠ []
  digits : ∀ d ∈ ds, d.isDigit = true

/-- The number that a decimal digit stands for. -/
def digitValue (d : Char) : Nat := d.toNat - '0'.toNat

/-- The number that digits stand for, each ten times as much as the next. -/
def numeralValue (ds : List Char) : Nat := Nat.ofDigits 10 (ds.map digitValue).reverse

/-- A text spells an integer by digits, with a sign before them or without one. -/
inductive Spells : List Char → Int → Prop
  | plain {ds : List Char} : IsNumeral ds → Spells ds (numeralValue ds)
  | plus {ds : List Char} : IsNumeral ds → Spells ('+' :: ds) (numeralValue ds)
  | minus {ds : List Char} : IsNumeral ds → Spells ('-' :: ds) (-numeralValue ds)

variable {cs ds : List Char}

/-- Read from the first digit on, digits have the value that they stand for. -/
theorem digitsValue_eq : digitsValue ds = numeralValue ds := by
  rw [numeralValue, Nat.ofDigits_eq_foldr, List.foldr_reverse, List.foldl_map, digitsValue]
  congr 1
  funext n d
  exact Nat.add_comm _ _

/-- The digits that a text is made of are read, and nothing else is. -/
theorem digits?_eq_some_iff {n : Nat} :
    digits? cs = some n ↔ IsNumeral cs ∧ n = numeralValue cs := by
  rw [digits?, Option.ite_none_left_eq_some, Option.some_inj, digitsValue_eq, eq_comm (b := n)]
  apply and_congr_left'
  simp only [Bool.or_eq_true, Bool.not_eq_true', not_or, List.isEmpty_iff, Bool.not_eq_false,
    List.all_eq_true]
  exact ⟨fun h => ⟨h.1, h.2⟩, fun h => ⟨h.nonempty, h.digits⟩⟩

/-- A sign is no digit. -/
theorem IsNumeral.head_ne {sign : Char} (h : IsNumeral cs) (hsign : sign = '+' ∨ sign = '-') :
    cs ≠ sign :: ds := by
  rintro rfl
  have hdigit := h.digits sign List.mem_cons_self
  rcases hsign with rfl | rfl <;> revert hdigit <;> decide

end Text

namespace Rule

variable {text ds : List Char} {negative : Bool} {n : Nat}

/-- Digits are read with a sign that is known already. -/
theorem map_digits?_eq_some_iff {sign : Bool} :
    (Text.digits? ds).map (fun m => (sign, m)) = some (negative, n) ↔
      Text.IsNumeral ds ∧ negative = sign ∧ n = Text.numeralValue ds := by
  simp only [Option.map_eq_some_iff, Text.digits?_eq_some_iff, Prod.mk.injEq]
  constructor
  · rintro ⟨_, ⟨hdigits, rfl⟩, rfl, rfl⟩
    exact ⟨hdigits, rfl, rfl⟩
  · rintro ⟨hdigits, rfl, rfl⟩
    exact ⟨_, ⟨hdigits, rfl⟩, rfl, rfl⟩

/-- Without a sign, digits are read as they are. -/
theorem signedDigits?_plain (hplus : ∀ ds, text ≠ '+' :: ds) (hminus : ∀ ds, text ≠ '-' :: ds) :
    signedDigits? text = (Text.digits? text).map fun m => (false, m) := by
  rw [signedDigits?]
  · exact hplus
  · exact hminus

/-- A sign and a magnitude are read exactly from the texts that spell the integer they make. -/
theorem exists_signedDigits?_iff {z : Int} :
    (∃ negative n, signedDigits? text = some (negative, n) ∧ signed negative n = z) ↔
      Text.Spells text z := by
  constructor
  · rintro ⟨negative, n, h, rfl⟩
    by_cases hplus : ∃ ds, text = '+' :: ds
    · obtain ⟨ds, rfl⟩ := hplus
      obtain ⟨hdigits, rfl, rfl⟩ := map_digits?_eq_some_iff.mp h
      exact .plus hdigits
    · by_cases hminus : ∃ ds, text = '-' :: ds
      · obtain ⟨ds, rfl⟩ := hminus
        obtain ⟨hdigits, rfl, rfl⟩ := map_digits?_eq_some_iff.mp h
        exact .minus hdigits
      · rw [not_exists] at hplus hminus
        rw [signedDigits?_plain hplus hminus] at h
        obtain ⟨hdigits, rfl, rfl⟩ := map_digits?_eq_some_iff.mp h
        exact .plain hdigits
  · rintro (hdigits | hdigits | hdigits)
    · have hplus (ds : List Char) : text ≠ '+' :: ds := hdigits.head_ne (Or.inl rfl)
      have hminus (ds : List Char) : text ≠ '-' :: ds := hdigits.head_ne (Or.inr rfl)
      refine ⟨false, _, ?_, rfl⟩
      rw [signedDigits?_plain hplus hminus]
      exact map_digits?_eq_some_iff.mpr ⟨hdigits, rfl, rfl⟩
    · exact ⟨false, _, map_digits?_eq_some_iff.mpr ⟨hdigits, rfl, rfl⟩, rfl⟩
    · exact ⟨true, _, map_digits?_eq_some_iff.mpr ⟨hdigits, rfl, rfl⟩, rfl⟩

end Rule

end PureLint
