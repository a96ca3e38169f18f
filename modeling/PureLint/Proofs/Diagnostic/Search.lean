import Mathlib.Data.Nat.Log
import PureLint.Diagnostic.Position

/-!
# The search for a line

Halving a range of lines keeps the line of an offset in the range, so the line that is left in the
end is the line of the offset. About half of the lines are left each time, which bounds how often a
range can be halved. That the search ends, and within its range, does not depend on what the table
holds.
-/

namespace PureLint

namespace LineRange

/-- The line of this index is one of a range. -/
structure Has (range : LineRange) (index : Nat) : Prop where
  first_le : range.first ≤ index
  le_last : index ≤ range.last

/-- A range that is not empty has its middle line. -/
theorem has_middle {range : LineRange} (h : range.first ≤ range.last) :
    range.Has range.middle := by
  unfold middle
  constructor
  · omega
  · omega

end LineRange

namespace LineTable

variable {table : LineTable} {offset : Number} {range : LineRange} {index : Nat}

/-- What halving leaves of a range: the part from the middle line on, or the part before it. -/
theorem halve_cases (table : LineTable) (offset : Number) (range : LineRange) :
    (offset.reaches (table.startOf range.middle) = true ∧
      table.halve offset range = ⟨range.middle, range.last⟩) ∨
    (offset.reaches (table.startOf range.middle) = false ∧
      table.halve offset range = ⟨range.first, range.middle - 1⟩) := by
  unfold halve
  cases offset.reaches (table.startOf range.middle) with
  | true => exact Or.inl ⟨rfl, if_pos rfl⟩
  | false => exact Or.inr ⟨rfl, if_neg Bool.false_ne_true⟩

/-! ## The search ends -/

/-- Halving a range of more than one line leaves a range within it that is not empty. -/
theorem halve_within (table : LineTable) (offset : Number) (h : range.first < range.last) :
    range.first ≤ (table.halve offset range).first ∧
      (table.halve offset range).first ≤ (table.halve offset range).last ∧
      (table.halve offset range).last ≤ range.last := by
  have hmiddle : range.middle = (range.first + range.last + 1) / 2 := rfl
  rcases halve_cases table offset range with ⟨-, heq⟩ | ⟨-, heq⟩
  · rw [heq]
    refine ⟨?_, ?_, le_rfl⟩
    · simp only
      omega
    · simp only
      omega
  · rw [heq]
    refine ⟨le_rfl, ?_, ?_⟩
    · simp only
      omega
    · simp only
      omega

/-- Halving a range of more than one line leaves half of the lines, rounded up, at most. -/
theorem size_halve_le (table : LineTable) (offset : Number) (h : range.first < range.last) :
    (table.halve offset range).last - (table.halve offset range).first + 1 ≤
      (range.last - range.first + 1 + 1) / 2 := by
  have hmiddle : range.middle = (range.first + range.last + 1) / 2 := rfl
  rcases halve_cases table offset range with ⟨-, heq⟩ | ⟨-, heq⟩
  · rw [heq]
    simp only
    omega
  · rw [heq]
    simp only
    omega

/-- A search ends at a line of its range. -/
theorem has_search (table : LineTable) (offset : Number) (h : range.first ≤ range.last) :
    range.Has (table.search offset range) := by
  fun_induction table.search offset range with
  | case1 range hlt ih =>
    obtain ⟨hfirst, hle, hlast⟩ := halve_within table offset hlt
    obtain ⟨hfirst', hlast'⟩ := ih hle
    exact ⟨hfirst.trans hfirst', hlast'.trans hlast⟩
  | case2 range _ => exact ⟨le_rfl, h⟩

/-- Halving a range this often leaves the one line of an index, and halving it less often leaves
more lines. -/
def HalvesTo (table : LineTable) (offset : Number) (range : LineRange) (halvings index : Nat) :
    Prop :=
  (table.halve offset)^[halvings] range = ⟨index, index⟩ ∧
    ∀ earlier < halvings, ((table.halve offset)^[earlier] range).first <
      ((table.halve offset)^[earlier] range).last

/-- A range is halved until the line is left that the search ends at. This takes no more halvings
than it takes doublings to come from one line to all of the range. -/
theorem exists_halvesTo (table : LineTable) (offset : Number) (h : range.first ≤ range.last) :
    ∃ halvings ≤ Nat.clog 2 (range.last - range.first + 1),
      table.HalvesTo offset range halvings (table.search offset range) := by
  fun_induction table.search offset range with
  | case1 range hlt ih =>
    obtain ⟨-, hle, -⟩ := halve_within table offset hlt
    obtain ⟨halvings, hbound, hend, hbefore⟩ := ih hle
    refine ⟨halvings + 1, ?_, hend, ?_⟩
    · have hhalf := Nat.clog_mono_right 2 (size_halve_le table offset hlt)
      have hclog : Nat.clog 2 (range.last - range.first + 1) =
          Nat.clog 2 ((range.last - range.first + 1 + 1) / 2) + 1 :=
        Nat.clog_of_two_le Nat.one_lt_two (by omega)
      omega
    · intro earlier hearlier
      cases earlier with
      | zero => exact hlt
      | succ earlier => exact hbefore earlier (Nat.lt_of_succ_lt_succ hearlier)
  | case2 range hnot =>
    have hlast : range.last = range.first := by omega
    have heq : range = ⟨range.first, range.first⟩ := by
      rw [LineRange.mk.injEq, hlast]
      exact ⟨rfl, rfl⟩
    refine ⟨0, Nat.zero_le _, heq, ?_⟩
    intro earlier hearlier
    exact absurd hearlier (Nat.not_lt_zero _)

/-! ## The line that it ends at -/

/-- An offset is on the line of this index: the lines that start at or before it are those up to
this one. -/
def IsOn (table : LineTable) (offset : Number) (index : Nat) : Prop :=
  ∀ other < table.starts.length, offset.reaches (table.startOf other) = true ↔ other ≤ index

/-- Halving a range keeps the line that an offset is on. -/
theorem IsOn.has_halve (hon : table.IsOn offset index) (h : range.Has index)
    (hlast : range.last < table.starts.length) : (table.halve offset range).Has index := by
  have hmiddle := LineRange.has_middle (h.first_le.trans h.le_last)
  have hdecides := hon range.middle (hmiddle.le_last.trans_lt hlast)
  rcases halve_cases table offset range with ⟨hreaches, heq⟩ | ⟨hreaches, heq⟩
  · rw [heq]
    exact ⟨hdecides.mp hreaches, h.le_last⟩
  · have hbefore : ¬range.middle ≤ index := by
      rw [← hdecides, hreaches]
      exact Bool.false_ne_true
    rw [heq]
    exact ⟨h.first_le, Nat.le_sub_one_of_lt (Nat.lt_of_not_le hbefore)⟩

/-- **A search for the line of an offset finds it.** -/
theorem IsOn.search_eq (hon : table.IsOn offset index) (h : range.Has index)
    (hlast : range.last < table.starts.length) : table.search offset range = index := by
  fun_induction table.search offset range with
  | case1 range hlt ih =>
    exact ih (hon.has_halve h hlast) ((halve_within table offset hlt).2.2.trans_lt hlast)
  | case2 range hnot =>
    obtain ⟨hfirst, hle⟩ := h
    omega

end LineTable

end PureLint
