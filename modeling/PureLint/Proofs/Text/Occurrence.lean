import Mathlib.Data.List.TakeWhile
import PureLint.Text.Blank
import PureLint.Text.Search

/-!
# First occurrences

What follows the first occurrence of a pattern is the longest text that follows any occurrence of
it. Blanks around a text do not move the first occurrence of a pattern that neither begins nor ends
with a blank: those before the text are passed over, and those after it stay behind.
-/

namespace PureLint.Text

/-- A pattern occurs in a text with `rest` after it, and does not occur earlier: what follows any
occurrence is the end of what follows this one. -/
structure FollowsFirst (pattern cs rest : List Char) : Prop where
  occurs : pattern ++ rest <:+ cs
  first : ∀ later, pattern ++ later <:+ cs → later <:+ rest

variable {pattern cs rest : List Char}

/-- One text at most follows the first occurrence. -/
theorem FollowsFirst.unique {other : List Char} (h : FollowsFirst pattern cs rest)
    (hother : FollowsFirst pattern cs other) : rest = other :=
  (hother.first rest h.occurs).eq_of_length_le (h.first other hother.occurs).length_le

/-- The text found after a pattern follows its first occurrence. -/
theorem followsFirst_of_after? (h : after? pattern cs = some rest) :
    FollowsFirst pattern cs rest := by
  have hstart {cs : List Char} (hdrop : dropStart? pattern cs = some rest) :
      FollowsFirst pattern cs rest := by
    rw [dropStart?_eq_some_iff.mp hdrop]
    refine ⟨List.suffix_refl _, ?_⟩
    intro later hlater
    have hlength := hlater.length_le
    simp only [List.length_append, Nat.add_le_add_iff_left] at hlength
    exact List.suffix_of_suffix_length_le ((List.suffix_append _ _).trans hlater)
      (List.suffix_append _ _) hlength
  induction cs with
  | nil => exact hstart h
  | cons c cs ih =>
    rw [after?] at h
    split at h
    · rename_i found hfound
      cases h
      exact hstart hfound
    · rename_i hnone
      obtain ⟨hoccurs, hfirst⟩ := ih h
      refine ⟨hoccurs.trans (List.suffix_cons _ _), ?_⟩
      intro later hlater
      rcases List.suffix_cons_iff.mp hlater with heq | hlater
      · rw [dropStart?_eq_some_iff.mpr heq.symm] at hnone
        cases hnone
      · exact hfirst later hlater

/-- **The text found after a pattern is the one that follows its first occurrence.** -/
theorem after?_eq_some_iff : after? pattern cs = some rest ↔ FollowsFirst pattern cs rest := by
  refine ⟨followsFirst_of_after?, ?_⟩
  intro h
  have hfound : (after? pattern cs).isSome := after?_isSome_iff.mpr
    ((List.prefix_append _ _).isInfix.trans h.occurs.isInfix)
  obtain ⟨other, hother⟩ := Option.isSome_iff_exists.mp hfound
  rw [hother, (followsFirst_of_after? hother).unique h]

/-- A text follows the first occurrence of a pattern if there is an occurrence. -/
theorem exists_followsFirst_iff : (∃ rest, FollowsFirst pattern cs rest) ↔ pattern <:+: cs := by
  rw [← after?_isSome_iff, Option.isSome_iff_exists]
  simp only [after?_eq_some_iff]

/-! ## Blanks around the text -/

/-- A pattern that does not begin with a blank is found behind the blanks before a text. -/
theorem after?_trimStart (hhead : pattern.head?.any isBlank = false) (hpattern : pattern ≠ []) :
    after? pattern (trimStart cs) = after? pattern cs := by
  obtain ⟨p, pattern, rfl⟩ := List.exists_cons_of_ne_nil hpattern
  have hp : isBlank p = false := hhead
  induction cs with
  | nil => rfl
  | cons c cs ih =>
    by_cases hc : isBlank c = true
    · have hne : p ≠ c := by
        rintro rfl
        rw [hc] at hp
        cases hp
      have hrest : trimStart (c :: cs) = trimStart cs := List.dropWhile_cons_of_pos hc
      rw [hrest, ih, after?, dropStart?, if_neg hne]
    · have hrest : trimStart (c :: cs) = c :: cs := List.dropWhile_cons_of_neg hc
      rw [hrest]

section

variable {blanks : List Char} (hlast : pattern.getLast?.any isBlank = false)
  (hblanks : ∀ c ∈ blanks, isBlank c = true)

include hlast hblanks

/-- A text begins with a pattern that does not end with a blank whatever blanks come after it. -/
theorem dropStart?_append (cs : List Char) :
    dropStart? pattern (cs ++ blanks) = (dropStart? pattern cs).map (· ++ blanks) := by
  cases hdrop : dropStart? pattern cs with
  | some rest =>
    rw [Option.map_some, dropStart?_eq_some_iff, dropStart?_eq_some_iff.mp hdrop,
      List.append_assoc]
  | none =>
    rw [Option.map_none, ← Option.not_isSome_iff_eq_none]
    intro hsome
    obtain ⟨rest, hrest⟩ := Option.isSome_iff_exists.mp hsome
    have hnever (more : List Char) : cs ≠ pattern ++ more := by
      intro heq
      rw [dropStart?_eq_some_iff.mpr heq] at hdrop
      cases hdrop
    rcases List.append_eq_append_iff.mp (dropStart?_eq_some_iff.mp hrest) with
      ⟨more, hmore, hrest⟩ | ⟨more, hmore, -⟩
    · -- the pattern would end among the blanks
      rcases List.eq_nil_or_concat more with rfl | ⟨front, c, rfl⟩
      · exact hnever [] (by simpa using hmore.symm)
      · have hc : isBlank c = true := hblanks c (by simp [hrest])
        rw [hmore] at hlast
        simp [hc] at hlast
    · exact hnever more hmore

/-- Blanks after a text stay behind what follows the first occurrence of a pattern that does not end
with a blank. -/
theorem after?_append (hpattern : pattern ≠ []) (cs : List Char) :
    after? pattern (cs ++ blanks) = (after? pattern cs).map (· ++ blanks) := by
  induction cs with
  | nil =>
    have hnone : ¬pattern <:+: blanks := by
      intro hpart
      obtain ⟨c, hc⟩ := Option.ne_none_iff_exists'.mp (mt List.getLast?_eq_none_iff.mp hpattern)
      have hblank := hblanks c (hpart.subset (List.mem_of_getLast? hc))
      rw [hc] at hlast
      exact Bool.false_ne_true (hlast.symm.trans hblank)
    have hempty : ¬pattern <:+: [] := fun hinfix => hpattern (List.infix_nil.mp hinfix)
    rw [← after?_isSome_iff, Option.not_isSome_iff_eq_none] at hnone hempty
    rw [List.nil_append, hnone, hempty, Option.map_none]
  | cons c cs ih =>
    have hdrop := dropStart?_append hlast hblanks (c :: cs)
    rw [List.cons_append] at hdrop ⊢
    rw [after?, after?, hdrop]
    cases dropStart? pattern (c :: cs) with
    | some rest => rfl
    | none => exact ih

end

/-- A text is what trimming its end leaves, and blanks. -/
theorem exists_eq_trimEnd_append (cs : List Char) :
    ∃ blanks, cs = trimEnd cs ++ blanks ∧ ∀ c ∈ blanks, isBlank c = true := by
  refine ⟨(cs.reverse.takeWhile isBlank).reverse, ?_, ?_⟩
  · rw [trimEnd, ← List.reverse_append, List.takeWhile_append_dropWhile, List.reverse_reverse]
  · intro c hc
    exact List.mem_takeWhile_imp (List.mem_reverse.mp hc)

/-- Trimming a text takes nothing but blanks from the end of what follows a pattern that neither
begins nor ends with a blank. -/
theorem exists_after?_trim (hhead : pattern.head?.any isBlank = false)
    (hlast : pattern.getLast?.any isBlank = false) (hpattern : pattern ≠ []) (cs : List Char) :
    ∃ blanks, after? pattern cs = (after? pattern (trim cs)).map (· ++ blanks) ∧
      ∀ c ∈ blanks, isBlank c = true := by
  obtain ⟨blanks, hcs, hblanks⟩ := exists_eq_trimEnd_append (trimStart cs)
  refine ⟨blanks, ?_, hblanks⟩
  rw [trim, ← after?_append hlast hblanks hpattern, ← hcs, after?_trimStart hhead hpattern]

end PureLint.Text
