import Mathlib.Data.List.Basic
import PureLint.Proofs.Directive.Announcement
import PureLint.Proofs.Directive.Tables

/-!
# Markers of directives

A directive counts wherever its marker is written on a line. The scan is over the lines without the
blanks around them, and as no marker begins or ends with a blank, it finds just the markers that are
on the lines. A source without a marker suppresses and announces nothing.
-/

namespace PureLint

/-! ## Markers within the blanks of a line -/

namespace Text

variable {part cs : List Char}

/-- A part that does not begin with a blank is left when the blanks before the text are dropped. -/
theorem infix_trimStart (h : part <:+: cs) (hhead : part.head?.any isBlank = false) :
    part <:+: trimStart cs := by
  obtain ⟨before, after, rfl⟩ := h
  cases part with
  | nil => exact List.nil_infix
  | cons c part =>
    have hc : isBlank c = false := hhead
    unfold trimStart
    rw [List.append_assoc, List.dropWhile_append]
    split
    · rw [List.cons_append, List.dropWhile_cons_of_neg (by simp [hc])]
      exact (List.prefix_append _ _).isInfix
    · rw [← List.append_assoc]
      exact List.infix_append _ _ _

/-- A part that does not end with a blank is left when the blanks after the text are dropped. -/
theorem infix_trimEnd (h : part <:+: cs) (hlast : part.getLast?.any isBlank = false) :
    part <:+: trimEnd cs := by
  rw [← List.reverse_infix, trimEnd, List.reverse_reverse]
  apply infix_trimStart (List.reverse_infix.mpr h)
  rwa [List.head?_reverse]

/-- A part with no blank at its ends is in a text exactly if it is in what trimming leaves. -/
theorem infix_trim_iff (hhead : part.head?.any isBlank = false)
    (hlast : part.getLast?.any isBlank = false) : part <:+: trim cs ↔ part <:+: cs := by
  constructor
  · intro h
    have hend : trim cs <:+: trimStart cs := by
      rw [← List.reverse_infix, trim, trimEnd, List.reverse_reverse]
      exact (List.dropWhile_suffix _).isInfix
    exact (h.trans hend).trans (List.dropWhile_suffix _).isInfix
  · intro h
    exact infix_trimEnd (infix_trimStart h hhead) hlast

end Text

namespace Directive

/-- The markers of all directives. -/
def markers : List (List Char) :=
  Suppressions.fileMarkers ++
    [Suppressions.nextLineMarker, Suppressions.sameLineMarker, Expectations.marker]

/-- A trimmed line has the markers that the line has. -/
theorem infix_trim_iff {marker line : List Char} (h : marker ∈ markers) :
    marker <:+: Text.trim line ↔ marker <:+: line := by
  have hblank : ∀ marker ∈ markers, marker.head?.any Text.isBlank = false ∧
      marker.getLast?.any Text.isBlank = false := by decide
  exact Text.infix_trim_iff (hblank marker h).1 (hblank marker h).2

/-- No line of a source has the marker of a directive. -/
def Free (source : String) : Prop :=
  ∀ line ∈ Text.lines source.toList, ∀ marker ∈ markers, ¬marker <:+: line

instance (source : String) : Decidable (Free source) :=
  inferInstanceAs (Decidable (∀ line ∈ Text.lines source.toList, _))

/-- In a source without markers nothing comes after one. -/
theorem Free.after? {source : String} (h : Free source) {line marker : List Char}
    (hline : line ∈ Text.lines source.toList) (hmarker : marker ∈ markers) :
    Text.after? marker (Text.trim line) = none := by
  rw [← Option.not_isSome_iff_eq_none, Text.after?_isSome_iff, infix_trim_iff hmarker]
  exact h line hline marker hmarker

end Directive

namespace Suppressions

/-- A file is switched off exactly if a marker stands on one of its lines. -/
theorem wholeFile_ofSource_iff (source : String) :
    (ofSource source).wholeFile = true ↔
      ∃ line ∈ Text.lines source.toList, ∃ marker ∈ fileMarkers, marker <:+: line := by
  have hany : (ofSource source).wholeFile =
      ((Text.lines source.toList).map Text.trim).any marksFile := by
    have hindexed := List.any_map (f := Prod.fst) (p := marksFile)
      (l := ((Text.lines source.toList).map Text.trim).zipIdx)
    rw [List.zipIdx_map_fst] at hindexed
    exact (wholeFile_foldl_takeLine _).trans hindexed.symm
  simp only [hany, List.any_map, List.any_eq_true, Function.comp_apply, marksFile,
    Text.occurs_iff]
  refine exists_congr fun line => and_congr_right fun _ => exists_congr fun marker =>
    and_congr_right fun hmarker => ?_
  exact Directive.infix_trim_iff (List.mem_append_left _ hmarker)

/-- A source without markers has no directives. -/
theorem directives_of_free {source : String} (h : Directive.Free source) :
    directives source = [] := by
  rw [directives, List.flatMap_eq_nil_iff]
  rintro ⟨_, index⟩ hmem
  obtain ⟨line, hline, rfl⟩ := List.mem_map.mp ((List.mem_zipIdx' hmem).2 ▸ List.getElem_mem _)
  have hnext : Text.after? nextLineMarker (Text.trim line) = none := h.after? hline (by decide)
  have hsame : Text.after? sameLineMarker (Text.trim line) = none := h.after? hline (by decide)
  simp [directivesAt, directive?, hnext, hsame]

/-- A source without markers suppresses nothing. -/
theorem covers_of_free {source : String} (h : Directive.Free source) (line : Int) (rule : String) :
    (ofSource source).covers line rule = false := by
  have hfile : ¬(ofSource source).wholeFile = true := by
    rw [wholeFile_ofSource_iff]
    rintro ⟨line, hline, marker, hmarker, hinfix⟩
    exact h line hline marker (List.mem_append_left _ hmarker) hinfix
  rw [← Bool.not_eq_true, (represents_ofSource source).covers_iff (wellFormed_ofSource source),
    directives_of_free h]
  rintro (hwhole | ⟨hon, -⟩)
  · exact hfile hwhole
  · exact hon rfl

end Suppressions

namespace Expectations

/-- A source without markers announces nothing. -/
theorem announced_of_free {source : String} (h : Directive.Free source) :
    announced source = [] := by
  rw [announced, List.flatMap_eq_nil_iff]
  rintro ⟨line, index⟩ hmem
  have hline : line ∈ Text.lines source.toList := (List.mem_zipIdx' hmem).2 ▸ List.getElem_mem _
  have hnone : Text.after? marker (Text.trim line) = none := h.after? hline (by decide)
  simp only [announcedAt, hnone]

end Expectations

end PureLint
