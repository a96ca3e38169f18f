import PureLint.Proofs.Diagnostic.Accounting

/-!
# Places of diagnostics

A diagnostic is in place if its position is one of the source, and the one at which its span begins.
What is reported about a whole offset always is. A diagnostic about an expectation that was not met
is in place exactly if the source has the line.
-/

namespace PureLint

/-- A span that begins at a whole number. -/
def Span.Whole (span : Span) : Prop := ∃ offset : Int, span.start = .int offset

/-- A diagnostic at a place of a source: on one of its lines, at a column along the line or right
behind it, and where the span begins. -/
structure Diagnostic.InPlace (d : Diagnostic) (source : String) : Prop where
  line : 1 ≤ d.position.line ∧ d.position.line ≤ (Text.lines source.toList).length
  column : ∃ line, (Text.lines source.toList)[d.position.line - 1]? = some line ∧
    ∃ column : Int, d.position.column = .int column ∧
      1 ≤ column ∧ column ≤ (Text.units line).length + 1
  position : d.position = (LineTable.ofSource source).position d.span.start

namespace Text

/-- The place nearest to an offset in a text of this size: its beginning before the text, its end
behind it. -/
def nearest (size : Nat) (offset : Int) : Nat := min (max offset 0).toNat size

/-- Every offset up to the end of all lines lies on a line or right behind it. -/
theorem exists_line_of_lt {lines : List (List Char)} {offset : Nat}
    (h : offset < startOfLine lines lines.length) :
    ∃ index line along, lines[index]? = some line ∧ along ≤ (units line).length ∧
      offset = startOfLine lines index + along := by
  induction lines generalizing offset with
  | nil => simp at h
  | cons first rest ih =>
    rw [List.length_cons, startOfLine_cons_succ] at h
    by_cases hfirst : offset ≤ (units first).length
    · exact ⟨0, first, offset, rfl, hfirst, by simp⟩
    · have hrest : offset - ((units first).length + 1) < startOfLine rest rest.length := by omega
      obtain ⟨index, line, along, hline, halong, hoffset⟩ := ih hrest
      refine ⟨index + 1, line, along, hline, halong, ?_⟩
      rw [startOfLine_cons_succ]
      omega

end Text

namespace LineTable

/-- The position of a whole offset is on the line of the source that has the place nearest to the
offset, as far along the line as the place is. -/
theorem exists_line_of_position (source : String) (offset : Int) :
    ∃ index line along, (Text.lines source.toList)[index]? = some line ∧
      along ≤ (Text.units line).length ∧
      Text.nearest (Text.size source) offset =
        Text.startOfLine (Text.lines source.toList) index + along ∧
      (ofSource source).position (.int offset) = ⟨index + 1, .int (along + 1)⟩ := by
  have hsize : Text.size source + 1 = Text.startOfLine (Text.lines source.toList) _ :=
    Text.length_units_succ source.toList
  have hlt : Text.nearest (Text.size source) offset <
      Text.startOfLine (Text.lines source.toList) (Text.lines source.toList).length := by
    unfold Text.nearest
    omega
  obtain ⟨index, line, along, hline, halong, hplace⟩ := Text.exists_line_of_lt hlt
  refine ⟨index, line, along, hline, halong, hplace, ?_⟩
  rw [← position_within hline halong, ← hplace]
  unfold position
  have hclamp : (Number.int offset).clamp (ofSource source).size =
      (Number.int (Text.nearest (Text.size source) offset)).clamp (ofSource source).size := by
    have htable : (ofSource source).size = Text.size source := rfl
    simp only [Number.clamp, Number.int.injEq, htable, Text.nearest]
    omega
  rw [hclamp]

/-- No position lies behind the last line. -/
theorem line_position_le (source : String) (offset : Number) :
    ((ofSource source).position offset).line ≤ (Text.lines source.toList).length := by
  have hsome : 0 < (Text.lines source.toList).length :=
    List.length_pos_of_ne_nil (List.splitOn_ne_nil '\n' source.toList)
  have hlast : (ofSource source).search (offset.clamp (ofSource source).size)
      (ofSource source).allLines ≤ (Text.lines source.toList).length - 1 := by
    rw [← length_starts]
    exact (has_search _ _ (Nat.zero_le _)).le_last
  exact Nat.add_le_of_le_sub hsome hlast

end LineTable

namespace Diagnostic

/-- What is reported where its span begins is in place if the span begins at a whole number. -/
theorem inPlace_of_whole {d : Diagnostic} {source : String} (hspan : d.span.Whole)
    (hposition : d.position = (LineTable.ofSource source).position d.span.start) :
    d.InPlace source := by
  obtain ⟨offset, hoffset⟩ := hspan
  obtain ⟨index, line, along, hline, halong, -, hplace⟩ :=
    LineTable.exists_line_of_position source offset
  obtain ⟨hindex, -⟩ := List.getElem?_eq_some_iff.mp hline
  have hat : d.position = ⟨index + 1, .int (along + 1)⟩ := by rw [hposition, hoffset, hplace]
  refine ⟨?_, ⟨line, ?_, along + 1, ?_, ?_, ?_⟩, hposition⟩
  · rw [hat]
    exact ⟨Nat.le_add_left _ _, hindex⟩
  · rw [hat]
    exact hline
  · rw [hat]
  · omega
  · omega

end Diagnostic

namespace Sink

/-- A diagnostic about an expectation that was not met is in place exactly if the source has the
line. -/
theorem inPlace_unmetDiagnostic_iff (filePath source : String) (pair : Nat × String) :
    (unmetDiagnostic filePath source pair).InPlace source ↔
      pair.1 < (Text.lines source.toList).length := by
  constructor
  · intro h
    exact h.line.2
  · intro h
    have hline := List.getElem?_eq_getElem h
    have hstart : (LineTable.stretch source pair.1).start =
        .int (Text.startOfLine (Text.lines source.toList) pair.1) := by
      simp only [LineTable.stretch, hline]
    apply Diagnostic.inPlace_of_whole ⟨_, hstart⟩
    exact ((congrArg _ hstart).trans (LineTable.position_startOfLine h)).symm

/-- No message is on a line that the source lacks, so an expectation for such a line is not met. -/
theorem isMet_of_line_le (filePath : String) {source : String} {pair : Nat × String}
    (h : (Text.lines source.toList).length ≤ pair.1) (messages : List Message) :
    (ofSource filePath source).isMet messages pair = false := by
  rw [isMet, List.any_eq_false]
  intro m _ hmeets
  simp only [meets, Bool.and_eq_true, beq_iff_eq] at hmeets
  have hline := LineTable.line_position_le source m.span.start
  have hsame : (((LineTable.ofSource source).position m.span.start).line : Int) - 1 = pair.1 :=
    hmeets.1.2
  omega

end Sink

end PureLint
