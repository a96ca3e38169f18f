import PureLint.Proofs.Diagnostic.Place

/-!
# Positions as counts

A position can be read off the source by counting: its line tells how many newlines are before the
place, its column how far the place is from the last of them. Such a position tells the place, and
positions are ordered as their places are. The table of line starts and the search in it come to the
same, and count the lines as they are when a source is split at its newlines.
-/

namespace PureLint

namespace Text

/-- The line of a place starts at `start`: at the beginning of the text or behind a newline, and no
newline is between there and the place. -/
structure LineStartsAt (us : List UInt16) (place start : Nat) : Prop where
  le : start ≤ place
  begins : start = 0 ∨ ∃ newline, us[newline]? = some 10 ∧ start = newline + 1
  unbroken : ∀ index, start ≤ index → index < place → us[index]? ≠ some 10

variable {cs line : List Char} {index along : Nat}

/-- The first line of a text has no newline. It is all of the text, or a newline and the other lines
come after it. -/
theorem first_line_cases (cs : List Char) :
    ∃ first rest, lines cs = first :: rest ∧ 10 ∉ units first ∧
      ((rest = [] ∧ units cs = units first) ∨
        ∃ more, rest = lines more ∧ units cs = units first ++ 10 :: units more) := by
  induction cs with
  | nil => exact ⟨[], [], rfl, List.not_mem_nil, Or.inl ⟨rfl, rfl⟩⟩
  | cons c cs ih =>
    by_cases hc : c = '\n'
    · subst hc
      exact ⟨[], lines cs, lines_cons_newline cs, List.not_mem_nil, Or.inr ⟨cs, rfl, rfl⟩⟩
    · obtain ⟨first, rest, hlines, hfirst, hcases⟩ := ih
      have hunits (ds : List Char) : units (c :: ds) = unitsOf c ++ units ds := rfl
      refine ⟨c :: first, rest, lines_cons_of_ne hc hlines, ?_, ?_⟩
      · rw [hunits, List.mem_append]
        rintro (hnewline | hnewline)
        · exact newline_notMem_unitsOf hc hnewline
        · exact hfirst hnewline
      · rcases hcases with ⟨hrest, heq⟩ | ⟨more, hrest, heq⟩
        · exact Or.inl ⟨hrest, by rw [hunits, hunits, heq]⟩
        · exact Or.inr ⟨more, hrest, by rw [hunits, hunits, heq, List.append_assoc]⟩

/-- Before a line are as many newlines as lines, the last of them right before it, and on the line
there is none. -/
theorem exists_units_around_line (h : (lines cs)[index]? = some line) :
    ∃ before after, units cs = before ++ units line ++ after ∧
      before.length = startOfLine (lines cs) index ∧ before.count 10 = index ∧
      (before = [] ∨ ∃ front, before = front ++ [10]) ∧ 10 ∉ units line := by
  induction index generalizing cs with
  | zero =>
    obtain ⟨first, rest, hlines, hfirst, hcases⟩ := first_line_cases cs
    have heq : first = line := by simpa [hlines] using h
    subst heq
    rcases hcases with ⟨-, hunits⟩ | ⟨more, -, hunits⟩
    · exact ⟨[], [], by simp [hunits], by simp, rfl, Or.inl rfl, hfirst⟩
    · exact ⟨[], 10 :: units more, by simp [hunits], by simp, rfl, Or.inl rfl, hfirst⟩
  | succ index ih =>
    obtain ⟨first, rest, hlines, hfirst, hcases⟩ := first_line_cases cs
    rw [hlines, List.getElem?_cons_succ] at h
    rcases hcases with ⟨rfl, -⟩ | ⟨more, rfl, hunits⟩
    · simp at h
    · obtain ⟨before, after, hmore, hlength, hcount, hend, hline⟩ := ih h
      have hnone : (units first).count 10 = 0 := List.count_eq_zero.mpr hfirst
      refine ⟨units first ++ 10 :: before, after, ?_, ?_, ?_, Or.inr ?_, hline⟩
      · rw [hunits, hmore]
        simp
      · rw [hlines, startOfLine_cons_succ, ← hlength, List.length_append, List.length_cons]
        omega
      · rw [List.count_append, List.count_cons_self, hnone, hcount]
        omega
      · rcases hend with rfl | ⟨front, rfl⟩
        · exact ⟨units first, rfl⟩
        · exact ⟨units first ++ 10 :: front, by simp⟩

/-- Before a place on a line are as many newlines as lines before that one. -/
theorem count_take_of_line (h : (lines cs)[index]? = some line)
    (halong : along ≤ (units line).length) :
    ((units cs).take (startOfLine (lines cs) index + along)).count 10 = index := by
  obtain ⟨before, after, hunits, hlength, hcount, -, hline⟩ := exists_units_around_line h
  have hnone : ((units line).take along).count 10 = 0 :=
    List.count_eq_zero.mpr fun hnewline => hline (List.mem_of_mem_take hnewline)
  rw [hunits, List.append_assoc, ← hlength, List.take_length_add_append,
    List.take_append_of_le_length halong, List.count_append, hcount, hnone, Nat.add_zero]

/-- The line of a place on a line starts where that line does. -/
theorem lineStartsAt_of_line (h : (lines cs)[index]? = some line)
    (halong : along ≤ (units line).length) :
    LineStartsAt (units cs) (startOfLine (lines cs) index + along)
      (startOfLine (lines cs) index) := by
  obtain ⟨before, after, hunits, hlength, -, hend, hline⟩ := exists_units_around_line h
  refine ⟨Nat.le_add_right _ _, ?_, ?_⟩
  · rcases hend with rfl | ⟨front, rfl⟩
    · exact Or.inl hlength.symm
    · refine Or.inr ⟨front.length, ?_, ?_⟩
      · rw [hunits]
        simp
      · rw [← hlength, List.length_append, List.length_singleton]
  · intro other hstart hplace hnewline
    rw [← hlength] at hstart hplace
    have hon : (units line)[other - before.length]? = some 10 := by
      rw [hunits, List.append_assoc, List.getElem?_append_right hstart,
        List.getElem?_append_left (by omega)] at hnewline
      exact hnewline
    exact hline (List.mem_of_getElem? hon)

/-- Of two places on lines, the one on the earlier line is before the other, and on the same line
the one that is less far along. -/
theorem add_lt_add_iff_of_lines {other farther : Nat} {otherLine : List Char}
    (h : (lines cs)[index]? = some line) (halong : along ≤ (units line).length)
    (hother : (lines cs)[other]? = some otherLine) (hfarther : farther ≤ (units otherLine).length) :
    startOfLine (lines cs) index + along < startOfLine (lines cs) other + farther ↔
      index < other ∨ index = other ∧ along < farther := by
  obtain ⟨hindex, -⟩ := List.getElem?_eq_some_iff.mp h
  obtain ⟨hotherIndex, -⟩ := List.getElem?_eq_some_iff.mp hother
  rcases Nat.lt_trichotomy index other with hlt | rfl | hlt
  · have hstarts := startOfLine_add_lt h hlt hotherIndex.le
    omega
  · omega
  · have hstarts := startOfLine_add_lt hother hlt hindex.le
    omega

end Text

/-- One position comes before another: on an earlier line, or in an earlier column of the same
line. -/
def Position.Before (a b : Position) : Prop :=
  a.line < b.line ∨ a.line = b.line ∧ a.column.lt b.column = true

namespace LineTable

open Text (LineStartsAt nearest startOfLine)

section

variable (source : String) (offset other : Int)

/-- The line of a position counts the newlines before the place, and its column counts from behind
the last of them. -/
theorem position_eq_count :
    ∃ start, LineStartsAt (Text.units source.toList) (nearest (Text.size source) offset) start ∧
      (ofSource source).position (.int offset) =
        ⟨1 + ((Text.units source.toList).take (nearest (Text.size source) offset)).count 10,
          .int ((nearest (Text.size source) offset : Int) - start + 1)⟩ := by
  obtain ⟨index, line, along, hline, halong, hplace, hposition⟩ :=
    exists_line_of_position source offset
  refine ⟨startOfLine (Text.lines source.toList) index, ?_, ?_⟩
  · rw [hplace]
    exact Text.lineStartsAt_of_line hline halong
  · rw [hposition, hplace, Text.count_take_of_line hline halong, Nat.add_comm index]
    congr 2
    omega

/-- Positions are ordered as their places are. -/
theorem before_position_iff :
    ((ofSource source).position (.int offset)).Before ((ofSource source).position (.int other)) ↔
      nearest (Text.size source) offset < nearest (Text.size source) other := by
  obtain ⟨index, line, along, hline, halong, hplace, hposition⟩ :=
    exists_line_of_position source offset
  obtain ⟨index', line', along', hline', halong', hplace', hposition'⟩ :=
    exists_line_of_position source other
  rw [hposition, hposition', hplace, hplace',
    Text.add_lt_add_iff_of_lines hline halong hline' halong']
  simp only [Position.Before, Number.lt, decide_eq_true_iff]
  omega

/-- A position tells the place. -/
theorem position_eq_iff :
    (ofSource source).position (.int offset) = (ofSource source).position (.int other) ↔
      nearest (Text.size source) offset = nearest (Text.size source) other := by
  obtain ⟨index, line, along, hline, halong, hplace, hposition⟩ :=
    exists_line_of_position source offset
  obtain ⟨index', line', along', hline', halong', hplace', hposition'⟩ :=
    exists_line_of_position source other
  have hforth := Text.add_lt_add_iff_of_lines hline halong hline' halong'
  have hback := Text.add_lt_add_iff_of_lines hline' halong' hline halong
  rw [hposition, hposition', hplace, hplace', Position.mk.injEq, Number.int.injEq]
  constructor
  · rintro ⟨hindex, hcolumn⟩
    have hsame : index = index' := by omega
    subst hsame
    omega
  · intro heq
    omega

/-- The line of a position is the one that the place is on when the source is split into lines. -/
theorem on_line_iff (index : Nat) :
    (∃ line, (Text.lines source.toList)[index]? = some line ∧
      startOfLine (Text.lines source.toList) index ≤ nearest (Text.size source) offset ∧
      nearest (Text.size source) offset ≤
        startOfLine (Text.lines source.toList) index + (Text.units line).length) ↔
      ((ofSource source).position (.int offset)).line = index + 1 := by
  obtain ⟨found, line, along, hline, halong, hplace, hposition⟩ :=
    exists_line_of_position source offset
  rw [hposition, hplace]
  constructor
  · rintro ⟨line', hline', hstart, hend⟩
    obtain ⟨along', hsum⟩ := Nat.exists_eq_add_of_le hstart
    have halong' : along' ≤ (Text.units line').length := by omega
    have hforth := Text.add_lt_add_iff_of_lines hline halong hline' halong'
    have hback := Text.add_lt_add_iff_of_lines hline' halong' hline halong
    simp only
    omega
  · intro hindex
    have hsame : found = index := Nat.succ.inj hindex
    subst hsame
    exact ⟨line, hline, Nat.le_add_right _ _, Nat.add_le_add_left halong _⟩

/-- The search for the line of a place halves all lines until the one of its position is left. -/
theorem exists_halvesTo_position :
    ∃ halvings ≤ Nat.clog 2 (Text.lines source.toList).length,
      (ofSource source).HalvesTo (.int (nearest (Text.size source) offset))
        (ofSource source).allLines halvings
        (((ofSource source).position (.int offset)).line - 1) := by
  have hclamp : (Number.int offset).clamp (ofSource source).size =
      .int (nearest (Text.size source) offset) := by
    have htable : (ofSource source).size = Text.size source := rfl
    simp only [Number.clamp, Number.int.injEq, htable, nearest]
    omega
  have hindex : ((ofSource source).position (.int offset)).line - 1 = (ofSource source).search
      (.int (nearest (Text.size source) offset)) (ofSource source).allLines := by
    simp only [position, hclamp, Nat.add_sub_cancel]
  have hsome : 0 < (Text.lines source.toList).length :=
    List.length_pos_of_ne_nil (List.splitOn_ne_nil '\n' source.toList)
  have hcount : (ofSource source).allLines.last - (ofSource source).allLines.first + 1 =
      (Text.lines source.toList).length := by
    simp only [allLines, length_starts]
    omega
  rw [hindex, ← hcount]
  exact exists_halvesTo (ofSource source) _ (Nat.zero_le _)

end

/-- **A position counts newlines.** Take the place of a source nearest to an offset. The line of the
offset's position is one more than the newlines before the place, and its column one more than the
units between the place and the last newline before it, or the beginning of the source. So positions
are equal exactly if the places are, and ordered as these are. The search for the line ends, after
no more halvings than it takes to come from all lines to one. There are as many line starts as lines
when the source is split at its newlines, and of these the place is on the one that the position
tells. -/
theorem position_counted (source : String) (offset other : Int) :
    (∃ start, LineStartsAt (Text.units source.toList) (nearest (Text.size source) offset) start ∧
      (ofSource source).position (.int offset) =
        ⟨1 + ((Text.units source.toList).take (nearest (Text.size source) offset)).count 10,
          .int ((nearest (Text.size source) offset : Int) - start + 1)⟩) ∧
    ((ofSource source).position (.int offset) = (ofSource source).position (.int other) ↔
      nearest (Text.size source) offset = nearest (Text.size source) other) ∧
    (((ofSource source).position (.int offset)).Before ((ofSource source).position (.int other)) ↔
      nearest (Text.size source) offset < nearest (Text.size source) other) ∧
    (∃ halvings ≤ Nat.clog 2 (Text.lines source.toList).length,
      (ofSource source).HalvesTo (.int (nearest (Text.size source) offset))
        (ofSource source).allLines halvings
        (((ofSource source).position (.int offset)).line - 1)) ∧
    (ofSource source).starts.length = (Text.lines source.toList).length ∧
    ∀ index,
      (∃ line, (Text.lines source.toList)[index]? = some line ∧
        startOfLine (Text.lines source.toList) index ≤ nearest (Text.size source) offset ∧
        nearest (Text.size source) offset ≤
          startOfLine (Text.lines source.toList) index + (Text.units line).length) ↔
        ((ofSource source).position (.int offset)).line = index + 1 := by
  have hcount := position_eq_count source offset
  have hequal := position_eq_iff source offset other
  have hbefore := before_position_iff source offset other
  have hsearch := exists_halvesTo_position source offset
  exact ⟨hcount, hequal, hbefore, hsearch, length_starts source, on_line_iff source offset⟩

-- a newline is on the line that it ends, and what is outside the source is at its nearer end
example :
    ([-1, 2, 3, 99].map fun offset => ((ofSource "ab\nc\n").position (.int offset)).line) =
      [1, 1, 2, 3] := by
  decide +kernel

end LineTable

end PureLint
