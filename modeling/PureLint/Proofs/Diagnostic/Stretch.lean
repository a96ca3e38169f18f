import PureLint.Proofs.Diagnostic.Search
import PureLint.Proofs.Text.Lines

/-!
# Stretches of lines

The span that the line table of a source gives to a line is read off the lines of the source, and
the position at its start is that line's first column.
-/

namespace PureLint.LineTable

/-- What the line of this index takes of its source, without the newline. A line that the source
lacks takes nothing at its end. -/
def stretch (source : String) (index : Nat) : Span :=
  let lines := Text.lines source.toList
  match lines[index]? with
  | some line =>
    let start := Text.startOfLine lines index
    ⟨.int start, .int (start + (Text.units line).length)⟩
  | none => ⟨.int (Text.size source), .int (Text.size source)⟩

/-- The table of a source has one entry for each line. -/
theorem starts_ofSource (source : String) :
    (ofSource source).starts = Text.startsFrom 0 (Text.lines source.toList) :=
  Text.lineStarts_units source.toList

/-- An entry of the table is the start of its line. -/
theorem getElem?_starts (source : String) (index : Nat) :
    (ofSource source).starts[index]? =
      if index < (Text.lines source.toList).length then
        some (Text.startOfLine (Text.lines source.toList) index) else none := by
  simp [starts_ofSource, Text.getElem?_startsFrom]

/-- The table gives to each line what it takes of the source. -/
theorem lineSpan_ofSource (source : String) (index : Nat) :
    (ofSource source).lineSpan index = stretch source index := by
  have hsize : Text.size source + 1 = Text.startOfLine (Text.lines source.toList) _ :=
    Text.length_units_succ source.toList
  unfold lineSpan stretch
  simp only [getElem?_starts]
  generalize hlines : Text.lines source.toList = lines at hsize ⊢
  cases hline : lines[index]? with
  | none =>
    have hlength := List.getElem?_eq_none_iff.mp hline
    rw [if_neg (by omega), if_neg (by omega)]
    rfl
  | some line =>
    obtain ⟨hlength, -⟩ := List.getElem?_eq_some_iff.mp hline
    have hnext := Text.startOfLine_succ hline
    rw [if_pos hlength]
    by_cases hlast : index + 1 < lines.length
    · simp only [if_pos hlast, hnext, Option.getD_some]
      congr 2
      omega
    · have hcount : lines.length = index + 1 := by omega
      have htable : ((ofSource source).size : Int) = Text.size source := rfl
      simp only [if_neg hlast, htable, Option.getD_some]
      rw [hcount, hnext] at hsize
      congr 2
      omega

/-- The table has one start for each line. -/
theorem length_starts (source : String) :
    (ofSource source).starts.length = (Text.lines source.toList).length := by
  rw [starts_ofSource, Text.length_startsFrom]

/-- The table tells where each line starts. -/
theorem startOf_ofSource {source : String} {index : Nat}
    (h : index < (Text.lines source.toList).length) :
    (ofSource source).startOf index = Text.startOfLine (Text.lines source.toList) index := by
  rw [startOf, getElem?_starts, if_pos h, Option.getD_some]

/-- A place on a line, or right behind it, is on that line by the table. -/
theorem isOn_within {source : String} {index along : Nat} {line : List Char}
    (h : (Text.lines source.toList)[index]? = some line)
    (halong : along ≤ (Text.units line).length) :
    (ofSource source).IsOn
      (.int ((Text.startOfLine (Text.lines source.toList) index + along : Nat) : Int)) index := by
  obtain ⟨hindex, -⟩ := List.getElem?_eq_some_iff.mp h
  intro other hother
  rw [length_starts] at hother
  rw [startOf_ofSource hother, Number.reaches, decide_eq_true_iff, Int.ofNat_le]
  constructor
  · intro hreaches
    by_contra hafter
    have hlt := Text.startOfLine_add_lt h (Nat.lt_of_not_le hafter) hother.le
    omega
  · intro hle
    rcases Nat.lt_or_eq_of_le hle with hlt | rfl
    · have hbefore := Text.startOfLine_add_lt (List.getElem?_eq_getElem hother) hlt hindex.le
      omega
    · exact Nat.le_add_right _ _

/-- A place on a line, or right behind it, has the line's position and is as far along the line as
its column tells. -/
theorem position_within {source : String} {index along : Nat} {line : List Char}
    (h : (Text.lines source.toList)[index]? = some line)
    (halong : along ≤ (Text.units line).length) :
    (ofSource source).position
        (.int ((Text.startOfLine (Text.lines source.toList) index + along : Nat) : Int)) =
      ⟨index + 1, .int (along + 1)⟩ := by
  obtain ⟨hindex, -⟩ := List.getElem?_eq_some_iff.mp h
  have hsize : (ofSource source).size + 1 = Text.startOfLine (Text.lines source.toList) _ :=
    Text.length_units_succ source.toList
  have hend := Text.startOfLine_add_lt h hindex le_rfl
  have hclamp : (Number.int
        ((Text.startOfLine (Text.lines source.toList) index + along : Nat) : Int)).clamp
      (ofSource source).size =
        .int ((Text.startOfLine (Text.lines source.toList) index + along : Nat) : Int) := by
    simp only [Number.clamp, Number.int.injEq]
    omega
  have hlength := length_starts source
  have hsearch : (ofSource source).search
      (.int ((Text.startOfLine (Text.lines source.toList) index + along : Nat) : Int))
      (ofSource source).allLines = index := by
    apply (isOn_within h halong).search_eq ⟨Nat.zero_le _, ?_⟩
    · simp only [allLines]
      omega
    · simp only [allLines]
      omega
  have hcolumn : ((Text.startOfLine (Text.lines source.toList) index + along : Nat) : Int) -
      Text.startOfLine (Text.lines source.toList) index + 1 = along + 1 := by omega
  simp only [position, hclamp, hsearch, startOf_ofSource hindex, Number.column, hcolumn]

/-- A line starts at its first column. -/
theorem position_startOfLine {source : String} {index : Nat}
    (h : index < (Text.lines source.toList).length) :
    (ofSource source).position (.int (Text.startOfLine (Text.lines source.toList) index)) =
      ⟨index + 1, .int 1⟩ := by
  have hwithin := position_within (List.getElem?_eq_getElem h) (Nat.zero_le _)
  rw [Nat.add_zero] at hwithin
  exact hwithin

end PureLint.LineTable
