import PureLint.Report.Basic
import PureLint.Proofs.Diagnostic.Counting
import PureLint.Proofs.Diagnostic.Messages

/-!
# The caret under a line

A verbose report ends what it tells about a diagnostic with two rows: the line that the diagnostic
is about, and a caret. The caret stands under the unit at which the span of the diagnostic begins.
Of a line that ends with a carriage return this one is not printed, and a newline never is. Where
the span begins at one of these two, the caret stands behind the row.
-/

namespace PureLint

namespace Text

variable {cs line : List Char} {index along : Nat}

/-! ## Units around a line -/

/-- The units along a line are those of the text from the start of the line on. -/
theorem getElem?_line (h : (lines cs)[index]? = some line) (halong : along < (units line).length) :
    (units cs)[startOfLine (lines cs) index + along]? = (units line)[along]? := by
  obtain ⟨before, after, hunits, hlength, -⟩ := exists_units_around_line h
  rw [hunits, ← hlength, List.append_assoc, List.getElem?_append_right (Nat.le_add_right _ _),
    Nat.add_sub_cancel_left, List.getElem?_append_left halong]

/-- Right behind a line comes a newline, or nothing. -/
theorem getElem?_behind_line (h : (lines cs)[index]? = some line) :
    (units cs)[startOfLine (lines cs) index + (units line).length]? = none ∨
      (units cs)[startOfLine (lines cs) index + (units line).length]? = some 10 := by
  have hnext := startOfLine_succ h
  obtain ⟨hindex, -⟩ := List.getElem?_eq_some_iff.mp h
  cases hline : (lines cs)[index + 1]? with
  | none =>
    have hlast : index + 1 = (lines cs).length := by
      have hbound := List.getElem?_eq_none_iff.mp hline
      omega
    have hsize := length_units_succ cs
    rw [← hlast] at hsize
    left
    rw [List.getElem?_eq_none_iff]
    omega
  | some next =>
    obtain ⟨before, after, hunits, hlength, -, hend, -⟩ := exists_units_around_line hline
    rcases hend with rfl | ⟨front, rfl⟩
    · rw [List.length_nil] at hlength
      omega
    · right
      have hfront : startOfLine (lines cs) index + (units line).length = front.length := by
        rw [List.length_append, List.length_singleton] at hlength
        omega
      rw [hunits, hfront]
      simp

/-- The only newlines of a text are those behind its lines. -/
theorem getElem?_line_eq_newline_iff (h : (lines cs)[index]? = some line)
    (halong : along ≤ (units line).length)
    (hsize : startOfLine (lines cs) index + along < (units cs).length) :
    (units cs)[startOfLine (lines cs) index + along]? = some 10 ↔ along = (units line).length := by
  constructor
  · intro hnewline
    by_contra hne
    obtain ⟨-, -, -, -, -, -, hnone⟩ := exists_units_around_line h
    rw [getElem?_line h (by omega)] at hnewline
    exact hnone (List.mem_of_getElem? hnewline)
  · rintro rfl
    rcases getElem?_behind_line h with hnone | hnewline
    · rw [List.getElem?_eq_none_iff] at hnone
      omega
    · exact hnewline

/-! ## Carriage returns -/

/-- At a place of a text stands the carriage return that ends a line: a newline comes next, or
nothing. -/
structure EndsLineAt (us : List UInt16) (place : Nat) : Prop where
  isReturn : us[place]? = some 13
  ends : us[place + 1]? = none ∨ us[place + 1]? = some 10

/-- What is shown of a line: all of it but one carriage return at its end, if there is one. -/
inductive Shows : List Char → List Char → Prop
  | withoutReturn (shown : List Char) : Shows (shown ++ ['\r']) shown
  | whole {line : List Char} : line.getLast? ≠ some '\r' → Shows line line

/-- A line that does not end with a carriage return does not end with the unit of one. -/
theorem getLast?_units_ne (h : line.getLast? ≠ some '\r') : (units line).getLast? ≠ some 13 := by
  intro hlast
  obtain ⟨us, hus⟩ := List.getLast?_eq_some_iff.mp hlast
  obtain ⟨front, rest, rfl, -, hrest⟩ := exists_of_units_eq_append '\r' (by decide) hus
  rw [units_injective (hrest.trans units_nil.symm)] at h
  exact h List.getLast?_concat

/-- Along a line, a carriage return ends the line exactly if it is the last unit. -/
theorem endsLineAt_iff (h : (lines cs)[index]? = some line) (halong : along < (units line).length) :
    EndsLineAt (units cs) (startOfLine (lines cs) index + along) ↔
      along + 1 = (units line).length ∧ (units line).getLast? = some 13 := by
  rw [List.getLast?_eq_getElem?]
  constructor
  · rintro ⟨hreturn, hends⟩
    rw [getElem?_line h halong] at hreturn
    have hlast : along + 1 = (units line).length := by
      by_contra hne
      have hnext : along + 1 < (units line).length := by omega
      rw [Nat.add_assoc, getElem?_line h hnext] at hends
      rcases hends with hnone | hnewline
      · rw [List.getElem?_eq_none_iff] at hnone
        omega
      · obtain ⟨-, -, -, -, -, -, hfree⟩ := exists_units_around_line h
        exact hfree (List.mem_of_getElem? hnewline)
    refine ⟨hlast, ?_⟩
    rw [← hlast, Nat.add_sub_cancel]
    exact hreturn
  · rintro ⟨hlast, hreturn⟩
    rw [← hlast, Nat.add_sub_cancel] at hreturn
    refine ⟨(getElem?_line h halong).trans hreturn, ?_⟩
    rw [Nat.add_assoc, hlast]
    exact getElem?_behind_line h

/-- A part of a line has no newline. -/
theorem Shows.newline_notMem {shown : List Char} (h : Shows line shown)
    (hline : (lines cs)[index]? = some line) : '\n' ∉ shown := by
  obtain ⟨-, -, -, -, -, -, hfree⟩ := exists_units_around_line hline
  intro hmem
  have hpart : '\n' ∈ line := by
    cases h with
    | withoutReturn => exact List.mem_append_left _ hmem
    | whole => exact hmem
  exact hfree (List.mem_flatMap.mpr ⟨'\n', hpart, by decide⟩)

/-- The units of a line with a carriage return at its end are those shown of it, and one more. -/
theorem units_concat_return (shown : List Char) : units (shown ++ ['\r']) = units shown ++ [13] :=
  units_append shown ['\r']

section

variable {shown : List Char} (hshows : Shows line shown) (h : (lines cs)[index]? = some line)
  (halong : along ≤ (units line).length)
  (hsize : startOfLine (lines cs) index + along < (units cs).length)

include hshows h halong hsize

/-- A unit that is neither a newline nor the carriage return that ends its line is shown, as far
along as it is in the text. -/
theorem Shows.getElem?_eq (hne : (units cs)[startOfLine (lines cs) index + along]? ≠ some 10)
    (hends : ¬EndsLineAt (units cs) (startOfLine (lines cs) index + along)) :
    (units shown)[along]? = (units cs)[startOfLine (lines cs) index + along]? := by
  have hbehind : along ≠ (units line).length :=
    mt (getElem?_line_eq_newline_iff h halong hsize).mpr hne
  have hlt : along < (units line).length := by omega
  rw [endsLineAt_iff h hlt] at hends
  rw [getElem?_line h hlt]
  cases hshows with
  | whole => rfl
  | withoutReturn =>
    rw [units_concat_return, List.length_append, List.length_singleton] at hends hlt
    have hshown : along < (units shown).length := by
      by_contra hnot
      exact hends ⟨by omega, List.getLast?_concat⟩
    rw [units_concat_return, List.getElem?_append_left hshown]

/-- The carriage return that ends its line, and a newline without one before it, are right behind
what is shown. -/
theorem Shows.along_eq (hplace : EndsLineAt (units cs) (startOfLine (lines cs) index + along) ∨
    ((units cs)[startOfLine (lines cs) index + along]? = some 10 ∧
      ∀ before, startOfLine (lines cs) index + along = before + 1 →
        (units cs)[before]? ≠ some 13)) : along = (units shown).length := by
  have hnewline := getElem?_line_eq_newline_iff h halong hsize
  rcases hplace with hends | ⟨hplace, hbefore⟩
  · have hbehind : along ≠ (units line).length := by
      intro heq
      have hreturn := hends.isReturn
      rw [hnewline.mpr heq] at hreturn
      cases hreturn
    obtain ⟨hlast, hreturn⟩ := (endsLineAt_iff h (by omega)).mp hends
    cases hshows with
    | whole hnone => exact absurd hreturn (getLast?_units_ne hnone)
    | withoutReturn =>
      rw [units_concat_return, List.length_append, List.length_singleton] at hlast
      omega
  · have hbehind := hnewline.mp hplace
    cases hshows with
    | whole => exact hbehind
    | withoutReturn =>
      have hunits := units_concat_return shown
      have hlength : (units (shown ++ ['\r'])).length = (units shown).length + 1 := by
        rw [hunits, List.length_append, List.length_singleton]
      have hlast : (units shown).length < (units (shown ++ ['\r'])).length := by omega
      have hreturn := getElem?_line h hlast
      rw [hunits, List.getElem?_concat_length] at hreturn
      exact absurd hreturn (hbefore _ (by omega))

end

end Text

namespace Report

/-- A verbose report without colors. -/
def plainStyle : ReportStyle := { verbose := true }

variable {source : String} {line : List Char} {index : Nat}

/-- The text of a line is what is shown of it. -/
theorem shows_lineText (h : (Text.lines source.toList)[index]? = some line) :
    Text.Shows line (lineText source (index + 1)) := by
  simp only [lineText, h, Option.getD_some]
  cases hdrop : Text.dropStart? ['\r'] line.reverse with
  | none =>
    apply Text.Shows.whole
    intro hlast
    obtain ⟨front, rfl⟩ := List.getLast?_eq_some_iff.mp hlast
    simp [Text.dropStart?] at hdrop
  | some rest =>
    have hline : line = rest.reverse ++ ['\r'] := by
      rw [← List.reverse_inj, Text.dropStart?_eq_some_iff.mp hdrop]
      simp
    rw [hline]
    exact .withoutReturn rest.reverse

/-- The text about a diagnostic ends with the line that it is about and a caret. -/
theorem lines_diagnosticText (h : (Text.lines source.toList)[index]? = some line)
    {d : Diagnostic} {along : Nat} (hposition : d.position = ⟨index + 1, .int (along + 1)⟩) :
    Text.lines (diagnosticText plainStyle source d).toList =
      Text.lines (header plainStyle d).toList ++
        [' ' :: ' ' :: lineText source (index + 1), List.replicate (along + 2) ' ' ++ ['^']] := by
  have hrow : '\n' ∉ ' ' :: ' ' :: lineText source (index + 1) := by
    simpa using (shows_lineText h).newline_notMem h
  have hcaret : '\n' ∉ List.replicate (along + 2) ' ' ++ ['^'] := by simp
  have htext : (diagnosticText plainStyle source d).toList = (header plainStyle d).toList ++
      '\n' :: ((' ' :: ' ' :: lineText source (index + 1)) ++
        '\n' :: (List.replicate (along + 2) ' ' ++ ['^'])) := by
    simp [diagnosticText, diagnosticLines, plainStyle, ReportStyle.paint, hposition, caret,
      indentOf, List.replicate_succ]
  rw [htext, Text.lines, List.splitOn_append_cons_self, List.splitOn_append_cons_self,
    List.splitOn_eq_singleton hrow, List.splitOn_eq_singleton hcaret]
  rfl

/-- **The caret stands under the unit at which the span of a diagnostic begins.** Of all that a
verbose report without colors tells about a stored diagnostic whose span begins within the source,
the last two rows are the line with the place, indented and without one carriage return at its end,
and a caret after spaces. The unit of the first row above the caret is the one at the place, unless
this is a newline or the carriage return that ends its line. If it is that carriage return, or a
newline that does not come after one, the caret stands right behind the row. -/
theorem caret_under_place (filePath source : String) (messages : List Message) {d : Diagnostic}
    (hstored : d ∈ ((Sink.ofSource filePath source).submitAll messages).stored) {place : Nat}
    (hstart : d.span.start = .int place) (hplace : place < Text.size source) :
    let us := Text.units source.toList
    ∃ above index line shown column,
      Text.lines (diagnosticText plainStyle source d).toList =
        above ++ [' ' :: ' ' :: shown, List.replicate column ' ' ++ ['^']] ∧
      (Text.lines source.toList)[index]? = some line ∧
      Text.startOfLine (Text.lines source.toList) index ≤ place ∧
      place ≤ Text.startOfLine (Text.lines source.toList) index + (Text.units line).length ∧
      Text.Shows line shown ∧
      (us[place]? ≠ some 10 → ¬Text.EndsLineAt us place →
        (Text.units (' ' :: ' ' :: shown))[column]? = us[place]?) ∧
      (Text.EndsLineAt us place ∨
          (us[place]? = some 10 ∧ ∀ before, place = before + 1 → us[before]? ≠ some 13) →
        column = (Text.units (' ' :: ' ' :: shown)).length) := by
  intro us
  obtain ⟨m, -, rfl⟩ : ∃ m ∈ messages, (Sink.ofSource filePath source).diagnosticOf m = d := by
    rw [Sink.stored_submitAll] at hstored
    obtain ⟨m, hm, hd⟩ := List.mem_map.mp hstored
    exact ⟨m, (List.mem_filter.mp hm).1, hd⟩
  obtain ⟨index, line, along, hline, halong, hnearest, hposition⟩ :=
    LineTable.exists_line_of_position source place
  have hinside : place = Text.startOfLine (Text.lines source.toList) index + along := by
    rw [← hnearest, Text.nearest]
    omega
  subst hinside
  have hat : ((Sink.ofSource filePath source).diagnosticOf m).position =
      ⟨index + 1, .int (along + 1)⟩ := by
    rw [← hposition, ← hstart]
    rfl
  refine ⟨_, index, line, lineText source (index + 1), along + 2, lines_diagnosticText hline hat,
    hline, Nat.le_add_right _ _, Nat.add_le_add_left halong _, shows_lineText hline, ?_, ?_⟩
  · intro hne hends
    exact (shows_lineText hline).getElem?_eq hline halong hplace hne hends
  · intro hbehind
    exact congrArg (· + 2) ((shows_lineText hline).along_eq hline halong hplace hbehind)

/-- On a second line, behind a line that ends with a carriage return, the caret stands under the `e`
of a keyword. -/
theorem caret_under_place_enum :
    let source := "x;\r\n  enum E {}"
    let m : Message := ⟨"no-enums", "Enums are not allowed", ⟨.int 6, .int 15⟩⟩
    let d := (Sink.ofSource "src/a.ts" source).diagnosticOf m
    d ∈ ((Sink.ofSource "src/a.ts" source).submitAll [m]).stored ∧ d.span.start = .int 6 ∧
      6 < Text.size source ∧
      ∃ above shown column,
        Text.lines (diagnosticText plainStyle source d).toList =
          above ++ [' ' :: ' ' :: shown, List.replicate column ' ' ++ ['^']] ∧
        (Text.units (' ' :: ' ' :: shown))[column]? = some (UInt16.ofNat 'e'.toNat) := by
  intro source m d
  have hkept : (Sink.ofSource "src/a.ts" source).fateOf m = .kept := by decide +kernel
  have hstored : d ∈ ((Sink.ofSource "src/a.ts" source).submitAll [m]).stored := by
    rw [Sink.stored_submitAll]
    exact List.mem_append_right _
      (List.mem_map_of_mem (List.mem_filter.mpr ⟨List.mem_cons_self, decide_eq_true hkept⟩))
  have hstart : d.span.start = .int (6 : Nat) := rfl
  have hsize : 6 < Text.size source := by decide
  have hletter : (Text.units source.toList)[6]? = some (UInt16.ofNat 'e'.toNat) := by decide
  have hnewline : (Text.units source.toList)[6]? ≠ some 10 := by decide
  have hends : ¬Text.EndsLineAt (Text.units source.toList) 6 := by
    intro h
    exact absurd h.isReturn (by decide)
  obtain ⟨above, -, -, shown, column, hrows, -, -, -, -, hunit, -⟩ :=
    caret_under_place "src/a.ts" source [m] hstored hstart hsize
  exact ⟨hstored, hstart, hsize, above, shown, column, hrows, (hunit hnewline hends).trans hletter⟩

end Report

end PureLint
