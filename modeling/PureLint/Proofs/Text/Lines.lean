import PureLint.Diagnostic.Position
import PureLint.Proofs.Text.Units

/-!
# Lines and their offsets

The table of line starts is computed from units, the lines themselves from characters. This file
connects the two: a line starts behind what the lines before it take, each with its newline.
-/

namespace PureLint

namespace Text

/-- Where the line of this index starts: behind the lines before it, each with its newline. -/
def startOfLine : List (List Char) → Nat → Nat
  | _, 0 => 0
  | [], _ => 0
  | line :: rest, index + 1 => (units line).length + 1 + startOfLine rest index

/-- The first line starts at the beginning. -/
@[simp] theorem startOfLine_zero (lines : List (List Char)) : startOfLine lines 0 = 0 := by
  cases lines <;> rfl

/-- Behind its first line, a text is counted on from the end of that line. -/
theorem startOfLine_cons_succ (line : List Char) (rest : List (List Char)) (index : Nat) :
    startOfLine (line :: rest) (index + 1) = (units line).length + 1 + startOfLine rest index := rfl

/-- A line starts one unit after the end of the line before it. -/
theorem startOfLine_succ {lines : List (List Char)} {index : Nat} {line : List Char}
    (h : lines[index]? = some line) :
    startOfLine lines (index + 1) = startOfLine lines index + (units line).length + 1 := by
  induction lines generalizing index with
  | nil => simp at h
  | cons first rest ih =>
    cases index with
    | zero =>
      have hfirst : first = line := by simpa using h
      simp [startOfLine_cons_succ, hfirst]
    | succ index =>
      have hnext := ih (by simpa using h)
      simp only [startOfLine_cons_succ, hnext]
      omega

/-- A line starts behind all of every line before it. -/
theorem startOfLine_add_lt {lines : List (List Char)} {index other : Nat} {line : List Char}
    (h : lines[index]? = some line) (hlt : index < other) (hother : other ≤ lines.length) :
    startOfLine lines index + (units line).length < startOfLine lines other := by
  induction other with
  | zero => exact absurd hlt (Nat.not_lt_zero _)
  | succ other ih =>
    have hnext := startOfLine_succ (List.getElem?_eq_getElem hother)
    rcases Nat.lt_or_eq_of_le (Nat.le_of_lt_succ hlt) with hlt | rfl
    · have hbefore := ih hlt (Nat.le_of_succ_le hother)
      omega
    · rw [startOfLine_succ h]
      omega

/-- The starts of lines that follow each other, the first of them at `offset`. -/
def startsFrom (offset : Nat) : List (List Char) → List Nat
  | [] => []
  | line :: rest => offset :: startsFrom (offset + (units line).length + 1) rest

/-- Each line has one start. -/
@[simp] theorem length_startsFrom (offset : Nat) (lines : List (List Char)) :
    (startsFrom offset lines).length = lines.length := by
  induction lines generalizing offset with
  | nil => rfl
  | cons line rest ih => simp [startsFrom, ih]

/-- Each entry counts the lines before it. -/
theorem getElem?_startsFrom (lines : List (List Char)) (offset index : Nat) :
    (startsFrom offset lines)[index]? =
      if index < lines.length then some (offset + startOfLine lines index) else none := by
  induction lines generalizing offset index with
  | nil => simp [startsFrom]
  | cons line rest ih =>
    cases index with
    | zero => simp [startsFrom]
    | succ index =>
      simp only [startsFrom, List.getElem?_cons_succ, ih, List.length_cons,
        Nat.add_lt_add_iff_right, startOfLine_cons_succ]
      congr 2
      omega

/-- Units without a newline start no line. -/
theorem lineStarts_go_append (offset : Nat) {us : List UInt16} (vs : List UInt16) (h : 10 ∉ us) :
    lineStarts.go offset (us ++ vs) = lineStarts.go (offset + us.length) vs := by
  induction us generalizing offset with
  | nil => rfl
  | cons u us ih =>
    have hu : u ≠ 10 := fun hu => h (by simp [hu])
    have hus : 10 ∉ us := fun hus => h (by simp [hus])
    simp only [List.cons_append, lineStarts.go, if_neg hu, ih _ hus, List.length_cons]
    congr 1
    omega

/-- Only the newline character has the newline unit. -/
theorem newline_notMem_unitsOf {c : Char} (h : c ≠ '\n') : 10 ∉ unitsOf c :=
  notMem_unitsOf (by decide) h

/-- A newline ends an empty first line. -/
theorem lines_cons_newline (cs : List Char) : lines ('\n' :: cs) = [] :: lines cs := by
  simp [lines, List.splitOn_cons_eq_if_modifyHead]

/-- A character other than a newline joins the first line. -/
theorem lines_cons_of_ne {c : Char} (h : c ≠ '\n') {cs first : List Char}
    {rest : List (List Char)} (hlines : lines cs = first :: rest) :
    lines (c :: cs) = (c :: first) :: rest := by
  unfold lines at hlines ⊢
  rw [List.splitOn_cons_eq_if_modifyHead, if_neg (by simpa using h), hlines, List.modifyHead_cons]

/-- The lines after the first start behind the newline that ends it. -/
theorem lineStarts_go_units {cs first : List Char} {rest : List (List Char)}
    (h : lines cs = first :: rest) (offset : Nat) :
    lineStarts.go offset (units cs) = startsFrom (offset + (units first).length + 1) rest := by
  induction cs generalizing first rest offset with
  | nil =>
    simp only [lines, List.splitOn_nil, List.cons.injEq] at h
    obtain ⟨rfl, rfl⟩ := h
    rfl
  | cons c cs ih =>
    obtain ⟨next, more, hnext⟩ := List.exists_cons_of_ne_nil (List.splitOn_ne_nil '\n' cs)
    have hlines : lines cs = next :: more := hnext
    by_cases hc : c = '\n'
    · subst hc
      rw [lines_cons_newline, hlines, List.cons.injEq] at h
      obtain ⟨rfl, rfl⟩ := h
      have hgo : lineStarts.go offset (units ('\n' :: cs)) =
          (offset + 1) :: lineStarts.go (offset + 1) (units cs) := rfl
      rw [hgo, ih hlines, units_nil, List.length_nil, Nat.add_zero, startsFrom]
    · rw [lines_cons_of_ne hc hlines, List.cons.injEq] at h
      obtain ⟨rfl, rfl⟩ := h
      have hunits (ds : List Char) : units (c :: ds) = unitsOf c ++ units ds := rfl
      rw [hunits, lineStarts_go_append _ _ (newline_notMem_unitsOf hc), ih hlines, hunits,
        List.length_append, Nat.add_assoc offset]

/-- The table of line starts lists where the lines of the text start. -/
theorem lineStarts_units (cs : List Char) : lineStarts (units cs) = startsFrom 0 (lines cs) := by
  obtain ⟨first, rest, h⟩ := List.exists_cons_of_ne_nil (List.splitOn_ne_nil '\n' cs)
  have hlines : lines cs = first :: rest := h
  rw [lineStarts, lineStarts_go_units hlines, hlines, startsFrom]

/-- A text is as long as its lines and the newlines between them. -/
theorem length_units_succ (cs : List Char) :
    (units cs).length + 1 = startOfLine (lines cs) (lines cs).length := by
  induction cs with
  | nil => simp [lines, startOfLine]
  | cons c cs ih =>
    obtain ⟨first, rest, h⟩ := List.exists_cons_of_ne_nil (List.splitOn_ne_nil '\n' cs)
    have hlines : lines cs = first :: rest := h
    have hunits (ds : List Char) : units (c :: ds) = unitsOf c ++ units ds := rfl
    rw [hlines, List.length_cons, startOfLine_cons_succ] at ih
    by_cases hc : c = '\n'
    · subst hc
      have hone : (unitsOf '\n').length = 1 := rfl
      rw [lines_cons_newline, hlines, hunits, List.length_append, List.length_cons,
        List.length_cons, startOfLine_cons_succ, startOfLine_cons_succ, hone, units_nil,
        List.length_nil]
      omega
    · rw [lines_cons_of_ne hc hlines, hunits, List.length_append, List.length_cons,
        startOfLine_cons_succ, hunits, List.length_append]
      omega

end Text

end PureLint
