import PureLint.Proofs.Text.Occurrence

/-!
# Trimmed texts and first words

Trimming takes the blanks off the two ends of a text and leaves the text between them. Blanks behind
a text never reach into its first word.
-/

namespace PureLint.Text

variable {cs ds before after : List Char}

/-- Blanks before a text are dropped from its beginning. -/
theorem trimStart_append (hbefore : ∀ c ∈ before, isBlank c = true) (cs : List Char) :
    trimStart (before ++ cs) = trimStart cs :=
  List.dropWhile_append_of_pos hbefore

/-- A text that does not start with a blank keeps its beginning. -/
theorem trimStart_eq_self (h : cs.head?.any isBlank = false) : trimStart cs = cs := by
  cases cs with
  | nil => rfl
  | cons c cs =>
    have hc : ¬isBlank c = true := Bool.eq_false_iff.mp h
    exact List.dropWhile_cons_of_neg hc

/-- Blanks before a text are not dropped any further than its first other character. -/
theorem trimStart_concat_append {c : Char} (hc : isBlank c = false) (cs ds : List Char) :
    trimStart (cs ++ c :: ds) = trimStart (cs ++ [c]) ++ ds := by
  have hsome : ¬(trimStart (cs ++ [c])).isEmpty = true := by
    intro hempty
    have hall := List.dropWhile_eq_nil_iff.mp (List.isEmpty_iff.mp hempty)
    rw [hall c (List.mem_append_right _ List.mem_cons_self)] at hc
    cases hc
  have hsplit : cs ++ c :: ds = (cs ++ [c]) ++ ds := by simp
  rw [hsplit]
  exact List.dropWhile_append.trans (if_neg hsome)

/-- Dropping blanks from the end is dropping them from the beginning of the text read backwards. -/
theorem trimEnd_eq_reverse (cs : List Char) : trimEnd cs = (trimStart cs.reverse).reverse := rfl

/-- Blanks around a text are trimmed away, and nothing else. -/
theorem trim_append (hbefore : ∀ c ∈ before, isBlank c = true)
    (hafter : ∀ c ∈ after, isBlank c = true) (hhead : cs.head?.any isBlank = false)
    (hlast : cs.getLast?.any isBlank = false) : trim (before ++ cs ++ after) = cs := by
  have hbackwards : trimEnd (cs ++ after) = cs := by
    rw [trimEnd_eq_reverse, List.reverse_append,
      trimStart_append fun c hc => hafter c (List.mem_reverse.mp hc), trimStart_eq_self,
      List.reverse_reverse]
    rwa [List.head?_reverse]
  cases cs with
  | nil =>
    have hall : ∀ c ∈ before ++ after, isBlank c = true := fun c hc =>
      (List.mem_append.mp hc).elim (hbefore c) (hafter c)
    have hnone : trimStart (before ++ after) = [] := List.dropWhile_eq_nil_iff.mpr hall
    rw [List.append_nil, trim, hnone]
    rfl
  | cons c cs =>
    rw [trim, List.append_assoc, trimStart_append hbefore, trimStart_eq_self, hbackwards]
    exact hhead

/-- A blank before a text is trimmed away, and nothing else. -/
theorem trim_cons {c : Char} (hc : isBlank c = true) (hhead : cs.head?.any isBlank = false)
    (hlast : cs.getLast?.any isBlank = false) : trim (c :: cs) = cs := by
  have hbefore : ∀ d ∈ [c], isBlank d = true := List.forall_mem_singleton.mpr hc
  have htrim := trim_append hbefore (List.forall_mem_nil _) hhead hlast
  rwa [List.append_nil] at htrim

/-- What is left of a text does not end with a blank. -/
theorem getLast?_trimEnd (cs : List Char) : (trimEnd cs).getLast?.any isBlank = false := by
  have hkept := List.head?_dropWhile_not isBlank cs.reverse
  rw [trimEnd_eq_reverse, List.getLast?_reverse, trimStart]
  cases hhead : (cs.reverse.dropWhile isBlank).head? with
  | none => rfl
  | some c =>
    rw [hhead] at hkept
    exact hkept

/-- What is left of a text does not start with a blank. -/
theorem head?_trim (cs : List Char) : (trim cs).head?.any isBlank = false := by
  have hkept := List.head?_dropWhile_not isBlank cs
  obtain ⟨blanks, hcs, -⟩ := exists_eq_trimEnd_append (trimStart cs)
  cases htrim : trim cs with
  | nil => rfl
  | cons c rest =>
    have hstart : cs.dropWhile isBlank = c :: (rest ++ blanks) := by
      rw [← List.cons_append, ← htrim]
      exact hcs
    rw [hstart] at hkept
    exact hkept

/-- Trimming again changes nothing. -/
theorem trim_trim (cs : List Char) : trim (trim cs) = trim cs := by
  have htrim := trim_append (List.forall_mem_nil _) (List.forall_mem_nil _) (head?_trim cs)
    (getLast?_trimEnd (trimStart cs))
  rwa [List.nil_append, List.append_nil] at htrim

/-- The first word is that of the text before a blank. -/
theorem firstWord_append (h : ds.head?.all isBlank = true) (cs : List Char) :
    firstWord (cs ++ ds) = firstWord cs := by
  have hnone : ds.takeWhile (fun c => !isBlank c) = [] := by
    cases ds with
    | nil => rfl
    | cons d ds =>
      have hd : isBlank d = true := h
      simp [hd]
  unfold firstWord
  rw [List.takeWhile_append, hnone]
  split
  · rename_i hall
    rw [List.append_nil]
    exact ((List.takeWhile_prefix _).eq_of_length hall).symm
  · rfl

/-- Dropping blanks from the end leaves the first word as it is. -/
theorem firstWord_trimEnd (cs : List Char) : firstWord (trimEnd cs) = firstWord cs := by
  obtain ⟨blanks, hcs, hblanks⟩ := exists_eq_trimEnd_append cs
  have hhead : blanks.head?.all isBlank = true := by
    cases blanks with
    | nil => rfl
    | cons c blanks => exact hblanks c List.mem_cons_self
  exact ((congrArg firstWord hcs).trans (firstWord_append hhead _)).symm

/-- Trimming leaves the first word of what follows the blanks before a text. -/
theorem firstWord_trim (cs : List Char) : firstWord (trim cs) = firstWord (trimStart cs) :=
  firstWord_trimEnd _

/-- A text without blanks is one word, and what follows it up to a blank belongs to it. -/
theorem firstWord_append_of_forall (h : ∀ c ∈ cs, isBlank c = false) (ds : List Char) :
    firstWord (cs ++ ds) = cs ++ firstWord ds :=
  List.takeWhile_append_of_pos fun c hc => by rw [h c hc, Bool.not_false]

end PureLint.Text
