import PureLint.Regex.Basic

/-!
# What expressions take

What an expression leaves of a text says what it takes from its beginning. This file gives both for
single units, for rows of units of one set and for fixed texts, in the form that the expressions of
globs are made of.
-/

namespace PureLint.Regex

variable {r first second : Regex} {set : UnitSet} {us rest : List UInt16}

/-- An expression matches a whole text if it can leave nothing of it. -/
theorem accepts_iff : r.accepts us = true ↔ [] ∈ r.leaves us := by
  simp [accepts]

/-- One expression after another leaves what the second can leave of a text that the first can
leave. -/
theorem mem_leaves_both :
    rest ∈ (both first second).leaves us ↔
      ∃ middle ∈ first.leaves us, rest ∈ second.leaves middle := by
  rw [leaves_both, List.mem_flatMap]

/-- A choice leaves what one of its sides can leave. -/
theorem mem_leaves_either {left right : Regex} :
    rest ∈ (either left right).leaves us ↔ rest ∈ left.leaves us ∨ rest ∈ right.leaves us := by
  rw [leaves_either, List.mem_append]

/-- One unit of a set is taken from a text that starts with one. -/
theorem mem_leaves_one :
    rest ∈ (one set).leaves us ↔ ∃ u, us = u :: rest ∧ set.contains u = true := by
  cases us with
  | nil => simp [leaves]
  | cons u us =>
    rw [leaves]
    split
    · rename_i hu
      rw [List.mem_singleton]
      constructor
      · rintro rfl
        exact ⟨u, rfl, hu⟩
      · rintro ⟨v, h, -⟩
        exact (List.cons.inj h).2.symm
    · rename_i hu
      refine ⟨fun h => absurd h List.not_mem_nil, ?_⟩
      rintro ⟨v, h, hv⟩
      exact absurd ((List.cons.inj h).1 ▸ hv) hu

/-- One certain unit is taken from a text that starts with it. -/
theorem mem_leaves_only {u : UInt16} : rest ∈ (one (.only u)).leaves us ↔ us = u :: rest := by
  have hsingle : rest ∈ (ofUnits [u]).leaves us ↔ rest ∈ (one (.only u)).leaves us := by
    simp [ofUnits, sequence]
  rw [← hsingle, mem_leaves_ofUnits, List.singleton_append]

/-- Taking units of a set again and again takes any row of them, as long as the bound allows. -/
theorem mem_repeated_one {n : Nat} (hn : us.length ≤ n) :
    rest ∈ repeated (one set).leaves n us ↔
      ∃ taken, us = taken ++ rest ∧ ∀ u ∈ taken, set.contains u = true := by
  induction n generalizing us with
  | zero =>
    have hus : us = [] := List.eq_nil_of_length_eq_zero (Nat.le_zero.mp hn)
    subst hus
    rw [repeated, List.mem_singleton]
    constructor
    · rintro rfl
      exact ⟨[], rfl, List.forall_mem_nil _⟩
    · rintro ⟨taken, h, -⟩
      exact (List.append_eq_nil_iff.mp h.symm).2
  | succ n ih =>
    rw [repeated, List.mem_cons, List.mem_flatMap]
    constructor
    · rintro (rfl | ⟨middle, hmiddle, hrest⟩)
      · exact ⟨[], rfl, List.forall_mem_nil _⟩
      · obtain ⟨u, rfl, hu⟩ := mem_leaves_one.mp (List.mem_filter.mp hmiddle).1
        obtain ⟨taken, rfl, htaken⟩ := (ih (Nat.le_of_succ_le_succ hn)).mp hrest
        exact ⟨u :: taken, rfl, List.forall_mem_cons.mpr ⟨hu, htaken⟩⟩
    · rintro ⟨taken, rfl, htaken⟩
      cases taken with
      | nil => exact Or.inl rfl
      | cons u taken =>
        obtain ⟨hu, htaken⟩ := List.forall_mem_cons.mp htaken
        refine Or.inr ⟨taken ++ rest, List.mem_filter.mpr ⟨?_, ?_⟩, ?_⟩
        · exact mem_leaves_one.mpr ⟨u, rfl, hu⟩
        · simp
        · exact (ih (Nat.le_of_succ_le_succ hn)).mpr ⟨taken, rfl, htaken⟩

/-- Any number of units of a set are taken as any row of them. -/
theorem mem_leaves_many_one :
    rest ∈ (many (one set)).leaves us ↔
      ∃ taken, us = taken ++ rest ∧ ∀ u ∈ taken, set.contains u = true := by
  have hleaves : (many (one set)).leaves us = repeated (one set).leaves us.length us := by
    cases us <;> rfl
  rw [hleaves, mem_repeated_one (Nat.le_refl _)]

/-- Looking at the next unit takes nothing. -/
theorem eq_of_mem_leaves_next (h : rest ∈ (next set).leaves us) : rest = us := by
  cases us with
  | nil => exact absurd h List.not_mem_nil
  | cons u us =>
    rw [leaves] at h
    split at h
    · exact List.mem_singleton.mp h
    · exact absurd h List.not_mem_nil

/-- A fixed text is taken from a text that starts with it. -/
theorem mem_leaves_ofChars {cs : List Char} :
    rest ∈ (ofChars cs).leaves us ↔ us = Text.units cs ++ rest :=
  mem_leaves_ofUnits

/-- Fixed texts one after another are taken as one text. -/
theorem mem_leaves_sequence_ofChars {cs : List Char} :
    rest ∈ (sequence (cs.map fun c => ofChars [c])).leaves us ↔ us = Text.units cs ++ rest := by
  induction cs generalizing us with
  | nil => simp [sequence, eq_comm]
  | cons c cs ih =>
    have hsequence : sequence ((c :: cs).map fun c => ofChars [c]) =
        both (ofChars [c]) (sequence (cs.map fun c => ofChars [c])) := rfl
    have hunits : Text.units (c :: cs) = Text.units [c] ++ Text.units cs := Text.units_append [c] cs
    rw [hsequence, mem_leaves_both, hunits]
    simp only [mem_leaves_ofChars, ih]
    constructor
    · rintro ⟨middle, rfl, rfl⟩
      rw [List.append_assoc]
    · rintro rfl
      exact ⟨_, List.append_assoc _ _ _, rfl⟩

end PureLint.Regex
