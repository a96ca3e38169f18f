import Mathlib.Logic.Function.Basic
import PureLint.Text.Units

/-!
# Units and the characters they spell

A text can be read back off its units, and a character that takes one unit is found among the units
of a text exactly where it stands in the text. So the order of texts by their units is a linear
order, and putting texts in this order commutes with leaving some of them out.
-/

namespace PureLint.Text

/-! ## Reading a text back -/

/-- The code of a character is that of a Unicode scalar value. -/
theorem toNat_scalar (c : Char) : c.toNat < 0xD800 ∨ 0xDFFF < c.toNat ∧ c.toNat < 0x110000 := by
  have hvalid : c.val.toNat.isValidChar := c.valid
  exact hvalid

/-- A number below the bound of units is the value of its unit. -/
theorem toNat_unit {n : Nat} (h : n < 0x10000) : (UInt16.ofNat n).toNat = n :=
  UInt16.toNat_ofNat_of_lt' h

/-- A character of the basic plane takes one unit. -/
theorem unitsOf_of_lt {c : Char} (h : c.toNat < 0x10000) : unitsOf c = [UInt16.ofNat c.toNat] :=
  if_pos h

/-- Any other character takes a pair of surrogates. -/
theorem unitsOf_of_le {c : Char} (h : 0x10000 ≤ c.toNat) :
    unitsOf c = [UInt16.ofNat (0xD800 + (c.toNat - 0x10000) / 0x400),
      UInt16.ofNat (0xDC00 + (c.toNat - 0x10000) % 0x400)] :=
  if_neg (Nat.not_lt.mpr h)

/-- The text that the units of a character and more units spell starts with the character. -/
theorem ofUnits_unitsOf_append (c : Char) (us : List UInt16) :
    ofUnits (unitsOf c ++ us) = c :: ofUnits us := by
  have hscalar := toNat_scalar c
  by_cases hsmall : c.toNat < 0x10000
  · -- A unit that is a whole character is no surrogate, so it begins no pair.
    have hcode : (UInt16.ofNat c.toNat).toNat = c.toNat := toNat_unit hsmall
    have hlone : ofUnits.lone (UInt16.ofNat c.toNat) = c := by
      have hnot : ¬(0xD800 ≤ UInt16.ofNat c.toNat ∧ UInt16.ofNat c.toNat < 0xE000) := by
        simp only [UInt16.le_iff_toNat_le, UInt16.lt_iff_toNat_lt, hcode, UInt16.reduceToNat]
        omega
      rw [ofUnits.lone, if_neg hnot, hcode, Char.ofNat_toNat]
    rw [unitsOf_of_lt hsmall, List.singleton_append]
    cases us with
    | nil => exact congrArg (fun d => [d]) hlone
    | cons u us =>
      have hnot : ¬(0xD800 ≤ UInt16.ofNat c.toNat ∧ UInt16.ofNat c.toNat < 0xDC00 ∧
          0xDC00 ≤ u ∧ u < 0xE000) := by
        simp only [UInt16.le_iff_toNat_le, UInt16.lt_iff_toNat_lt, hcode, UInt16.reduceToNat]
        omega
      rw [ofUnits, if_neg hnot, hlone]
  · have hhigh : (UInt16.ofNat (0xD800 + (c.toNat - 0x10000) / 0x400)).toNat =
        0xD800 + (c.toNat - 0x10000) / 0x400 := toNat_unit (by omega)
    have hlow : (UInt16.ofNat (0xDC00 + (c.toNat - 0x10000) % 0x400)).toNat =
        0xDC00 + (c.toNat - 0x10000) % 0x400 := toNat_unit (by omega)
    rw [unitsOf_of_le (by omega), List.cons_append, List.singleton_append, ofUnits, if_pos]
    · have hcode : 0x10000 + (0xD800 + (c.toNat - 0x10000) / 0x400 - 0xD800) * 0x400 +
          (0xDC00 + (c.toNat - 0x10000) % 0x400 - 0xDC00) = c.toNat := by omega
      rw [hhigh, hlow, hcode, Char.ofNat_toNat]
    · simp only [UInt16.le_iff_toNat_le, UInt16.lt_iff_toNat_lt, hhigh, hlow, UInt16.reduceToNat]
      omega

/-- The units of a text spell it. -/
theorem ofUnits_units (cs : List Char) : ofUnits (units cs) = cs := by
  induction cs with
  | nil => rfl
  | cons c cs ih =>
    have hunits : units (c :: cs) = unitsOf c ++ units cs := rfl
    rw [hunits, ofUnits_unitsOf_append, ih]

/-- Different texts have different units. -/
theorem units_injective : Function.Injective units :=
  Function.LeftInverse.injective ofUnits_units

/-! ## One character among the units -/

/-- Only the character itself has the unit of a character before the surrogates. -/
theorem notMem_unitsOf {c mark : Char} (hmark : mark.toNat < 0xD800) (h : c ≠ mark) :
    UInt16.ofNat mark.toNat ∉ unitsOf c := by
  have hne : c.toNat ≠ mark.toNat := fun heq => h (Char.toNat_inj.mp heq)
  have hunit : (UInt16.ofNat mark.toNat).toNat = mark.toNat := toNat_unit (by omega)
  have hscalar := toNat_scalar c
  by_cases hsmall : c.toNat < 0x10000
  · rw [unitsOf_of_lt hsmall, List.mem_singleton, ← UInt16.toNat_inj, hunit,
      toNat_unit hsmall]
    exact hne.symm
  · have hhigh := toNat_unit (n := 0xD800 + (c.toNat - 0x10000) / 0x400) (by omega)
    have hlow := toNat_unit (n := 0xDC00 + (c.toNat - 0x10000) % 0x400) (by omega)
    simp only [unitsOf_of_le (Nat.not_lt.mp hsmall), List.mem_cons, List.not_mem_nil, or_false,
      ← UInt16.toNat_inj, hunit, hhigh, hlow]
    omega

/-- Where such a unit stands among the units of a text, its character stands in the text. -/
theorem exists_of_units_eq_append (mark : Char) (hmark : mark.toNat < 0xD800) {cs : List Char}
    {us vs : List UInt16} (h : units cs = us ++ UInt16.ofNat mark.toNat :: vs) :
    ∃ ds es, cs = ds ++ mark :: es ∧ units ds = us ∧ units es = vs := by
  induction cs generalizing us with
  | nil => simp at h
  | cons c cs ih =>
    have hunits (ds : List Char) : units (c :: ds) = unitsOf c ++ units ds := rfl
    by_cases hc : c = mark
    · subst hc
      rw [hunits, unitsOf_of_lt (by omega), List.singleton_append] at h
      cases us with
      | nil => exact ⟨[], cs, rfl, rfl, (List.cons.inj h).2⟩
      | cons u us =>
        obtain ⟨hu, hrest⟩ := List.cons.inj h
        obtain ⟨ds, es, rfl, rfl, rfl⟩ := ih hrest
        refine ⟨c :: ds, es, rfl, ?_, rfl⟩
        rw [hunits, unitsOf_of_lt (by omega), hu, List.singleton_append]
    · -- None of the units of this character is the one in question: it lies behind them.
      obtain ⟨ws, rfl, hrest⟩ : ∃ ws, us = unitsOf c ++ ws ∧
          units cs = ws ++ UInt16.ofNat mark.toNat :: vs := by
        rw [hunits] at h
        rcases List.append_eq_append_iff.mp h with ⟨ws, hus, hrest⟩ | ⟨ws, hc', hrest⟩
        · exact ⟨ws, hus, hrest⟩
        · cases ws with
          | nil => exact ⟨[], by simpa using hc'.symm, by simpa using hrest.symm⟩
          | cons w ws =>
            have hw : UInt16.ofNat mark.toNat = w := (List.cons.inj hrest).1
            exact absurd (by rw [hc', hw]; simp) (notMem_unitsOf hmark hc)
      obtain ⟨ds, es, rfl, rfl, rfl⟩ := ih hrest
      exact ⟨c :: ds, es, rfl, rfl, rfl⟩

/-! ## The order -/

/-- A unit comes first exactly if it is smaller, or equal and what follows it comes first. -/
theorem unitsLE_go_cons {u v : UInt16} {us vs : List UInt16} :
    unitsLE.go (u :: us) (v :: vs) = true ↔
      u.toNat < v.toNat ∨ u.toNat = v.toNat ∧ unitsLE.go us vs = true := by
  simp [unitsLE.go, UInt16.lt_iff_toNat_lt, ← UInt16.toNat_inj]

/-- Of two rows of units one comes before the other. -/
theorem unitsLE_go_total (us vs : List UInt16) :
    unitsLE.go us vs = true ∨ unitsLE.go vs us = true := by
  induction us generalizing vs with
  | nil => exact Or.inl (by cases vs <;> rfl)
  | cons u us ih =>
    cases vs with
    | nil => exact Or.inr rfl
    | cons v vs =>
      rw [unitsLE_go_cons, unitsLE_go_cons]
      have hrest := ih vs
      rcases Nat.lt_trichotomy u.toNat v.toNat with hlt | heq | hlt
      · exact Or.inl (Or.inl hlt)
      · exact hrest.imp (fun h => Or.inr ⟨heq, h⟩) fun h => Or.inr ⟨heq.symm, h⟩
      · exact Or.inr (Or.inl hlt)

/-- A row of units before another one is before all that come after that one. -/
theorem unitsLE_go_trans {us vs ws : List UInt16} (huv : unitsLE.go us vs = true)
    (hvw : unitsLE.go vs ws = true) : unitsLE.go us ws = true := by
  induction us generalizing vs ws with
  | nil => cases ws <;> rfl
  | cons u us ih =>
    cases vs with
    | nil => cases huv
    | cons v vs =>
      cases ws with
      | nil => cases hvw
      | cons w ws =>
        rw [unitsLE_go_cons] at huv hvw ⊢
        have hrest := @ih vs ws
        grind

/-- Two rows of units that come before each other are equal. -/
theorem unitsLE_go_antisymm {us vs : List UInt16} (huv : unitsLE.go us vs = true)
    (hvu : unitsLE.go vs us = true) : us = vs := by
  induction us generalizing vs with
  | nil =>
    cases vs with
    | nil => rfl
    | cons v vs => cases hvu
  | cons u us ih =>
    cases vs with
    | nil => cases huv
    | cons v vs =>
      rw [unitsLE_go_cons] at huv hvu
      have hrest := @ih vs
      have huv' : u.toNat = v.toNat := by omega
      rw [UInt16.toNat_inj.mp huv', hrest (by grind) (by grind)]

/-- Leaving out some of the texts commutes with putting them in order. -/
theorem sortByUnits_filter (keep : String → Bool) (texts : List String) :
    sortByUnits (texts.filter keep) = (sortByUnits texts).filter keep := by
  have hordered (list : List String) :
      (sortByUnits list).Pairwise fun s t => unitsLE s t = true := by
    refine List.pairwise_mergeSort (fun r s t hrs hst => ?_) (fun s t => ?_) list
    · exact unitsLE_go_trans hrs hst
    · exact (Bool.or_eq_true _ _).mpr (unitsLE_go_total (units s.toList) (units t.toList))
  refine List.Perm.eq_of_pairwise (fun s t _ _ hst hts => ?_) (hordered _)
    ((hordered texts).filter keep) ?_
  · exact String.toList_injective (units_injective (unitsLE_go_antisymm hst hts))
  · exact (List.mergeSort_perm _ _).trans ((List.mergeSort_perm texts unitsLE).filter keep).symm

end PureLint.Text
