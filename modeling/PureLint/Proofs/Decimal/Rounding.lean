import Mathlib.Data.Nat.Log
import Mathlib.Tactic.Ring
import PureLint.Decimal.Rounding

/-!
# Rounding to 53 bits

The number that a whole number is rounded to is at most half a unit of its last place away. Rounding
keeps the order and changes nothing that fits, so that a limit which fits compares with a whole
number of any size as it compares with its double.
-/

namespace PureLint

variable {m n bits : Nat}

/-- A power of two is not zero. -/
theorem twoTo_pos (bits : Nat) : 0 < twoTo bits := Nat.two_pow_pos bits

/-- Adding up exponents multiplies powers of two. -/
theorem twoTo_add (a b : Nat) : twoTo (a + b) = twoTo a * twoTo b := Nat.pow_add 2 a b

/-- A greater exponent gives a greater power of two. -/
theorem twoTo_le_twoTo {a b : Nat} (h : a ≤ b) : twoTo a ≤ twoTo b :=
  Nat.pow_le_pow_right (by decide) h

/-! ## Halves -/

/-- A quotient is rounded up by half a unit at most. -/
theorem two_mul_roundHalfEven_le (n bits : Nat) :
    2 * (roundHalfEven n bits * twoTo bits) ≤ 2 * n + twoTo bits := by
  have hsplit := Nat.div_add_mod' n (twoTo bits)
  unfold roundHalfEven
  split
  · rename_i hup
    have hhalf : twoTo bits ≤ 2 * (n % twoTo bits) := by
      rcases hup with h | h
      · exact h.le
      · exact h.1.ge
    rw [Nat.add_mul]
    omega
  · omega

/-- A quotient is rounded down by half a unit at most. -/
theorem two_mul_le_roundHalfEven (n bits : Nat) :
    2 * n ≤ 2 * (roundHalfEven n bits * twoTo bits) + twoTo bits := by
  have hsplit := Nat.div_add_mod' n (twoTo bits)
  have hrest := Nat.mod_lt n (twoTo_pos bits)
  unfold roundHalfEven
  split
  · rw [Nat.add_mul]
    omega
  · rename_i hdown
    have hhalf : 2 * (n % twoTo bits) ≤ twoTo bits := not_lt.mp fun h => hdown (Or.inl h)
    omega

/-- Of two whole numbers that are equally near, the even one is taken. -/
theorem even_roundHalfEven (h : 2 * (n % twoTo bits) = twoTo bits) :
    roundHalfEven n bits % 2 = 0 := by
  simp only [roundHalfEven, roundsUp, h, lt_irrefl, true_and, false_or]
  split <;> omega

/-- A quotient that is whole is kept. -/
theorem roundHalfEven_mul (m bits : Nat) : roundHalfEven (m * twoTo bits) bits = m := by
  have hpos := twoTo_pos bits
  simp [roundHalfEven, roundsUp, Nat.mul_div_cancel _ hpos, hpos.ne]

/-- Rounding a quotient keeps the order. -/
theorem roundHalfEven_le_roundHalfEven (bits : Nat) (h : m ≤ n) :
    roundHalfEven m bits ≤ roundHalfEven n bits := by
  have hdiv : m / twoTo bits ≤ n / twoTo bits := Nat.div_le_div_right h
  rcases hdiv.eq_or_lt with heq | hlt
  · -- the quotients are the same, and what rounds up the smaller one rounds up the other
    have hm := Nat.div_add_mod' m (twoTo bits)
    have hn := Nat.div_add_mod' n (twoTo bits)
    have hrest : m % twoTo bits ≤ n % twoTo bits := by
      rw [heq] at hm
      omega
    have hup : roundsUp m bits → roundsUp n bits := by
      unfold roundsUp
      rw [heq]
      omega
    unfold roundHalfEven
    rw [heq]
    split_ifs with hup_m hup_n
    · exact le_rfl
    · exact absurd (hup hup_m) hup_n
    · exact Nat.le_succ _
    · exact le_rfl
  · unfold roundHalfEven
    split_ifs <;> omega

namespace Double

/-! ## Significands -/

/-- A natural number that fits has no bits in excess. -/
theorem excess_eq_zero (h : n < twoTo 53) : excess n = 0 := by
  have hlog : n.log2 < 53 := by
    rcases Nat.eq_zero_or_pos n with rfl | hpos
    · decide
    · exact (Nat.log2_lt hpos.ne').mpr h
  unfold excess
  omega

/-- A natural number that fits is kept. -/
theorem rounded_eq_self (h : n < twoTo 53) : rounded n = n := by
  have hkept := roundHalfEven_mul n 0
  simp only [twoTo, Nat.pow_eq, pow_zero, mul_one] at hkept
  simp only [rounded, excess_eq_zero h, hkept, twoTo, Nat.pow_eq, pow_zero, mul_one]

/-- Without its bits in excess a number has 53 bits at most. -/
theorem lt_twoTo_excess (n : Nat) : n < twoTo (53 + excess n) :=
  lt_of_lt_of_le Nat.lt_log2_self (twoTo_le_twoTo (by unfold excess; omega))

/-- A number with bits in excess fills all 53 bits. -/
theorem twoTo_excess_le (h : 0 < excess n) : twoTo (52 + excess n) ≤ n := by
  have hbits : 52 + excess n = n.log2 := by
    unfold excess at h ⊢
    omega
  have hpos : n ≠ 0 := by
    rintro rfl
    exact absurd h (by decide)
  rw [hbits]
  exact Nat.log2_self_le hpos

/-- A greater number has no fewer bits in excess. -/
theorem excess_le_excess (h : m ≤ n) : excess m ≤ excess n := by
  have hlog : m.log2 ≤ n.log2 := by
    simpa only [Nat.log2_eq_log_two] using Nat.log_mono_right h
  unfold excess
  omega

/-- **Rounding to 53 bits keeps the order.** -/
theorem rounded_le_rounded (h : m ≤ n) : rounded m ≤ rounded n := by
  rcases (excess_le_excess h).eq_or_lt with heq | hlt
  · unfold rounded
    rw [heq]
    exact Nat.mul_le_mul_right _ (roundHalfEven_le_roundHalfEven _ h)
  · -- a power of two between the two numbers is kept by either rounding
    have hlow : rounded m ≤ twoTo (53 + excess m) := by
      have hround := roundHalfEven_le_roundHalfEven (excess m) (lt_twoTo_excess m).le
      rw [twoTo_add, roundHalfEven_mul] at hround
      rw [twoTo_add]
      exact Nat.mul_le_mul_right _ hround
    have hhigh : twoTo (52 + excess n) ≤ rounded n := by
      have hround := roundHalfEven_le_roundHalfEven (excess n)
        (twoTo_excess_le (Nat.zero_lt_of_lt hlt))
      rw [twoTo_add, roundHalfEven_mul] at hround
      rw [twoTo_add]
      exact Nat.mul_le_mul_right _ hround
    exact hlow.trans ((twoTo_le_twoTo (by omega)).trans hhigh)

/-- A number that fits is kept, and one that does not is rounded to none that would. -/
theorem rounded_cases (n : Nat) :
    n < twoTo 53 ∧ rounded n = n ∨ twoTo 53 ≤ n ∧ twoTo 53 ≤ rounded n := by
  rcases Nat.lt_or_ge n (twoTo 53) with hfits | hlarge
  · exact Or.inl ⟨hfits, rounded_eq_self hfits⟩
  · have hedge : rounded (twoTo 53) = twoTo 53 := by decide +kernel
    exact Or.inr ⟨hlarge, hedge ▸ rounded_le_rounded hlarge⟩

/-- **A natural number is rounded by half a unit of its last place at most**, and where two are
equally near, to the one with an even significand. -/
theorem rounded_nearest (n : Nat) :
    2 * rounded n ≤ 2 * n + twoTo (excess n) ∧ 2 * n ≤ 2 * rounded n + twoTo (excess n) ∧
      (2 * (n % twoTo (excess n)) = twoTo (excess n) → roundHalfEven n (excess n) % 2 = 0) :=
  ⟨two_mul_roundHalfEven_le n _, two_mul_le_roundHalfEven n _, even_roundHalfEven⟩

/-! ## Comparison with a limit -/

/-- An integer that fits is kept. -/
theorem ofInt_eq {limit : Int} (hlimit : limit.natAbs < twoTo 53) :
    ofInt limit = .finite (limit < 0) limit.natAbs 0 := by
  have hrange : limit.natAbs < twoTo 1024 := hlimit.trans_le (twoTo_le_twoTo (by decide))
  have hkept := roundHalfEven_mul limit.natAbs 0
  simp only [twoTo, Nat.pow_eq, pow_zero, mul_one] at hkept
  rw [ofInt, ofNat, rounded_eq_self hlimit, if_pos hrange, excess_eq_zero hlimit, hkept]
  rfl

/-- An integer is its magnitude with its sign. -/
theorem signed_natAbs (n : Int) : signed (n < 0) n.natAbs = n := by
  simp only [signed, decide_eq_true_eq]
  split <;> omega

section Limit

variable {limit : Int} {negative : Bool}

/-- A number without a double is beyond all limits that fit. -/
theorem twoTo_le_of_not_rounded_lt (h : ¬rounded n < twoTo 1024) : twoTo 53 ≤ n := by
  rcases rounded_cases n with ⟨hfits, hkept⟩ | ⟨hlarge, -⟩
  · rw [hkept] at h
    exact absurd (hfits.trans_le (twoTo_le_twoTo (by decide))) h
  · exact hlarge

/-- Whole numbers in exact form need no scaling to be compared with one that has no exponent. -/
theorem scale_zero (bits : Nat) :
    twoTo (0 - (bits : Int)).toNat = 1 ∧ ((bits : Int) - 0).toNat = bits := by
  have hnone : (0 - (bits : Int)).toNat = 0 := by omega
  rw [hnone, Int.sub_zero, Int.toNat_natCast]
  exact ⟨rfl, rfl⟩

/-- A limit that fits is on the same side of a whole number as of what that is rounded to. -/
theorem signed_rounded_iff (hlimit : limit.natAbs < twoTo 53) :
    (limit ≤ signed negative (rounded n) ↔ limit ≤ signed negative n) ∧
      (signed negative (rounded n) ≤ limit ↔ signed negative n ≤ limit) := by
  rcases rounded_cases n with ⟨-, hkept⟩ | ⟨hlarge, hrounded⟩
  · rw [hkept]
    exact ⟨Iff.rfl, Iff.rfl⟩
  · unfold signed
    constructor <;> split <;> omega

/-- **A limit that fits compares with the double of a whole number as with the number itself**,
however many bits that has. -/
theorem ofNat_compares (hlimit : limit.natAbs < twoTo 53) :
    ((ofInt limit).le (ofNat negative n) = true ↔ limit ≤ signed negative n) ∧
      ((ofNat negative n).le (ofInt limit) = true ↔ signed negative n ≤ limit) := by
  obtain ⟨hone, hbits⟩ := scale_zero (excess n)
  rw [ofInt_eq hlimit, ofNat]
  split
  · simp only [le, hone, hbits, mul_one, decide_eq_true_eq, signed_natAbs]
    exact signed_rounded_iff hlimit
  · rename_i hbeyond
    have hlarge := twoTo_le_of_not_rounded_lt hbeyond
    constructor <;> cases negative <;> simp [le, signed] <;> omega

end Limit

end Double

end PureLint
