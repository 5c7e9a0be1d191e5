import AiraGraphdb.Schemes.Ieee

/-! # Integers within the range of the doubles -/

namespace Schemes.F64

theorem isFinite_ofParts {neg : Bool} {magnitude : ℕ} (h : magnitude < infinite) :
    (ofParts neg magnitude).isFinite = true := by
  simp only [infinite, Nat.reducePow, Nat.reduceMul] at h
  rw [isFinite, ofParts, UInt64.toNat_ofNat', bne_iff_ne]
  cases neg
  · simp only [Bool.false_eq_true, if_false, Nat.reducePow]
    omega
  · simp only [if_true, Nat.reducePow]
    omega

theorem magnitude_lt_of_finite {x : F64} (h : x.isFinite = true) : x.magnitude < infinite
    ∨ infinite < x.magnitude := by
  simp only [isFinite, bne_iff_ne, ne_eq, Nat.reducePow] at h
  simp only [magnitude, infinite, Nat.reducePow, Nat.reduceMul]
  omega

theorem roundHalfEven_le (num den : ℕ) : roundHalfEven num den ≤ num / den + 1 := by
  unfold roundHalfEven
  split_ifs <;> omega

/-- Far below the greatest exponent nothing is rounded to an infinity. -/
theorem roundMagnitude_lt {num e : ℕ} (h : num < 2 ^ e) (he : 53 ≤ e) (he' : e ≤ 2000) :
    roundMagnitude num 1 < infinite := by
  have hlog : num.log2 < e := by
    rcases Nat.eq_zero_or_pos num with rfl | hpos
    · rw [Nat.log2_zero]
      omega
    · exact (Nat.log2_lt hpos.ne').mpr h
  rw [roundMagnitude, Nat.div_one, one_mul]
  refine lt_of_le_of_lt (min_le_left _ _) ?_
  have hquotient : num / 2 ^ (num.log2 - 52) < 2 ^ 53 := by
    refine Nat.div_lt_of_lt_mul ?_
    rw [← pow_add]
    exact lt_of_lt_of_le Nat.lt_log2_self (Nat.pow_le_pow_right (by omega) (by omega))
  have hround := roundHalfEven_le num (2 ^ (num.log2 - 52))
  simp only [infinite, Nat.reducePow, Nat.reduceMul] at hquotient ⊢
  omega

theorem natAbs_shift {n : ℤ} {a b : ℕ} (h : n.natAbs < 2 ^ a) : (n * 2 ^ b).natAbs < 2 ^ (a + b) := by
  rw [Int.natAbs_mul, Int.natAbs_pow, pow_add]
  exact Nat.mul_lt_mul_of_pos_right h (Nat.two_pow_pos _)

theorem isFinite_ofInt {n : ℤ} (h : n.natAbs < 2 ^ 64) : (ofInt n).isFinite = true :=
  isFinite_ofParts (roundMagnitude_lt (natAbs_shift h) (by omega) (by omega))

end Schemes.F64
