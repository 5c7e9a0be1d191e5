import AiraGraphdb.Schemes.Decimals
import AiraGraphdb.Schemes.IeeeRange

/-! # Order and signs of rounded doubles

Rounding keeps the order, so integers are ordered as doubles as they were before. A sum of numbers
without a sign has none, and only a sum of negative zeros is the negative zero. -/

namespace Schemes.F64

/-! ### Rounding is monotone -/

theorem roundHalfEven_mono {num num' den : ℕ} (h : num ≤ num') :
    roundHalfEven num den ≤ roundHalfEven num' den := by
  have hquotient := Nat.div_le_div_right (c := den) h
  have hnum := Nat.div_add_mod num den
  have hnum' := Nat.div_add_mod num' den
  unfold roundHalfEven
  rcases hquotient.eq_or_lt with heq | hlt
  · -- the quotients agree, so the remainders are ordered
    rw [heq] at hnum ⊢
    split_ifs <;> omega
  · split_ifs <;> omega

theorem roundHalfEven_le_of_lt {num den n : ℕ} (h : num / den < n) : roundHalfEven num den ≤ n :=
  (roundHalfEven_le num den).trans h

theorem le_roundHalfEven (num den : ℕ) : num / den ≤ roundHalfEven num den := by
  unfold roundHalfEven
  split_ifs <;> omega

theorem log2_mono {a b : ℕ} (h : a ≤ b) : a.log2 ≤ b.log2 := by
  rw [Nat.log2_eq_log_two, Nat.log2_eq_log_two]
  exact Nat.log_mono_right h

/-- A larger number is not rounded to a smaller one. -/
theorem roundMagnitude_mono {num num' den : ℕ} (h : num ≤ num') :
    roundMagnitude num den ≤ roundMagnitude num' den := by
  have hquotient := Nat.div_le_div_right (c := den) h
  have hlog := log2_mono hquotient
  rw [roundMagnitude, roundMagnitude]
  refine min_le_min_right _ ?_
  rcases Nat.eq_or_lt_of_le (Nat.sub_le_sub_right hlog 52) with heq | hlt
  · rw [heq]
    exact Nat.add_le_add_left (roundHalfEven_mono h) _
  · -- the exponents differ, and so do the leading bits
    have hlow : roundHalfEven num (den * 2 ^ ((num / den).log2 - 52)) ≤ 2 ^ 53 := by
      refine roundHalfEven_le_of_lt ?_
      rw [← Nat.div_div_eq_div_mul]
      refine Nat.div_lt_of_lt_mul ?_
      rw [← pow_add]
      exact lt_of_lt_of_le Nat.lt_log2_self (Nat.pow_le_pow_right (by omega) (by omega))
    have hhigh : 2 ^ 52 ≤ roundHalfEven num' (den * 2 ^ ((num' / den).log2 - 52)) := by
      refine le_trans ?_ (le_roundHalfEven _ _)
      rw [← Nat.div_div_eq_div_mul]
      refine (Nat.le_div_iff_mul_le (Nat.two_pow_pos _)).mpr ?_
      rw [← pow_add, show 52 + ((num' / den).log2 - 52) = (num' / den).log2 by omega]
      refine Nat.log2_self_le fun hzero => ?_
      rw [hzero, Nat.log2_zero] at hlt
      omega
    simp only [Nat.reducePow] at hlow hhigh ⊢
    omega

theorem roundMagnitude_le_infinite (num den : ℕ) : roundMagnitude num den ≤ infinite :=
  min_le_right _ _

/-- What is not zero is not rounded to zero when it is a whole number of units. -/
theorem roundMagnitude_pos {num : ℕ} (h : num ≠ 0) : roundMagnitude num 1 ≠ 0 := by
  have hone : roundMagnitude 1 1 = 1 := by decide
  have hmono : roundMagnitude 1 1 ≤ roundMagnitude num 1 :=
    roundMagnitude_mono (Nat.one_le_iff_ne_zero.mpr h)
  omega

/-! ### Parts -/

theorem toNat_ofParts {neg : Bool} {magnitude : ℕ} (h : magnitude ≤ infinite) :
    (ofParts neg magnitude).bits.toNat = (if neg then 2 ^ 63 else 0) + magnitude := by
  refine UInt64.toNat_ofNat_of_lt' ?_
  simp only [infinite, Nat.reducePow, Nat.reduceMul] at h
  show _ < 2 ^ 64
  split_ifs <;> omega

theorem negative_ofParts {neg : Bool} {magnitude : ℕ} (h : magnitude ≤ infinite) :
    (ofParts neg magnitude).negative = neg := by
  rw [negative, toNat_ofParts h]
  simp only [infinite, Nat.reducePow, Nat.reduceMul] at h
  cases neg
  · simp only [Bool.false_eq_true, if_false, Nat.reducePow, decide_eq_false_iff_not]
    omega
  · simp

theorem magnitude_of_le_infinite {neg : Bool} {magnitude : ℕ} (h : magnitude ≤ infinite) :
    (ofParts neg magnitude).magnitude = magnitude :=
  magnitude_ofParts neg (h.trans_lt (by decide))

theorem isNan_ofParts {neg : Bool} {magnitude : ℕ} (h : magnitude ≤ infinite) :
    (ofParts neg magnitude).isNan = false := by
  rw [isNan, magnitude_of_le_infinite h, decide_eq_false_iff_not]
  omega

/-! ### Integers -/

theorem natAbs_natCast_shift (n k : ℕ) : ((n : ℤ) * 2 ^ k).natAbs = n * 2 ^ k := by
  rw [Int.natAbs_mul, Int.natAbs_pow]
  rfl

theorem ofInt_natCast (n : ℕ) : ofInt n = ofParts false (roundMagnitude (n * 2 ^ 1074) 1) := by
  have hnonneg : ¬ (n : ℤ) * 2 ^ 1074 < 0 := by
    have : (0 : ℤ) ≤ n * 2 ^ 1074 := by positivity
    omega
  rw [ofInt, ofUnits, decide_eq_false hnonneg, natAbs_natCast_shift]

theorem ofInt_zero : ofInt 0 = zero := by
  rw [ofInt, Int.zero_mul]
  decide

theorem isNan_ofInt (n : ℕ) : (ofInt n).isNan = false := by
  rw [ofInt_natCast, isNan_ofParts (roundMagnitude_le_infinite _ _)]

theorem place_ofInt (n : ℕ) : (ofInt n).place = roundMagnitude (n * 2 ^ 1074) 1 := by
  have hle := roundMagnitude_le_infinite (n * 2 ^ 1074) 1
  rw [place, ofInt_natCast, negative_ofParts hle, magnitude_of_le_infinite hle]
  rfl

/-- Integers are ordered as doubles as they are. -/
theorem le_ofInt {n m : ℕ} (h : n ≤ m) : le (ofInt n) (ofInt m) = true := by
  rw [le, isNan_ofInt, isNan_ofInt, place_ofInt, place_ofInt, Bool.not_false, Bool.true_and,
    Bool.true_and, decide_eq_true_iff, Nat.cast_le]
  exact roundMagnitude_mono (Nat.mul_le_mul_right (2 ^ 1074) h)

/-! ### Signs -/

theorem negative_nan : nan.negative = false := by decide

theorem units_nonneg {x : F64} (h : x.negative = false) : 0 ≤ x.units := by
  rw [units, h]
  simp

theorem negative_abs (x : F64) : x.abs.negative = false := by
  have hlt := Nat.mod_lt x.bits.toNat (Nat.two_pow_pos 63)
  rw [abs, negative, ofParts, decide_eq_false_iff_not]
  rw [UInt64.toNat_ofNat_of_lt' (lt_of_lt_of_le (by simpa [magnitude] using hlt) (by decide))]
  simpa [magnitude] using hlt

/-- A sum of numbers without a sign has none. -/
theorem negative_add {x y : F64} (hx : x.negative = false) (hy : y.negative = false) :
    (add x y).negative = false := by
  unfold add
  split_ifs
  · exact negative_nan
  · exact negative_nan
  · exact hx
  · exact hy
  · rw [hx, hy, Bool.and_self, negative_ofParts (Nat.zero_le _)]
  · have hsum := Int.add_nonneg (units_nonneg hx) (units_nonneg hy)
    rw [ofUnits, negative_ofParts (roundMagnitude_le_infinite _ _), decide_eq_false_iff_not]
    omega

theorem unitsOf_pos {n : ℕ} (h : n ≠ 0) : 0 < unitsOf n := by
  rw [unitsOf]
  split_ifs
  · omega
  · positivity

/-- Only a sum of negative zeros is the negative zero. -/
theorem add_ne_negZero {x y : F64} (hx : x ≠ negZero) : add x y ≠ negZero := by
  intro h
  unfold add at h
  split_ifs at h with hnan hinfinite hopposite hinfinite' hsum
  · exact absurd h (by decide)
  · exact absurd h (by decide)
  · exact hx h
  · rw [h] at hinfinite'
    exact absurd hinfinite' (by decide)
  · have hneg := congrArg negative h
    rw [negative_ofParts (Nat.zero_le _), show negZero.negative = true by decide,
      Bool.and_eq_true] at hneg
    rw [units, units, hneg.1, hneg.2, if_pos rfl, if_pos rfl] at hsum
    refine hx ?_
    have hzero : x.magnitude = 0 := by
      by_contra hne
      have := unitsOf_pos hne
      omega
    obtain ⟨bits⟩ := x
    have hbits : bits.toNat = 2 ^ 63 := by
      have hlt := bits.toNat_lt
      have hsign := hneg.1
      simp only [magnitude, negative, decide_eq_true_iff] at hzero hsign
      omega
    exact congrArg F64.mk (UInt64.toNat_inj.mp (hbits.trans (by decide)))
  · have hmagnitude := congrArg magnitude h
    rw [ofUnits, magnitude_of_le_infinite (roundMagnitude_le_infinite _ _)] at hmagnitude
    exact roundMagnitude_pos (Int.natAbs_ne_zero.mpr hsum) (hmagnitude.trans (by decide))

/-- Without a sign a number is not below zero. -/
theorem zero_le {x : F64} (hx : x.negative = false) (hnan : x.isNan = false) :
    le zero x = true := by
  have hzero : zero.place = 0 := by decide
  have hnan' : zero.isNan = false := by decide
  rw [le, hnan, hnan', hzero, place, hx, Bool.not_false, Bool.true_and, Bool.true_and,
    decide_eq_true_iff]
  exact Int.natCast_nonneg _

end Schemes.F64
