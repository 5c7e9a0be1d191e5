import AiraGraphdb.Schemes.Ieee
import AiraGraphdb.Schemes.Occurrences

/-! # Numbers in decimal digits

What the text of an integer or of a decimal fraction is read as: a sign, then digits, and for a
fraction a point somewhere among them. -/

namespace Schemes.Text

abbrev Digits (s : Text) : Prop := ∀ c ∈ s, c.isDigit = true

/-- The number that a row of digits stands for. -/
def digitsValue (s : Text) : ℕ := s.foldl (fun n c => 10 * n + (c.toNat - '0'.toNat)) 0

theorem foldlM_digits {s : Text} (h : Digits s) (n : ℕ) :
    s.foldlM (fun n c => (digit? c).map (10 * n + ·)) n =
      some (s.foldl (fun n c => 10 * n + (c.toNat - '0'.toNat)) n) := by
  induction s generalizing n with
  | nil => rfl
  | cons c cs ih =>
    rw [List.foldlM_cons, digit?, if_pos (h c (by simp))]
    exact ih (fun x hx => h x (by simp [hx])) _

theorem digits?_eq_some {s : Text} (hne : s ≠ []) (h : Digits s) :
    digits? s = some (digitsValue s) := by
  rw [digits?, if_neg (by simpa using hne), foldlM_digits h, digitsValue]

theorem digits?_eq_none {s : Text} {c : Char} (hc : c ∈ s) (hdigit : c.isDigit = false) :
    digits? s = none := by
  have hfold (n : ℕ) : s.foldlM (fun n c => (digit? c).map (10 * n + ·)) n = none := by
    induction s generalizing n with
    | nil => cases hc
    | cons d s ih =>
      rw [List.foldlM_cons]
      rcases List.mem_cons.mp hc with rfl | hs
      · rw [digit?, if_neg (by simp [hdigit])]
        rfl
      · rcases digit? d with _ | k
        · rfl
        · exact ih hs _
  rw [digits?, hfold, ite_self]

/-! ### Signs -/

inductive Sign where
  | none
  | plus
  | minus
  deriving DecidableEq

def Sign.text : Sign → Text
  | .none => []
  | .plus => ['+']
  | .minus => ['-']

def Sign.negative (σ : Sign) : Bool := decide (σ = .minus)

theorem sign_text (σ : Sign) {s : Text} (h : ∀ c ∈ s.head?, c ≠ '+' ∧ c ≠ '-') :
    sign (σ.text ++ s) = (σ.negative, s) := by
  cases σ with
  | plus => rfl
  | minus => rfl
  | none =>
    rcases s with _ | ⟨c, s⟩
    · rfl
    · obtain ⟨hplus, hminus⟩ := h c rfl
      refine sign.eq_3 (c :: s) ?_ ?_
      · rintro r heq
        exact hminus (List.cons.inj heq).1
      · rintro r heq
        exact hplus (List.cons.inj heq).1

theorem Digits.head {s : Text} (h : Digits s) : ∀ c ∈ s.head?, c ≠ '+' ∧ c ≠ '-' := by
  intro c hc
  have hdigit := h c (List.mem_of_head? hc)
  constructor <;> rintro rfl <;> cases hdigit

/-! ### Integers -/

/-- An integer of 64 bits in its digits. -/
structure Integer where
  sign : Sign
  digits : Text
  ne_nil : digits ≠ []
  isDigits : Digits digits
  /-- The magnitude fits: the least integer has no positive counterpart. -/
  fits : digitsValue digits < 2 ^ 63 ∨ sign = .minus ∧ digitsValue digits = 2 ^ 63

namespace Integer

variable (i : Integer)

def text : Text := i.sign.text ++ i.digits

def toInt : ℤ := if i.sign.negative then -(digitsValue i.digits) else digitsValue i.digits

theorem parseI64_text : parseI64 i.text = some (Int64.ofInt i.toInt) := by
  have hread := digits?_eq_some i.ne_nil i.isDigits
  rw [parseI64, text, sign_text _ i.isDigits.head, toInt]
  simp only [hread, Option.bind_eq_bind, Option.bind_some]
  rcases hneg : i.sign.negative with _ | _
  · have hlt : digitsValue i.digits < 2 ^ 63 := by
      refine i.fits.resolve_right fun h => ?_
      rw [h.1] at hneg
      cases hneg
    rw [if_neg Bool.false_ne_true, if_pos hlt, if_neg Bool.false_ne_true]
    rfl
  · have hle : digitsValue i.digits ≤ 2 ^ 63 := by
      rcases i.fits with h | h <;> omega
    rw [if_pos rfl, if_pos rfl, if_pos hle]

end Integer

/-! ### Fractions -/

theorem eqIgnoreAsciiCase_eq_false {s t : Text} {c : Char} (hc : c ∈ s)
    (ht : (t.map Char.toLower).contains c.toLower = false) : eqIgnoreAsciiCase s t = false := by
  rw [eqIgnoreAsciiCase, beq_eq_false_iff_ne]
  intro heq
  have hmem : c.toLower ∈ t.map Char.toLower := heq ▸ List.mem_map_of_mem hc
  rw [← List.contains_iff_mem, ht] at hmem
  cases hmem

theorem toLower_digit {c : Char} (h : c.isDigit = true) : c.toLower = c := by
  rw [Char.isDigit, Bool.and_eq_true, decide_eq_true_iff, decide_eq_true_iff] at h
  rw [Char.toLower, dif_neg]
  rintro ⟨hge, -⟩
  have hle : 'A'.val ≤ '9'.val := UInt32.le_trans hge h.2
  exact absurd hle (by decide)

/-- A text with a digit is no word without digits. -/
theorem eqIgnoreAsciiCase_digit {s t : Text} {c : Char} (hc : c ∈ s) (hdigit : c.isDigit = true)
    (ht : (t.map Char.toLower).all (!·.isDigit) = true) : eqIgnoreAsciiCase s t = false := by
  refine eqIgnoreAsciiCase_eq_false hc ?_
  rw [toLower_digit hdigit]
  by_contra hmem
  rw [Bool.not_eq_false, List.contains_iff_mem] at hmem
  have := List.all_eq_true.mp ht c hmem
  rw [hdigit] at this
  cases this

/-- The power of ten of a number. -/
structure Exponent where
  capital : Bool
  sign : Sign
  digits : Text
  ne_nil : digits ≠ []
  isDigits : Digits digits

namespace Exponent

variable (e : Exponent)

def mark : Char := if e.capital then 'E' else 'e'

def text : Text := e.mark :: (e.sign.text ++ e.digits)

def toInt : ℤ := if e.sign.negative then -(digitsValue e.digits : ℤ) else digitsValue e.digits

theorem exponent?_text : F64.exponent? (e.sign.text ++ e.digits) = some e.toInt := by
  rw [F64.exponent?, sign_text _ e.isDigits.head, digits?_eq_some e.ne_nil e.isDigits]
  rfl

theorem mark_marks : (decide (e.mark = 'e') || decide (e.mark = 'E')) = true := by
  rw [mark]
  cases e.capital <;> rfl

end Exponent

/-- A number in its decimal digits, perhaps with a point and an exponent. -/
structure Number where
  sign : Sign
  whole : Text
  fraction : Option Text
  exponent : Option Exponent
  ne_nil : whole ++ fraction.getD [] ≠ []
  isDigits : Digits (whole ++ fraction.getD [])

namespace Number

variable (x : Number)

def mantissa : Text := x.whole ++ x.fraction.elim [] ('.' :: ·)

/-- The number without its sign. -/
def body : Text := x.mantissa ++ x.exponent.elim [] Exponent.text

def text : Text := x.sign.text ++ x.body

/-- The double nearest to the number. -/
def toF64 : F64 :=
  F64.ofDecimal x.sign.negative (digitsValue (x.whole ++ x.fraction.getD []))
    (x.exponent.elim 0 Exponent.toInt - (x.fraction.getD []).length)

/-- A number that is no integer by its text. -/
def Fractional : Prop := x.fraction.isSome = true ∨ x.exponent.isSome = true

theorem mem_mantissa {c : Char} (hc : c ∈ x.mantissa) : c.isDigit = true ∨ c = '.' := by
  have hdigits := x.isDigits
  rw [mantissa, List.mem_append] at hc
  rcases hc with hc | hc
  · exact .inl (hdigits c (List.mem_append_left _ hc))
  · rcases hf : x.fraction with _ | f <;> rw [hf] at hc hdigits
    · cases hc
    · rcases List.mem_cons.mp hc with rfl | hc
      · exact .inr rfl
      · exact .inl (hdigits c (List.mem_append_right _ hc))

theorem exists_digit : ∃ c ∈ x.body, c.isDigit = true := by
  obtain ⟨c, hc⟩ := List.exists_mem_of_ne_nil _ x.ne_nil
  refine ⟨c, List.mem_append_left _ ?_, x.isDigits c hc⟩
  rw [mantissa]
  rcases List.mem_append.mp hc with hc | hc
  · exact List.mem_append_left _ hc
  · rcases hf : x.fraction with _ | f <;> rw [hf] at hc
    · cases hc
    · exact List.mem_append_right _ (List.mem_cons_of_mem _ hc)

/-- What the characters of a number are. -/
def numberChar (c : Char) : Bool :=
  c.isDigit || c == '.' || c == '+' || c == '-' || c == 'e' || c == 'E'

theorem numberChar_sign (σ : Sign) : ∀ c ∈ σ.text, numberChar c = true := by
  cases σ with
  | none => nofun
  | plus => exact List.forall_mem_singleton.mpr rfl
  | minus => exact List.forall_mem_singleton.mpr rfl

theorem numberChar_body : ∀ c ∈ x.body, numberChar c = true := by
  intro c hc
  rcases List.mem_append.mp hc with hc | hc
  · rcases x.mem_mantissa hc with hdigit | rfl
    · simp [numberChar, hdigit]
    · rfl
  · rcases he : x.exponent with _ | e <;> rw [he] at hc
    · cases hc
    · rcases List.mem_cons.mp hc with rfl | hc
      · have hmark := e.mark_marks
        simp only [Bool.or_eq_true, decide_eq_true_eq] at hmark
        rcases hmark with h | h <;> rw [h] <;> rfl
      · rcases List.mem_append.mp hc with hc | hc
        · exact numberChar_sign _ c hc
        · simp [numberChar, e.isDigits c hc]

theorem numberChar_text : ∀ c ∈ x.text, numberChar c = true := by
  intro c hc
  rcases List.mem_append.mp hc with hc | hc
  · exact numberChar_sign _ c hc
  · exact x.numberChar_body c hc

theorem sign_text : Text.sign x.text = (x.sign.negative, x.body) := by
  refine Text.sign_text x.sign fun c hc => ?_
  have hdot : c.isDigit = true ∨ c = '.' := by
    refine x.mem_mantissa (List.mem_of_mem_head? ?_)
    rw [body, List.head?_append_of_ne_nil] at hc
    · exact hc
    · intro hnil
      obtain ⟨hwhole, hfraction⟩ := List.append_eq_nil_iff.mp hnil
      refine x.ne_nil ?_
      rcases hf : x.fraction with _ | f <;> rw [hf] at hfraction
      · rw [hwhole]
        rfl
      · cases hfraction
  rcases hdot with hdigit | rfl
  · constructor <;> rintro rfl <;> cases hdigit
  · exact ⟨by decide, by decide⟩

/-- The text of a number with a point or an exponent is none of an integer. -/
theorem parseI64_text (h : x.Fractional) : parseI64 x.text = none := by
  obtain ⟨c, hc, hdigit⟩ : ∃ c ∈ x.body, c.isDigit = false := by
    rcases h with h | h
    · obtain ⟨f, hf⟩ := Option.isSome_iff_exists.mp h
      exact ⟨'.', by simp [body, mantissa, hf], rfl⟩
    · obtain ⟨e, he⟩ := Option.isSome_iff_exists.mp h
      refine ⟨e.mark, by simp [body, Exponent.text, he], ?_⟩
      rw [Exponent.mark]
      cases e.capital <;> rfl
  rw [parseI64, sign_text]
  simp only [digits?_eq_none hc hdigit, Option.bind_eq_bind, Option.bind_none]

theorem mantissa?_mantissa : F64.mantissa? x.mantissa =
    some (digitsValue (x.whole ++ x.fraction.getD []), (x.fraction.getD []).length) := by
  have hread := digits?_eq_some x.ne_nil x.isDigits
  have hclear (rest : Text) : Clear ['.'] x.whole rest := by
    refine clear_of_head (p := (· ≠ '.')) (by simp) (fun c hc => ?_) _
    rintro rfl
    cases x.isDigits '.' (List.mem_append_left _ hc)
  rw [F64.mantissa?, mantissa]
  rcases hf : x.fraction with _ | f <;> rw [hf] at hread
  · rw [Option.elim_none, List.append_nil, splitOnce_eq_none (by simp) (hclear [])]
    simp only [Option.getD_none] at hread ⊢
    rw [hread]
    rfl
  · have hsplit : splitOnce ['.'] (x.whole ++ '.' :: f) = some (x.whole, f) :=
      splitOnce_append (hclear _)
    rw [Option.elim_some, hsplit]
    simp only [Option.getD_some] at hread ⊢
    rw [hread]
    rfl

theorem ofText_text : F64.ofText x.text = some x.toF64 := by
  obtain ⟨d, hd, hdigit⟩ := x.exists_digit
  have hplain : ∀ c ∈ x.mantissa, (decide (c = 'e') || decide (c = 'E')) = false := by
    intro c hc
    rcases x.mem_mantissa hc with hdigit | rfl
    · have hlower : c ≠ 'e' := by rintro rfl; cases hdigit
      have hupper : c ≠ 'E' := by rintro rfl; cases hdigit
      simp [hlower, hupper]
    · rfl
  have hnone : x.mantissa.findIdx? (fun c => c = 'e' || c = 'E') = none :=
    List.findIdx?_eq_none_iff.mpr hplain
  rw [F64.ofText, sign_text]
  dsimp only
  rw [eqIgnoreAsciiCase_digit hd hdigit (by decide), eqIgnoreAsciiCase_digit hd hdigit (by decide),
    eqIgnoreAsciiCase_digit hd hdigit (by decide), toF64, body]
  rcases x.exponent with _ | e
  · rw [Option.elim_none, Option.elim_none, List.append_nil, hnone, mantissa?_mantissa, zero_sub]
    rfl
  · have hsome : (x.mantissa ++ e.text).findIdx? (fun c => c = 'e' || c = 'E')
        = some x.mantissa.length := by
      rw [List.findIdx?_append, hnone, Exponent.text, List.findIdx?_cons, e.mark_marks]
      simp
    have hdrop : (x.mantissa ++ e.text).drop (x.mantissa.length + 1) = e.sign.text ++ e.digits := by
      rw [Exponent.text, List.append_cons]
      exact List.drop_left' (by simp)
    rw [Option.elim_some, Option.elim_some, hsome]
    simp only [Bool.or_self, Bool.false_eq_true, if_false]
    rw [List.take_left, mantissa?_mantissa, hdrop, e.exponent?_text]
    rfl

end Number

/-! ### No numbers -/

/-- A character that begins no number. -/
structure NoNumber (c : Char) : Prop where
  isDigit : c.isDigit = false
  sign : c ≠ '+' ∧ c ≠ '-'
  point : c ≠ '.'
  exponent : (decide (c = 'e') || decide (c = 'E')) = false
  special : "infinitynan".toList.contains c.toLower = false

section NoNumber

variable {s : Text} {c : Char}

theorem NoNumber.sign_cons (h : NoNumber c) : Text.sign (c :: s) = (false, c :: s) :=
  @Text.sign_text .none (c :: s) fun d hd => by
    obtain rfl := Option.some.inj hd
    exact h.sign

theorem NoNumber.parseI64 (h : NoNumber c) : parseI64 (c :: s) = none := by
  rw [Text.parseI64, h.sign_cons]
  simp only [digits?_eq_none (s := c :: s) (by simp) h.isDigit, Option.bind_eq_bind,
    Option.bind_none]

theorem NoNumber.mantissa? (h : NoNumber c) : F64.mantissa? (c :: s) = none := by
  have hnone (t u : Text) : digits? (c :: t ++ u) = none := digits?_eq_none (by simp) h.isDigit
  rw [F64.mantissa?]
  rcases hsplit : splitOnce ['.'] (c :: s) with _ | ⟨whole, fraction⟩
  · dsimp only
    rw [hnone]
    rfl
  · obtain ⟨i, hi, hpieces⟩ := Option.map_eq_some_iff.mp hsplit
    rw [find, if_neg (by simp [startsWith, h.point.symm])] at hi
    obtain ⟨j, -, rfl⟩ := Option.map_eq_some_iff.mp hi
    cases hpieces
    dsimp only
    rw [List.take_succ_cons, hnone]
    rfl

theorem NoNumber.ofText (h : NoNumber c) : F64.ofText (c :: s) = none := by
  have hnot {t : Text} (ht : (t.map Char.toLower).all ("infinitynan".toList.contains ·) = true) :
      eqIgnoreAsciiCase (c :: s) t = false := by
    refine eqIgnoreAsciiCase_eq_false (c := c) (by simp) ?_
    by_contra hmem
    rw [Bool.not_eq_false, List.contains_iff_mem] at hmem
    have := List.all_eq_true.mp ht _ hmem
    rw [h.special] at this
    cases this
  rw [F64.ofText, h.sign_cons]
  dsimp only
  rw [hnot (by decide), hnot (by decide), hnot (by decide), List.findIdx?_cons, h.exponent]
  rcases List.findIdx? (fun c => decide (c = 'e') || decide (c = 'E')) s with _ | i
  · simp [h.mantissa?]
  · simp [h.mantissa?]

end NoNumber

end Schemes.Text

namespace Schemes.F64

theorem magnitude_ofParts (neg : Bool) {m : ℕ} (h : m < 2 ^ 63) : (ofParts neg m).magnitude = m := by
  have hbound : (if neg then 2 ^ 63 else 0) + m < 2 ^ 64 := by
    split_ifs <;> omega
  rw [magnitude, ofParts]
  simp only [UInt64.toNat_ofNat']
  rw [Nat.mod_eq_of_lt hbound]
  split_ifs <;> omega

theorem isNan_ofDecimal (neg : Bool) (digits : ℕ) (exponent : ℤ) :
    (ofDecimal neg digits exponent).isNan = false := by
  have hle : roundMagnitude (digits * 10 ^ exponent.toNat * 2 ^ 1074) (10 ^ (-exponent).toNat)
      ≤ infinite := Nat.min_le_right _ _
  have hlt : infinite < 2 ^ 63 := by decide
  rw [isNan, ofDecimal, magnitude_ofParts neg (hle.trans_lt hlt)]
  exact decide_eq_false (not_lt.mpr hle)

theorem isNan_number (x : Text.Number) : x.toF64.isNan = false := by
  rw [Text.Number.toF64]
  exact isNan_ofDecimal _ _ _

theorem eq_self {x : F64} (h : x.isNan = false) : x.eq x = true := by
  simp [eq, h]

end Schemes.F64
