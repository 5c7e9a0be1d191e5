import AiraGraphdb.Schemes.Float
import AiraGraphdb.Schemes.Json.Text

/-! # JSON numbers

A number is an unsigned or a negative 64-bit integer, or a finite double. Integers are printed and
read here. How a double is printed and read is left to a `FloatText`, which states what any correct
printer and reader do: the text is a JSON number that is not an integer, and it reads back as the
same double. -/

namespace Schemes.Json

/-! ### Decimal digits -/

def isDigit (b : UInt8) : Bool := 48 ≤ b && b ≤ 57

/-- The decimal digits of a number, most significant first. -/
def decimal (n : ℕ) : Bytes := (Nat.toDigits 10 n).map fun c => UInt8.ofNat c.toNat

/-- The number with these decimal digits. -/
def ofDecimal (bs : Bytes) : ℕ := bs.foldl (fun n b => 10 * n + (b.toNat - 48)) 0

theorem decimal_of_lt {n : ℕ} (h : n < 10) : decimal n = [UInt8.ofNat (48 + n)] := by
  rw [decimal, Nat.toDigits_of_lt_base h, List.map_singleton, Nat.toNat_digitChar_of_lt_ten h]

theorem decimal_of_ge {n : ℕ} (h : 10 ≤ n) :
    decimal n = decimal (n / 10) ++ [UInt8.ofNat (48 + n % 10)] := by
  rw [decimal, Nat.toDigits_of_base_le (by omega) h, List.map_append, List.map_singleton,
    Nat.toNat_digitChar_of_lt_ten (Nat.mod_lt n (by omega)), ← decimal]

theorem isDigit_ofNat {d : ℕ} (h : d < 10) : isDigit (UInt8.ofNat (48 + d)) = true := by
  have key : ∀ e < 10, isDigit (UInt8.ofNat (48 + e)) = true := by decide
  exact key d h

/-- The digits of a number: they are digits, they give the number back, and the first is zero only
    for zero. -/
theorem decimal_spec (n : ℕ) :
    (∀ b ∈ decimal n, isDigit b = true) ∧ ofDecimal (decimal n) = n ∧
      ∃ d ds, decimal n = d :: ds ∧ (d = 48 → n = 0 ∧ ds = []) := by
  induction n using Nat.strong_induction_on with
  | _ n ih =>
    have hval : ∀ d < 10, (UInt8.ofNat (48 + d)).toNat = 48 + d := by decide
    rcases Nat.lt_or_ge n 10 with h | h
    · rw [decimal_of_lt h]
      refine ⟨?_, ?_, UInt8.ofNat (48 + n), [], rfl, ?_⟩
      · intro b hb
        rw [List.mem_singleton.mp hb]
        exact isDigit_ofNat h
      · simp only [ofDecimal, List.foldl_cons, List.foldl_nil, hval n h]
        omega
      · intro hz
        have := congrArg UInt8.toNat hz
        rw [hval n h] at this
        exact ⟨by simpa using this, rfl⟩
    · obtain ⟨hd, hv, d, ds, he, hz⟩ := ih (n / 10) (by omega)
      have hm : n % 10 < 10 := Nat.mod_lt n (by omega)
      rw [decimal_of_ge h]
      refine ⟨?_, ?_, d, ds ++ [UInt8.ofNat (48 + n % 10)], by rw [he]; rfl, ?_⟩
      · intro b hb
        rcases List.mem_append.mp hb with hb | hb
        · exact hd b hb
        · rw [List.mem_singleton.mp hb]
          exact isDigit_ofNat hm
      · rw [ofDecimal, List.foldl_append, ← ofDecimal, hv]
        simp only [List.foldl_cons, List.foldl_nil, hval _ hm]
        omega
      · intro hd48
        have := (hz hd48).1
        omega

theorem ofDecimal_decimal (n : ℕ) : ofDecimal (decimal n) = n := (decimal_spec n).2.1

/-! ### Lexemes -/

/-- A byte that can stand in a number. -/
def isNumberByte (b : UInt8) : Bool :=
  isDigit b || b == 0x2D || b == 0x2B || b == 0x2E || b == 0x65 || b == 0x45

/-- A byte that makes a number other than an integer. -/
def isFloatMark (b : UInt8) : Bool := b == 0x2E || b == 0x65 || b == 0x45

/-- What follows a number: the end, or a byte that cannot be part of one. -/
def NumberEnds (r : Bytes) : Prop := ∀ b, r.head? = some b → isNumberByte b = false

def lexSign : Bytes → Bytes × Bytes
  | [] => ([], [])
  | b :: r => if b = 0x2D then ([b], r) else ([], b :: r)

/-- One or more digits. -/
def lexDigits (bs : Bytes) : Option (Bytes × Bytes) :=
  if (bs.takeWhile isDigit).isEmpty then none
  else some (bs.takeWhile isDigit, bs.dropWhile isDigit)

/-- An integer without a superfluous zero in front. -/
def lexInteger (bs : Bytes) : Option (Bytes × Bytes) := do
  let (ds, r) ← lexDigits bs
  if ds.head? = some 48 ∧ ds ≠ [48] then none else return (ds, r)

def lexFraction : Bytes → Option (Bytes × Bytes)
  | [] => some ([], [])
  | b :: r => if b = 0x2E then (lexDigits r).map fun p => (b :: p.1, p.2) else some ([], b :: r)

def lexExponentSign : Bytes → Bytes × Bytes
  | [] => ([], [])
  | b :: r => if b = 0x2D ∨ b = 0x2B then ([b], r) else ([], b :: r)

def lexExponent : Bytes → Option (Bytes × Bytes)
  | [] => some ([], [])
  | b :: r =>
    if b = 0x65 ∨ b = 0x45 then
      (lexDigits (lexExponentSign r).2).map fun p => (b :: (lexExponentSign r).1 ++ p.1, p.2)
    else some ([], b :: r)

def lexNumber (bs : Bytes) : Option (Bytes × Bytes) := do
  let (int, r) ← lexInteger (lexSign bs).2
  let (frac, r) ← lexFraction r
  let (exp, r) ← lexExponent r
  return ((lexSign bs).1 ++ int ++ frac ++ exp, r)

theorem takeWhile_isDigit {ds r : Bytes} (hd : ∀ b ∈ ds, isDigit b = true) (hr : NumberEnds r) :
    (ds ++ r).takeWhile isDigit = ds ∧ (ds ++ r).dropWhile isDigit = r := by
  have hstop : r.takeWhile isDigit = [] ∧ r.dropWhile isDigit = r := by
    rcases r with _ | ⟨b, r⟩
    · exact ⟨rfl, rfl⟩
    · have := hr b rfl
      have hb : isDigit b = false := by
        simp only [isNumberByte, Bool.or_eq_false_iff] at this
        exact this.1.1.1.1.1
      exact ⟨List.takeWhile_cons_of_neg (by simp [hb]), List.dropWhile_cons_of_neg (by simp [hb])⟩
  rw [List.takeWhile_append_of_pos hd, List.dropWhile_append_of_pos hd, hstop.1, hstop.2,
    List.append_nil]
  exact ⟨rfl, rfl⟩

theorem lexFraction_end {r : Bytes} (hr : NumberEnds r) : lexFraction r = some ([], r) := by
  rcases r with _ | ⟨b, r⟩
  · rfl
  · have := hr b rfl
    have hb : b ≠ 0x2E := by rintro rfl; exact absurd this (by decide)
    rw [lexFraction, if_neg hb]

theorem lexExponent_end {r : Bytes} (hr : NumberEnds r) : lexExponent r = some ([], r) := by
  rcases r with _ | ⟨b, r⟩
  · rfl
  · have := hr b rfl
    have hb : ¬ (b = 0x65 ∨ b = 0x45) := by
      rintro (rfl | rfl) <;> exact absurd this (by decide)
    rw [lexExponent, if_neg hb]

theorem lexInteger_decimal (n : ℕ) {r : Bytes} (hr : NumberEnds r) :
    lexInteger (decimal n ++ r) = some (decimal n, r) := by
  obtain ⟨hd, -, d, ds, he, hz⟩ := decimal_spec n
  obtain ⟨ht, hdr⟩ := takeWhile_isDigit hd hr
  have hne : (decimal n).isEmpty = false := by rw [he]; rfl
  have hlead : ¬ ((decimal n).head? = some 48 ∧ decimal n ≠ [48]) := by
    rintro ⟨h48, hne⟩
    rw [he] at h48 hne
    simp only [List.head?_cons, Option.some.injEq] at h48
    obtain ⟨-, rfl⟩ := hz h48
    exact hne (by rw [h48])
  simp [lexInteger, lexDigits, ht, hdr, hne, hlead]

/-- A printed integer is lexed as it was printed. -/
theorem lexNumber_decimal (n : ℕ) {r : Bytes} (hr : NumberEnds r) :
    lexNumber (decimal n ++ r) = some (decimal n, r) := by
  obtain ⟨hd, -, d, ds, he, -⟩ := decimal_spec n
  have hsign : lexSign (decimal n ++ r) = ([], decimal n ++ r) := by
    have hb : d ≠ 0x2D := by
      rintro rfl
      exact absurd (hd 0x2D (by rw [he]; simp)) (by decide)
    rw [he, List.cons_append, lexSign, if_neg hb]
  simp [lexNumber, hsign, lexInteger_decimal n hr, lexFraction_end hr, lexExponent_end hr]

theorem lexNumber_neg_decimal (n : ℕ) {r : Bytes} (hr : NumberEnds r) :
    lexNumber (0x2D :: decimal n ++ r) = some (0x2D :: decimal n, r) := by
  simp [lexNumber, lexSign, lexInteger_decimal n hr, lexFraction_end hr, lexExponent_end hr]

/-- Every byte of a lexeme can stand in a number, and there is one. -/
theorem lexNumber_bytes {bs l r : Bytes} (h : lexNumber bs = some (l, r)) :
    bs = l ++ r ∧ (∀ b ∈ l, isNumberByte b = true) ∧
      ∃ b l', l = b :: l' ∧ (b = 0x2D ∨ isDigit b = true) := by
  have hdig {x ds r : Bytes} (h : lexDigits x = some (ds, r)) :
      x = ds ++ r ∧ (∀ b ∈ ds, isDigit b = true) ∧ ds ≠ [] := by
    simp only [lexDigits] at h
    split at h
    · cases h
    · rename_i hne
      obtain ⟨rfl, rfl⟩ := Prod.mk.inj (Option.some.inj h)
      refine ⟨(List.takeWhile_append_dropWhile).symm, fun b hb => List.mem_takeWhile_imp hb, ?_⟩
      intro he
      exact hne (by rw [he]; rfl)
  have hnum {b : UInt8} (h : isDigit b = true) : isNumberByte b = true := by
    simp [isNumberByte, h]
  simp only [lexNumber, Option.bind_eq_bind, Option.bind_eq_some_iff, lexInteger] at h
  obtain ⟨⟨int, r₁⟩, ⟨⟨ds, r₀⟩, hds, hint⟩, ⟨frac, r₂⟩, hfrac, ⟨exp, r₃⟩, hexp, h⟩ := h
  obtain ⟨hcat, hdd, hne⟩ := hdig hds
  split at hint
  · cases hint
  obtain ⟨rfl, rfl⟩ := Prod.mk.inj (Option.some.inj hint)
  obtain ⟨rfl, rfl⟩ := Prod.mk.inj (Option.some.inj h)
  have hsign : bs = (lexSign bs).1 ++ (lexSign bs).2 ∧
      ((lexSign bs).1 = [] ∨ (lexSign bs).1 = [0x2D]) := by
    rcases bs with _ | ⟨b, r⟩
    · exact ⟨rfl, .inl rfl⟩
    · by_cases hb : b = 0x2D
      · subst hb; exact ⟨rfl, .inr rfl⟩
      · simp [lexSign, hb]
  have hf : r₀ = frac ++ r₂ ∧ ∀ b ∈ frac, isNumberByte b = true := by
    rcases r₀ with _ | ⟨b, r⟩
    · obtain ⟨rfl, rfl⟩ := Prod.mk.inj (Option.some.inj hfrac)
      exact ⟨rfl, by simp⟩
    · simp only [lexFraction] at hfrac
      split at hfrac
      · rename_i hb
        obtain ⟨⟨ds', r'⟩, hds', he⟩ := Option.map_eq_some_iff.mp hfrac
        obtain ⟨rfl, rfl⟩ := Prod.mk.inj he
        obtain ⟨hc, hd, -⟩ := hdig hds'
        refine ⟨by rw [hc]; rfl, ?_⟩
        intro c hc
        rcases List.mem_cons.mp hc with rfl | hc
        · rw [hb]; decide
        · exact hnum (hd c hc)
      · obtain ⟨rfl, rfl⟩ := Prod.mk.inj (Option.some.inj hfrac)
        exact ⟨rfl, by simp⟩
  have hx : r₂ = exp ++ r₃ ∧ ∀ b ∈ exp, isNumberByte b = true := by
    rcases r₂ with _ | ⟨b, r⟩
    · obtain ⟨rfl, rfl⟩ := Prod.mk.inj (Option.some.inj hexp)
      exact ⟨rfl, by simp⟩
    · simp only [lexExponent] at hexp
      split at hexp
      · rename_i hb
        obtain ⟨⟨ds', r'⟩, hds', he⟩ := Option.map_eq_some_iff.mp hexp
        obtain ⟨rfl, rfl⟩ := Prod.mk.inj he
        obtain ⟨hc, hd, -⟩ := hdig hds'
        have hs : r = (lexExponentSign r).1 ++ (lexExponentSign r).2 ∧
            ∀ c ∈ (lexExponentSign r).1, isNumberByte c = true := by
          rcases r with _ | ⟨c, r⟩
          · exact ⟨rfl, by simp [lexExponentSign]⟩
          · by_cases hc : c = 0x2D ∨ c = 0x2B
            · rcases hc with rfl | rfl <;> exact ⟨rfl, by simp [lexExponentSign]; decide⟩
            · simp [lexExponentSign, hc]
        refine ⟨?_, ?_⟩
        · rw [List.cons_append, List.cons_append, List.append_assoc, ← hc, ← hs.1]
        · intro c hc
          rcases List.mem_cons.mp hc with rfl | hc
          · rcases hb with rfl | rfl <;> decide
          · rcases List.mem_append.mp hc with hc | hc
            · exact hs.2 c hc
            · exact hnum (hd c hc)
      · obtain ⟨rfl, rfl⟩ := Prod.mk.inj (Option.some.inj hexp)
        exact ⟨rfl, by simp⟩
  obtain ⟨d, ds', rfl⟩ := List.exists_cons_of_ne_nil hne
  refine ⟨?_, ?_, ?_⟩
  · conv_lhs => rw [hsign.1, hcat, hf.1, hx.1]
    simp [List.append_assoc]
  · intro b hb
    simp only [List.mem_append] at hb
    rcases hb with ((hb | hb) | hb) | hb
    · rcases hsign.2 with he | he <;> rw [he] at hb
      · simp at hb
      · rw [List.mem_singleton.mp hb]; decide
    · exact hnum (hdd b hb)
    · exact hf.2 b hb
    · exact hx.2 b hb
  · rcases hsign.2 with he | he <;> rw [he]
    · exact ⟨d, _, rfl, .inr (hdd d (by simp))⟩
    · exact ⟨0x2D, _, rfl, .inl rfl⟩

/-! ### Numbers -/

/-- The printer and the reader of doubles. -/
structure FloatText where
  print : Finite64 → Bytes
  parse : Bytes → Option Finite64
  lexes : ∀ (x : Finite64) (r : Bytes), NumberEnds r →
    lexNumber (print x ++ r) = some (print x, r)
  marked : ∀ x : Finite64, (print x).any isFloatMark = true
  reads : ∀ x : Finite64, parse (print x) = some x

inductive Number where
  | posInt (n : UInt64)
  /-- The number `-(m + 1)`. -/
  | negInt (m : Fin (2 ^ 63))
  | float (x : Finite64)
  deriving DecidableEq

variable (t : FloatText)

def Number.lexeme : Number → Bytes
  | .posInt n => decimal n.toNat
  | .negInt m => 0x2D :: decimal (m + 1)
  | .float x => t.print x

/-- The number of a lexeme: an integer where it fits, else a double, when one is near enough. -/
def Number.ofLexeme (l : Bytes) : Option Number :=
  if l.any isFloatMark then (t.parse l).map .float
  else if l.head? = some 0x2D then
    if ofDecimal l.tail = 0 then some (.float Finite64.negZero)
    else if h : ofDecimal l.tail - 1 < 2 ^ 63 then some (.negInt ⟨ofDecimal l.tail - 1, h⟩)
    else (t.parse l).map .float
  else if ofDecimal l < 2 ^ 64 then some (.posInt (UInt64.ofNat (ofDecimal l)))
  else (t.parse l).map .float

theorem not_mark_decimal (n : ℕ) : (decimal n).any isFloatMark = false := by
  have key : ∀ b : UInt8, isDigit b = true → isFloatMark b = false := by
    intro b hb
    simp only [isDigit, isFloatMark, Bool.and_eq_true, decide_eq_true_eq, Bool.or_eq_false_iff,
      beq_eq_false_iff_ne] at hb ⊢
    refine ⟨⟨?_, ?_⟩, ?_⟩ <;> rintro rfl <;> revert hb <;> decide
  rw [List.any_eq_false]
  intro b hb
  rw [key b ((decimal_spec n).1 b hb)]
  decide

theorem Number.ofLexeme_lexeme (n : Number) : Number.ofLexeme t (n.lexeme t) = some n := by
  cases n with
  | posInt n =>
    obtain ⟨hd, hv, d, ds, he, -⟩ := decimal_spec n.toNat
    have hne : (decimal n.toNat).head? ≠ some 0x2D := by
      rw [he]
      intro h
      rw [List.head?_cons, Option.some.injEq] at h
      exact absurd (hd d (by rw [he]; simp)) (by rw [h]; decide)
    have hlt : n.toNat < 2 ^ 64 := n.toNat_lt
    rw [Number.lexeme, Number.ofLexeme, not_mark_decimal, if_neg Bool.false_ne_true, if_neg hne, hv,
      if_pos hlt, UInt64.ofNat_toNat]
  | negInt m =>
    have hm : (0x2D :: decimal (m + 1)).any isFloatMark = false := by
      rw [List.any_cons, not_mark_decimal]
      decide
    simp [Number.ofLexeme, Number.lexeme, hm, ofDecimal_decimal]
  | float x => simp [Number.ofLexeme, Number.lexeme, t.marked x, t.reads x]

/-- The lexeme of a number is lexed back whole. -/
theorem Number.lexNumber_lexeme (n : Number) {r : Bytes} (hr : NumberEnds r) :
    lexNumber (n.lexeme t ++ r) = some (n.lexeme t, r) := by
  cases n with
  | posInt n => exact lexNumber_decimal n.toNat hr
  | negInt m => exact lexNumber_neg_decimal _ hr
  | float x => exact t.lexes x r hr

end Schemes.Json
