import AiraGraphdb.Schemes.Json.Value

/-! # Records that tell their own length

A record holds a number that is to be its own length. Its writer does not solve for it: it writes the
record with a guess, reads off the length it got, and writes again with that, until a record is as
long as it says. Where the rest of the record has `base` bytes and a number `n` takes `d n` of them,
four attempts are enough (`settle_eq`), and what they come to is the least length that is right
(`ownLength_least`). -/

namespace Schemes

/-- Attempts, at most so many, until a record has the length it was written with. -/
def settle (attempt : ℕ → Option Bytes) : ℕ → ℕ → Option Bytes
  | 0, _ => none
  | attempts + 1, advertised => match attempt advertised with
    | none => none
    | some bytes =>
      if bytes.length = advertised then some bytes else settle attempt attempts bytes.length

/-- A numeral system: `d n` is how long `n` is. Adding its own length to a number makes it longer by
one at most. -/
structure Numeral (d : ℕ → ℕ) : Prop where
  zero : d 0 = 1
  mono : Monotone d
  slow : ∀ n, d (n + d n) ≤ d n + 1

section OwnLength

variable {d : ℕ → ℕ} (hd : Numeral d) (base : ℕ)

/-- The length of a record with `base` other bytes that holds its own length. -/
def ownLength (d : ℕ → ℕ) (base : ℕ) : ℕ := base + d (base + d (base + 1))

include hd

theorem Numeral.pos (n : ℕ) : 1 ≤ d n := hd.zero ▸ hd.mono (Nat.zero_le n)

/-- The third guess is right. -/
theorem ownLength_fixed : base + d (ownLength d base) = ownLength d base := by
  -- the numbers: base + 1 ≤ base + d (base + 1) ≤ ownLength ≤ base + 1 + d (base + 1)
  have hpos := hd.pos (base + 1)
  have hslow := hd.slow (base + 1)
  have hsecond : d (base + 1) ≤ d (base + d (base + 1)) := hd.mono (by omega)
  have hthird : d (base + d (base + 1)) ≤ d (ownLength d base) := by
    refine hd.mono ?_
    rw [ownLength]
    omega
  rcases Nat.lt_or_ge (d (base + 1)) (d (base + d (base + 1))) with hgrown | hsame
  · have htop : d (ownLength d base) ≤ d (base + 1 + d (base + 1)) := by
      refine hd.mono ?_
      have : d (base + d (base + 1)) ≤ d (base + 1 + d (base + 1)) := hd.mono (by omega)
      rw [ownLength]
      omega
    have : d (ownLength d base) = d (base + d (base + 1)) := by omega
    rw [this, ownLength]
  · have : d (base + d (base + 1)) = d (base + 1) := by omega
    rw [ownLength, this, this]

/-- Of the lengths that would be right it is the least. -/
theorem ownLength_least : IsLeast {n | base + d n = n} (ownLength d base) := by
  refine ⟨ownLength_fixed hd base, fun n hn => ?_⟩
  have hn : base + d n = n := hn
  have hfirst : base + 1 ≤ n := by
    have := hd.pos n
    omega
  have hsecond : base + d (base + 1) ≤ n := by
    have := hd.mono hfirst
    omega
  have hthird := hd.mono hsecond
  rw [ownLength]
  omega

variable {base} {limit : ℕ} {frame : ℕ → Bytes} {attempt : ℕ → Option Bytes}

/-- Four attempts find the record, if it is within the limit; otherwise one of them fails. -/
theorem settle_eq (hframe : ∀ n ≤ limit, (frame n).length = base + d n)
    (hattempt : ∀ n ≤ limit,
      attempt n = if (frame n).length ≤ limit then some (frame n) else none) (more : ℕ) :
    settle attempt (more + 4) 0
      = if ownLength d base ≤ limit then some (frame (ownLength d base)) else none := by
  have hfixed := ownLength_fixed hd base
  have hpos := hd.pos (base + 1)
  have hsecond : d (base + 1) ≤ d (base + d (base + 1)) := hd.mono (by omega)
  have hown : ownLength d base = base + d (base + d (base + 1)) := rfl
  have h0 := hframe 0 (Nat.zero_le _)
  rw [hd.zero] at h0
  rw [settle, hattempt 0 (Nat.zero_le _), h0]
  by_cases h1 : base + 1 ≤ limit
  · rw [if_pos h1]
    dsimp only
    rw [h0, if_neg (by omega), settle, hattempt _ h1, hframe _ h1]
    by_cases h2 : base + d (base + 1) ≤ limit
    · rw [if_pos h2]
      dsimp only
      rw [hframe _ h1]
      by_cases hdone : base + d (base + 1) = base + 1
      · -- the second record is as long as the first
        have hsame : ownLength d base = base + 1 := by rw [hown, hdone, hdone]
        rw [if_pos hdone, hsame, if_pos h1]
      · rw [if_neg hdone, settle, hattempt _ h2, hframe _ h2, ← hown]
        by_cases h3 : ownLength d base ≤ limit
        · rw [if_pos h3]
          dsimp only
          rw [hframe _ h2, ← hown]
          by_cases hdone' : ownLength d base = base + d (base + 1)
          · rw [if_pos hdone', if_pos h3, ← hdone']
          · rw [if_neg hdone', settle, hattempt _ h3, hframe _ h3, hfixed, if_pos h3]
            dsimp only
            rw [hframe _ h3, hfixed, if_pos rfl]
        · rw [if_neg h3, if_neg h3]
    · rw [if_neg h2, if_neg (by omega)]
  · rw [if_neg h1, if_neg (by omega)]

end OwnLength

/-! ### Decimal numbers -/

namespace Json

theorem length_decimal_of_ge {n : ℕ} (h : 10 ≤ n) :
    (decimal n).length = (decimal (n / 10)).length + 1 := by
  rw [decimal_of_ge h, List.length_append, List.length_singleton]

/-- A number has at most so many digits exactly below this power of ten. -/
theorem length_decimal_le_iff : ∀ (k : ℕ) {n : ℕ}, (decimal n).length ≤ k + 1 ↔ n < 10 ^ (k + 1)
  | 0, n => by
    rcases Nat.lt_or_ge n 10 with h | h
    · rw [decimal_of_lt h]
      simpa using h
    · have hpos : 0 < (decimal (n / 10)).length := by
        obtain ⟨-, -, d, ds, he, -⟩ := decimal_spec (n / 10)
        simp [he]
      rw [length_decimal_of_ge h]
      omega
  | k + 1, n => by
    rcases Nat.lt_or_ge n 10 with h | h
    · have hten : 10 ≤ 10 ^ (k + 1 + 1) := Nat.le_self_pow (by omega) 10
      rw [decimal_of_lt h, List.length_singleton]
      omega
    · rw [length_decimal_of_ge h, Nat.add_le_add_iff_right, length_decimal_le_iff k,
        Nat.div_lt_iff_lt_mul (by omega), ← pow_succ]

theorem decimal_numeral : Numeral fun n => (decimal n).length := by
  have hpos : ∀ n, ∃ k, (decimal n).length = k + 1 := by
    intro n
    obtain ⟨-, -, d, ds, he, -⟩ := decimal_spec n
    exact ⟨ds.length, by rw [he, List.length_cons]⟩
  refine ⟨rfl, ?_, ?_⟩
  · intro m n h
    obtain ⟨k, hk⟩ := hpos n
    show (decimal m).length ≤ (decimal n).length
    rw [hk]
    exact (length_decimal_le_iff k).mpr (lt_of_le_of_lt h ((length_decimal_le_iff k).mp hk.le))
  · intro n
    obtain ⟨k, hk⟩ := hpos n
    show (decimal (n + (decimal n).length)).length ≤ (decimal n).length + 1
    rw [hk]
    have hn := (length_decimal_le_iff k).mp hk.le
    have hk' : k + 1 < 10 ^ (k + 1) := Nat.lt_pow_self (by omega)
    refine (length_decimal_le_iff (k + 1)).mpr ?_
    rw [pow_succ]
    omega

/-- The last member of an object stands at the end of its text. -/
theorem printMembers_last (k : Bytes) : ∀ ms : List (Bytes × Raw),
    ∃ front, ∀ v : Raw, printMembers (ms ++ [(k, v)]) = front ++ v.print ++ [0x7D]
  | [] => ⟨0x2C :: 0x22 :: k ++ [0x22, 0x3A], fun v => by simp [printMembers]⟩
  | (k', v') :: ms => by
    obtain ⟨front, hfront⟩ := printMembers_last k ms
    exact ⟨0x2C :: 0x22 :: k' ++ 0x22 :: 0x3A :: v'.print ++ front, fun v => by
      rw [List.cons_append, printMembers, hfront]
      simp⟩

theorem print_last (t : FloatText) (k : String) (ms : List (String × Value)) :
    ∃ front, ∀ v : Value, (Value.obj (ms ++ [(k, v)])).print t = front ++ v.print t ++ [0x7D] := by
  have happend : ∀ v, rawMembers t (ms ++ [(k, v)])
      = rawMembers t ms ++ [(escape (utf8 k), v.raw t)] := by
    intro v
    induction ms with
    | nil => rfl
    | cons m ms ih => rw [List.cons_append, rawMembers, ih, rawMembers]; rfl
  cases hms : rawMembers t ms with
  | nil => exact ⟨0x7B :: 0x22 :: escape (utf8 k) ++ [0x22, 0x3A], fun v => by
      simp [Value.print, Value.raw, happend, hms, Raw.print, printMembers]⟩
  | cons m raws =>
    obtain ⟨front, hfront⟩ := printMembers_last (escape (utf8 k)) raws
    exact ⟨0x7B :: 0x22 :: m.1 ++ 0x22 :: 0x3A :: m.2.print ++ front, fun v => by
      simp [Value.print, Value.raw, happend, hms, Raw.print, hfront]⟩

end Json

end Schemes
