import AiraGraphdb.Schemes.Json.Text

/-! # Lower-case hexadecimal

Digests and nonces travel as text, two lower-case digits a byte. `ofHex` reads what `hex` writes,
and what it reads has no other spelling. -/

namespace Schemes

open Json (hexDigit hexValue hexValue_hexDigit)

/-- The two digits of a byte, high half first. -/
def hexPair (b : UInt8) : Bytes := [hexDigit (b.toNat / 16), hexDigit (b.toNat % 16)]

def hexBytes (bs : Bytes) : Bytes := bs.flatMap hexPair

def hexChar (n : ℕ) : Char := Char.ofNat (hexDigit n).toNat

def hex (bs : Bytes) : String :=
  String.ofList (bs.flatMap fun b => [hexChar (b.toNat / 16), hexChar (b.toNat % 16)])

def isLowerHex (b : UInt8) : Bool := (48 ≤ b && b ≤ 57) || (97 ≤ b && b ≤ 102)

/-- The bytes that lower-case digits stand for. -/
def ofHexBytes : Bytes → Option Bytes
  | [] => some []
  | [_] => none
  | a :: b :: r =>
    if isLowerHex a && isLowerHex b then do
      return UInt8.ofNat (16 * (← hexValue a) + (← hexValue b)) :: (← ofHexBytes r)
    else none

def ofHex (s : String) : Option Bytes := ofHexBytes (utf8 s)

/-! ### What is written is read -/

theorem utf8_hexChar {n : ℕ} (h : n < 16) : utf8 (String.ofList [hexChar n]) = [hexDigit n] := by
  have key : ∀ m < 16, utf8 (String.ofList [hexChar m]) = [hexDigit m] := by decide
  exact key n h

theorem utf8_hex (bs : Bytes) : utf8 (hex bs) = hexBytes bs := by
  induction bs with
  | nil => rfl
  | cons b bs ih =>
    have hb : b.toNat < 256 := b.toNat_lt
    have hcons : hex (b :: bs) = String.ofList [hexChar (b.toNat / 16)] ++
        (String.ofList [hexChar (b.toNat % 16)] ++ hex bs) := by
      simp only [hex, ← String.ofList_append]
      rfl
    rw [hcons, utf8_append, utf8_append, ih, utf8_hexChar (by omega), utf8_hexChar (by omega)]
    rfl

theorem isLowerHex_hexDigit {n : ℕ} (h : n < 16) : isLowerHex (hexDigit n) = true := by
  have key : ∀ m < 16, isLowerHex (hexDigit m) = true := by decide
  exact key n h

theorem ofHexBytes_hexBytes (bs : Bytes) : ofHexBytes (hexBytes bs) = some bs := by
  induction bs with
  | nil => rfl
  | cons b bs ih =>
    have hb : b.toNat < 256 := b.toNat_lt
    have hn : UInt8.ofNat (16 * (b.toNat / 16) + b.toNat % 16) = b := by
      rw [Nat.div_add_mod, UInt8.ofNat_toNat]
    have hi : b.toNat / 16 < 16 := by omega
    have lo : b.toNat % 16 < 16 := by omega
    have hcons : hexBytes (b :: bs) =
        hexDigit (b.toNat / 16) :: hexDigit (b.toNat % 16) :: hexBytes bs := rfl
    rw [hcons, ofHexBytes]
    simp only [isLowerHex_hexDigit hi, isLowerHex_hexDigit lo, hexValue_hexDigit hi,
      hexValue_hexDigit lo, ih, hn, Bool.and_self, if_true, Option.bind_eq_bind, Option.bind_some,
      Option.pure_def]

@[simp] theorem ofHex_hex (bs : Bytes) : ofHex (hex bs) = some bs := by
  rw [ofHex, utf8_hex, ofHexBytes_hexBytes]

theorem hex_injective {as bs : Bytes} (h : hex as = hex bs) : as = bs := by
  have ha := ofHex_hex as
  rw [h, ofHex_hex] at ha
  exact (Option.some.inj ha).symm

@[simp] theorem length_hexBytes (bs : Bytes) : (hexBytes bs).length = 2 * bs.length := by
  induction bs with
  | nil => rfl
  | cons b bs ih =>
    have hcons : hexBytes (b :: bs) = hexPair b ++ hexBytes bs := rfl
    rw [hcons, List.length_append, ih, List.length_cons, hexPair]
    simp only [List.length_cons, List.length_nil]
    omega

theorem isLowerHex_of_mem_hexBytes {bs : Bytes} {b : UInt8} (h : b ∈ hexBytes bs) :
    isLowerHex b = true := by
  obtain ⟨c, -, hb⟩ := List.mem_flatMap.mp h
  have hc : c.toNat < 256 := c.toNat_lt
  rw [hexPair] at hb
  rcases List.mem_cons.mp hb with rfl | hb
  · exact isLowerHex_hexDigit (by omega)
  · rw [List.mem_singleton.mp hb]
    exact isLowerHex_hexDigit (by omega)

/-- A digest is 32 bytes. -/
abbrev Digest := { bs : Bytes // bs.length = 32 }

def Digest.hex (d : Digest) : String := Schemes.hex d.1

theorem Digest.hex_injective {d e : Digest} (h : d.hex = e.hex) : d = e :=
  Subtype.ext (Schemes.hex_injective h)

/-- Exactly the digits of so many bytes. -/
def isLowerHexText (s : String) (bytes : ℕ) : Bool :=
  (utf8 s).length == bytes * 2 && (utf8 s).all isLowerHex

@[simp] theorem Digest.isLowerHexText_hex (d : Digest) : isLowerHexText d.hex 32 = true := by
  rw [isLowerHexText, Digest.hex, utf8_hex, length_hexBytes, d.2, Bool.and_eq_true]
  refine ⟨rfl, ?_⟩
  rw [List.all_eq_true]
  intro b hb
  exact isLowerHex_of_mem_hexBytes hb

/-- A lower-case digit has one value. -/
theorem exists_hexValue {c : UInt8} (h : isLowerHex c = true) :
    ∃ v < 16, hexValue c = some v ∧ hexDigit v = c := by
  simp only [isLowerHex, Bool.or_eq_true, Bool.and_eq_true, decide_eq_true_eq] at h
  rcases h with h | h
  · have h1 : 48 ≤ c.toNat := h.1
    have h2 : c.toNat ≤ 57 := h.2
    refine ⟨c.toNat - 48, by omega, by rw [hexValue, if_pos h], ?_⟩
    rw [hexDigit, if_pos (by omega), show 48 + (c.toNat - 48) = c.toNat by omega,
      UInt8.ofNat_toNat]
  · have h1 : 97 ≤ c.toNat := h.1
    have h2 : c.toNat ≤ 102 := h.2
    have h3 : ¬ (48 ≤ c ∧ c ≤ 57) := by
      rintro ⟨-, h3⟩
      have : c.toNat ≤ 57 := h3
      omega
    refine ⟨c.toNat - 87, by omega, by rw [hexValue, if_neg h3, if_pos h], ?_⟩
    rw [hexDigit, if_neg (by omega), show 87 + (c.toNat - 87) = c.toNat by omega,
      UInt8.ofNat_toNat]

/-- Such a text is the digits of some bytes. -/
theorem exists_ofHexBytes : ∀ {n : ℕ} {s : Bytes}, s.length = n * 2 →
    (∀ b ∈ s, isLowerHex b = true) → ∃ bs, ofHexBytes s = some bs ∧ bs.length = n
  | 0, s, hl, _ => by
    obtain rfl := List.length_eq_zero_iff.mp (show s.length = 0 by omega)
    exact ⟨[], rfl, rfl⟩
  | n + 1, a :: b :: r, hl, h => by
    obtain ⟨bs, hbs, hn⟩ := exists_ofHexBytes (n := n) (s := r) (by simp at hl; omega)
      (fun c hc => h c (by simp [hc]))
    obtain ⟨x, -, hx, -⟩ := exists_hexValue (h a (by simp))
    obtain ⟨y, -, hy, -⟩ := exists_hexValue (h b (by simp))
    refine ⟨UInt8.ofNat (16 * x + y) :: bs, ?_, by simp [hn]⟩
    simp [ofHexBytes, h a (by simp), h b (by simp), hx, hy, hbs]
  | n + 1, [], hl, _ => by simp at hl
  | n + 1, [_], hl, _ => by simp at hl; omega

/-- What is read has one spelling. -/
theorem hexBytes_of_ofHexBytes : ∀ {s bs : Bytes}, ofHexBytes s = some bs → hexBytes bs = s
  | [], bs, h => by
    rw [ofHexBytes] at h
    cases h
    rfl
  | [_], _, h => by simp [ofHexBytes] at h
  | a :: b :: r, bs, h => by
    rw [ofHexBytes] at h
    split at h
    · rename_i hab
      rw [Bool.and_eq_true] at hab
      simp only [Option.bind_eq_bind, Option.bind_eq_some_iff, Option.pure_def,
        Option.some.injEq] at h
      obtain ⟨x, hx, y, hy, bs', hbs', rfl⟩ := h
      obtain ⟨v, hv16, hv, hva⟩ := exists_hexValue hab.1
      obtain ⟨w, hw16, hw, hwb⟩ := exists_hexValue hab.2
      obtain rfl : v = x := Option.some.inj (hv.symm.trans hx)
      obtain rfl : w = y := Option.some.inj (hw.symm.trans hy)
      have hn : (UInt8.ofNat (16 * v + w)).toNat = 16 * v + w := by
        rw [UInt8.toNat_ofNat']
        omega
      have hcons : hexBytes (UInt8.ofNat (16 * v + w) :: bs') =
          hexPair (UInt8.ofNat (16 * v + w)) ++ hexBytes bs' := rfl
      have hd : (16 * v + w) / 16 = v := by omega
      have hm : (16 * v + w) % 16 = w := by omega
      rw [hcons, hexPair, hn, hd, hm, hva, hwb, hexBytes_of_ofHexBytes hbs']
      rfl
    · cases h

end Schemes
