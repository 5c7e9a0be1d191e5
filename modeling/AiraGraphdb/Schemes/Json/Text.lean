import AiraGraphdb.Schemes.Bytes

/-! # The tokens of JSON

Strings and numbers, as bytes. A string is escaped when it is written and lexed to its escaped
form when it is read; turning that back into text is a second step (`unescape`), since a reader
that only skips a string never takes it. A number is lexed to its lexeme in the same way. The
printing half writes the compact form: the two-letter escapes, `\\u00xx` for the other control
characters, and nothing else. -/

namespace Schemes.Json

/-! ### Strings -/

def hexDigit (n : ℕ) : UInt8 := if n < 10 then UInt8.ofNat (48 + n) else UInt8.ofNat (87 + n)

def hexValue (b : UInt8) : Option ℕ :=
  if 48 ≤ b ∧ b ≤ 57 then some (b.toNat - 48)
  else if 97 ≤ b ∧ b ≤ 102 then some (b.toNat - 87)
  else if 65 ≤ b ∧ b ≤ 70 then some (b.toNat - 55)
  else none

theorem hexValue_hexDigit {n : ℕ} (h : n < 16) : hexValue (hexDigit n) = some n := by
  have key : ∀ m < 16, hexValue (hexDigit m) = some m := by decide
  exact key n h

/-- The byte that a two-letter escape stands for. -/
def simpleEscape (b : UInt8) : Option UInt8 :=
  if b = 0x22 then some 0x22 else if b = 0x5C then some 0x5C else if b = 0x2F then some 0x2F
  else if b = 0x62 then some 8 else if b = 0x66 then some 12 else if b = 0x6E then some 10
  else if b = 0x72 then some 13 else if b = 0x74 then some 9 else none

/-- One byte of a text, as it is written inside a string. -/
def escapeByte (b : UInt8) : Bytes :=
  if b = 0x22 then [0x5C, 0x22] else if b = 0x5C then [0x5C, 0x5C]
  else if b = 8 then [0x5C, 0x62] else if b = 9 then [0x5C, 0x74]
  else if b = 10 then [0x5C, 0x6E] else if b = 12 then [0x5C, 0x66]
  else if b = 13 then [0x5C, 0x72]
  else if b < 0x20 then [0x5C, 0x75, 48, 48, hexDigit (b.toNat / 16), hexDigit (b.toNat % 16)]
  else [b]

def escape (bs : Bytes) : Bytes := bs.flatMap escapeByte

/-- The content of a string up to its closing quote, still escaped, and what follows. -/
def lexString : Bytes → Option (Bytes × Bytes)
  | [] => none
  | b :: r =>
    if b = 0x22 then some ([], r)
    else if b = 0x5C then
      match r with
      | [] => none
      | c :: r =>
        if (simpleEscape c).isSome then (lexString r).map fun p => (b :: c :: p.1, p.2)
        else if c = 0x75 then
          match r with
          | h₁ :: h₂ :: h₃ :: h₄ :: r =>
            if (hexValue h₁).isSome && (hexValue h₂).isSome && (hexValue h₃).isSome &&
              (hexValue h₄).isSome
            then (lexString r).map fun p => (b :: c :: h₁ :: h₂ :: h₃ :: h₄ :: p.1, p.2)
            else none
          | _ => none
        else none
    else if b < 0x20 then none
    else (lexString r).map fun p => (b :: p.1, p.2)

def hex4 (h₁ h₂ h₃ h₄ : UInt8) : Option ℕ := do
  return 4096 * (← hexValue h₁) + 256 * (← hexValue h₂) + 16 * (← hexValue h₃) + (← hexValue h₄)

/-- The bytes a string stands for: the escapes resolved, a surrogate only in a pair. -/
def unescape : Bytes → Option Bytes
  | [] => some []
  | b :: r =>
    if b = 0x5C then
      match r with
      | [] => none
      | c :: r =>
        match simpleEscape c with
        | some d => (unescape r).map (d :: ·)
        | none =>
          if c = 0x75 then
            match r with
            | h₁ :: h₂ :: h₃ :: h₄ :: r =>
              match hex4 h₁ h₂ h₃ h₄ with
              | none => none
              | some n =>
                if 0xD800 ≤ n ∧ n < 0xDC00 then
                  match r with
                  | e :: u :: k₁ :: k₂ :: k₃ :: k₄ :: r =>
                    if e = 0x5C ∧ u = 0x75 then
                      match hex4 k₁ k₂ k₃ k₄ with
                      | none => none
                      | some m =>
                        if 0xDC00 ≤ m ∧ m < 0xE000 then
                          (unescape r).map (String.utf8EncodeChar (Char.ofNat
                            (0x10000 + (n - 0xD800) * 0x400 + (m - 0xDC00))) ++ ·)
                        else none
                    else none
                  | _ => none
                else if 0xDC00 ≤ n ∧ n < 0xE000 then none
                else (unescape r).map (String.utf8EncodeChar (Char.ofNat n) ++ ·)
            | _ => none
          else none
    else (unescape r).map (b :: ·)

/-- The text of a lexed string. -/
def stringText (raw : Bytes) : Option String := (unescape raw).bind ofUtf8

/-- The control characters that have no two-letter escape are read back from `\\u00xx`. -/
theorem unescape_control : ∀ n < 32, hex4 48 48 (hexDigit (n / 16)) (hexDigit (n % 16)) = some n ∧
    String.utf8EncodeChar (Char.ofNat n) = [UInt8.ofNat n] := by decide

theorem lexString_plain {b : UInt8} (h1 : b ≠ 0x22) (h2 : b ≠ 0x5C) (h3 : ¬ b < 0x20) (r : Bytes) :
    lexString (b :: r) = (lexString r).map fun p => (b :: p.1, p.2) := by
  rw [lexString.eq_def]
  simp only [h1, h2, h3, if_false]

theorem lexString_simple {c : UInt8} (h : (simpleEscape c).isSome = true) (r : Bytes) :
    lexString (0x5C :: c :: r) = (lexString r).map fun p => (0x5C :: c :: p.1, p.2) := by
  rw [lexString.eq_def]
  simp [h]

theorem lexString_escapeByte (b : UInt8) (r : Bytes) :
    lexString (escapeByte b ++ r) = (lexString r).map fun p => (escapeByte b ++ p.1, p.2) := by
  unfold escapeByte
  split_ifs with h1 h2 h3 h4 h5 h6 h7 h8
  iterate 7 exact lexString_simple (by decide) r
  · have hd : ∀ n < 16, (hexValue (hexDigit n)).isSome = true := by decide
    have hb : b.toNat / 16 < 16 := by have := b.toNat_lt; omega
    have hm : b.toNat % 16 < 16 := by omega
    have h0 : (hexValue 48).isSome = true := by decide
    have hs : simpleEscape 0x75 = none := by decide
    rw [lexString.eq_def]
    simp [hs, hd _ hb, hd _ hm, h0]
  · exact lexString_plain h1 h2 h8 r

theorem lexString_escape (bs r : Bytes) :
    lexString (escape bs ++ 0x22 :: r) = some (escape bs, r) := by
  induction bs with
  | nil =>
    show lexString (0x22 :: r) = some ([], r)
    rw [lexString.eq_def]
    simp
  | cons b bs ih =>
    have he : escape (b :: bs) = escapeByte b ++ escape bs := rfl
    rw [he, List.append_assoc, lexString_escapeByte, ih]
    rfl

theorem unescape_escapeByte (b : UInt8) (r : Bytes) :
    unescape (escapeByte b ++ r) = (unescape r).map (b :: ·) := by
  unfold escapeByte
  split_ifs with h1 h2 h3 h4 h5 h6 h7 h8
  · subst h1; rfl
  · subst h2; rfl
  · subst h3; rfl
  · subst h4; rfl
  · subst h5; rfl
  · subst h6; rfl
  · subst h7; rfl
  · have hlt : b.toNat < 32 := by simpa [UInt8.lt_iff_toNat_lt] using h8
    obtain ⟨hh, hc⟩ := unescape_control b.toNat hlt
    have hs : simpleEscape 0x75 = none := rfl
    have hn1 : ¬ (0xD800 ≤ b.toNat ∧ b.toNat < 0xDC00) := by omega
    have hn2 : ¬ (0xDC00 ≤ b.toNat ∧ b.toNat < 0xE000) := by omega
    simp [unescape, hs, hh, hn1, hn2, hc]
  · rw [unescape.eq_def]
    simp [h2]

theorem unescape_escape (bs : Bytes) : unescape (escape bs) = some bs := by
  induction bs with
  | nil => rfl
  | cons b bs ih =>
    have he : escape (b :: bs) = escapeByte b ++ escape bs := rfl
    rw [he, unescape_escapeByte, ih]
    rfl

/-- A text is read back from its escaped form. -/
@[simp] theorem stringText_escape (s : String) : stringText (escape (utf8 s)) = some s := by
  rw [stringText, unescape_escape, Option.bind_some, ofUtf8_utf8]

/-- What is escaped has no control character and no bare quote. -/
theorem ge_of_mem_escape {bs : Bytes} {b : UInt8} (h : b ∈ escape bs) : 0x20 ≤ b := by
  obtain ⟨c, -, hb⟩ := List.mem_flatMap.mp h
  have hd : ∀ n < 16, 0x20 ≤ hexDigit n := by decide
  have hlt : c.toNat / 16 < 16 := by have := c.toNat_lt; omega
  unfold escapeByte at hb
  split_ifs at hb with h1 h2 h3 h4 h5 h6 h7 h8
  all_goals simp only [List.mem_cons, List.not_mem_nil, or_false] at hb
  iterate 7 (rcases hb with rfl | rfl <;> decide)
  · rcases hb with rfl | rfl | rfl | rfl | rfl | rfl
    · decide
    · decide
    · decide
    · decide
    · exact hd _ hlt
    · exact hd _ (by omega)
  · subst hb
    exact UInt8.not_lt.mp h8

end Schemes.Json
