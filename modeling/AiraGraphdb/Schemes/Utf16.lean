import Mathlib

/-! # Texts by their UTF-16 code units

A character beyond the basic plane is a pair of surrogates, so the order of the code units differs
from the order of the characters. No two texts have the same units. -/

namespace Schemes.Utf16

def units (c : Char) : List ℕ :=
  if c.toNat < 0x10000 then [c.toNat]
  else [0xD800 + (c.toNat - 0x10000) / 0x400, 0xDC00 + (c.toNat - 0x10000) % 0x400]

def encode (s : String) : List ℕ := s.toList.flatMap units

def cmp (s t : String) : Ordering := compare (encode s) (encode t)

/-- A character is no surrogate. -/
theorem toNat_not_surrogate (c : Char) : c.toNat < 0xD800 ∨ 0xDFFF < c.toNat := by
  have := c.valid
  simp only [UInt32.isValidChar, Nat.isValidChar] at this
  show c.val.toNat < _ ∨ _ < c.val.toNat
  omega

theorem toNat_lt (c : Char) : c.toNat < 0x110000 := by
  have := c.valid
  simp only [UInt32.isValidChar, Nat.isValidChar] at this
  show c.val.toNat < _
  omega

/-- The first character is read off the first units. -/
theorem units_append_inj {c d : Char} {cs ds : List ℕ} (h : units c ++ cs = units d ++ ds) :
    c = d ∧ cs = ds := by
  have hc := toNat_not_surrogate c
  have hd := toNat_not_surrogate d
  have hc' := toNat_lt c
  have hd' := toNat_lt d
  simp only [units] at h
  split_ifs at h
  · simp only [List.cons_append, List.nil_append, List.cons.injEq] at h
    exact ⟨Char.toNat_inj.mp h.1, h.2⟩
  · simp only [List.cons_append, List.nil_append, List.cons.injEq] at h
    omega
  · simp only [List.cons_append, List.nil_append, List.cons.injEq] at h
    omega
  · simp only [List.cons_append, List.nil_append, List.cons.injEq] at h
    exact ⟨Char.toNat_inj.mp (by omega), h.2.2⟩

theorem units_ne_nil (c : Char) : units c ≠ [] := by
  rw [units]
  split <;> simp

theorem flatMap_units_injective : ∀ cs ds : List Char, cs.flatMap units = ds.flatMap units → cs = ds
  | [], [], _ => rfl
  | [], d :: ds, h => absurd (List.append_eq_nil_iff.mp h.symm).1 (units_ne_nil d)
  | c :: cs, [], h => absurd (List.append_eq_nil_iff.mp h).1 (units_ne_nil c)
  | c :: cs, d :: ds, h => by
    obtain ⟨rfl, h'⟩ := @units_append_inj c d (cs.flatMap units) (ds.flatMap units) h
    rw [flatMap_units_injective cs ds h']

theorem encode_injective {s t : String} (h : encode s = encode t) : s = t :=
  String.toList_inj.mp (flatMap_units_injective _ _ h)

instance : Std.TransCmp cmp where
  eq_swap := by
    intro s t
    exact Std.OrientedOrd.eq_swap
  isLE_trans := by
    intro s t u
    exact Std.TransOrd.isLE_trans

instance : Std.LawfulEqCmp cmp where
  compare_self := by
    intro s
    exact Std.ReflOrd.compare_self
  eq_of_compare := by
    intro s t h
    exact encode_injective (Std.LawfulEqOrd.eq_of_compare h)

end Schemes.Utf16
