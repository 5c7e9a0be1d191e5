import AiraGraphdb.Schemes.Bytes
import AiraGraphdb.Schemes.Except

/-! # Canonical texts

A reader that takes a text only if it is, byte for byte, how the value is written. When every value
that is read is read again from what it is written as, such a reader takes one text for each. -/

namespace Schemes

variable {ε α : Type} {read : Bytes → Except ε α} {write : α → Bytes} {refusal : ε}

def canonically (read : Bytes → Except ε α) (write : α → Bytes) (refusal : ε) (raw : Bytes) :
    Except ε α := do
  let value ← read raw
  ensure (write value = raw) refusal
  pure value

theorem write_of_canonically {raw : Bytes} {x : α} (h : canonically read write refusal raw = .ok x) :
    write x = raw := by
  obtain ⟨y, -, h⟩ := bind_ok.mp h
  obtain ⟨_, hwrite, h⟩ := bind_ok.mp h
  cases h
  exact ensure_ok.mp hwrite

theorem canonically_ok (Good : α → Prop) (hgood : ∀ {raw x}, read raw = .ok x → Good x)
    (hread : ∀ {x}, Good x → read (write x) = .ok x) {raw : Bytes} {x : α} :
    canonically read write refusal raw = .ok x ↔ Good x ∧ raw = write x := by
  constructor
  · intro h
    refine ⟨?_, (write_of_canonically h).symm⟩
    obtain ⟨y, hy, h⟩ := bind_ok.mp h
    obtain ⟨_, -, h⟩ := bind_ok.mp h
    cases h
    exact hgood hy
  · rintro ⟨hx, rfl⟩
    exact bind_ok.mpr ⟨x, hread hx, bind_ok.mpr ⟨(), ensure_ok.mpr rfl, rfl⟩⟩

/-- Values that are written alike are the same. -/
theorem write_injective (Good : α → Prop) (hread : ∀ {x}, Good x → read (write x) = .ok x) {x y : α}
    (hx : Good x) (hy : Good y) (h : write x = write y) : x = y := by
  have hsame := hread hx
  rw [h, hread hy] at hsame
  exact (Except.ok.inj hsame).symm

/-! ### Texts as bytes -/

theorem toList_loop (bs : ByteArray) (i : ℕ) (r : List UInt8) :
    ByteArray.toList.loop bs i r = r.reverse ++ bs.data.toList.drop i := by
  induction hn : bs.size - i generalizing i r with
  | zero =>
    have hle : bs.data.toList.length ≤ i := by
      have : bs.data.toList.length = bs.size := rfl
      omega
    rw [ByteArray.toList.loop, if_neg (by omega), List.drop_eq_nil_of_le hle, List.append_nil]
  | succ n ih =>
    have hlt : i < bs.data.toList.length := by
      have : bs.data.toList.length = bs.size := rfl
      omega
    have hget : bs.get! i = bs.data.toList[i] := by
      rw [ByteArray.get!, getElem!_pos _ _ (by simpa using hlt), Array.getElem_toList]
    rw [ByteArray.toList.loop, if_pos (by omega), ih _ _ (by omega), List.drop_eq_getElem_cons hlt, hget,
      List.reverse_cons, List.append_assoc]
    rfl

theorem toUTF8_toList (s : String) : s.toUTF8.toList = utf8 s := by
  rw [ByteArray.toList, toList_loop]
  rfl

end Schemes
