import AiraGraphdb.Schemes.Codec

/-! # The bincode format

The fixed-width form of bincode: integers little-endian, a sequence, a text or a map behind its
length in eight bytes, an enumeration behind the index of its variant in four. A map is written in
the order of its keys (the format leaves the order open) and read back by inserting the entries
one after the other, so a repeated key keeps its last value. -/

namespace Schemes.Bincode

open Codec Std

variable {α β : Type}

def u64 : Codec UInt64 := carried (number 8) UInt64.toNat (fun n => some (UInt64.ofNat n))

theorem u64_lawful : u64.Lawful := carried_lawful (number_lawful 8)

@[simp] theorem u64_fits (n : UInt64) : u64.Fits n := by
  have := n.toNat_lt
  exact ⟨by simp, by simpa [number] using this⟩

def i64 : Codec Int64 := carried u64 Int64.toUInt64 (fun n => some n.toInt64)

theorem i64_lawful : i64.Lawful := carried_lawful u64_lawful

@[simp] theorem i64_fits (n : Int64) : i64.Fits n := ⟨by simp, u64_fits _⟩

def byte : Codec UInt8 := carried (number 1) UInt8.toNat (fun n => some (UInt8.ofNat n))

theorem byte_lawful : byte.Lawful := carried_lawful (number_lawful 1)

@[simp] theorem byte_fits (b : UInt8) : byte.Fits b := by
  have := b.toNat_lt
  exact ⟨by simp, by simpa [number] using this⟩

def bool : Codec Bool :=
  carried (number 1) Bool.toNat (fun n => if n = 0 then some false else
    if n = 1 then some true else Option.none)

theorem bool_lawful : bool.Lawful := carried_lawful (number_lawful 1)

@[simp] theorem bool_fits (b : Bool) : bool.Fits b := by
  cases b <;> exact ⟨rfl, by simp [number]⟩

/-- A sequence: its length, then its values. -/
def vec (c : Codec α) : Codec (List α) :=
  carried (seq (number 8) (many c)) (fun as => (as.length, as)) (fun p => some p.2)

theorem vec_lawful {c : Codec α} (hc : c.Lawful) : (vec c).Lawful :=
  carried_lawful (seq_lawful (number_lawful 8) (many_lawful hc))

theorem vec_fits {c : Codec α} {as : List α} :
    (vec c).Fits as ↔ as.length < 256 ^ 8 ∧ ∀ a ∈ as, c.Fits a := by
  simp [vec, carried, seq, number, many]

def string : Codec String := carried (vec byte) utf8 ofUtf8

theorem string_lawful : string.Lawful := carried_lawful (vec_lawful byte_lawful)

theorem string_fits {s : String} : string.Fits s ↔ s.utf8ByteSize < 256 ^ 8 := by
  simp [string, carried, vec_fits]

/-- Two fields, one after the other. -/
def pair (c : Codec α) (d : Codec β) : Codec (α × β) := seq c fun _ => d

theorem pair_lawful {c : Codec α} {d : Codec β} (hc : c.Lawful) (hd : d.Lawful) :
    (pair c d).Lawful := seq_lawful hc fun _ => hd

/-- Reading a map back entry by entry from its own list of entries gives the map. -/
theorem insertMany_toList (m : ExtTreeMap String α) :
    (∅ : ExtTreeMap String α).insertMany m.toList = m := by
  apply ExtTreeMap.ext_getElem?
  intro k
  have hd := ExtTreeMap.distinct_keys_toList (t := m)
  rcases h : m[k]? with _ | v
  · rw [ExtTreeMap.getElem?_insertMany_list_of_contains_eq_false]
    · simp
    · rw [Bool.eq_false_iff]
      intro hc
      obtain ⟨⟨k', v⟩, hm, rfl⟩ := List.mem_map.mp (List.contains_iff_mem.mp hc)
      rw [ExtTreeMap.mem_toList_iff_getElem?_eq_some] at hm
      simp [h] at hm
  · refine ExtTreeMap.getElem?_insertMany_list_of_mem (k := k) (by simp) hd ?_
    exact ExtTreeMap.mem_toList_iff_getElem?_eq_some.mpr h

/-- A map: its size, then its entries. -/
def map (c : Codec α) : Codec (ExtTreeMap String α) :=
  carried (vec (pair string c)) (fun m => m.toList)
    (fun l => some ((∅ : ExtTreeMap String α).insertMany l))

theorem map_lawful {c : Codec α} (hc : c.Lawful) : (map c).Lawful :=
  carried_lawful (vec_lawful (pair_lawful string_lawful hc))

theorem map_fits {c : Codec α} {m : ExtTreeMap String α} :
    (map c).Fits m ↔ m.size < 256 ^ 8 ∧
      ∀ p ∈ m.toList, p.1.utf8ByteSize < 256 ^ 8 ∧ c.Fits p.2 := by
  simp [map, carried, insertMany_toList, vec_fits, pair, seq, string_fits]

/-- An enumeration: the index of the variant, then what that variant holds. -/
def enum (tag : α → ℕ) (variant : ℕ → Codec α) : Codec α :=
  carried (seq (number 4) variant) (fun a => (tag a, a)) (fun p => some p.2)

theorem enum_lawful {tag : α → ℕ} {variant : ℕ → Codec α} (hv : ∀ n, (variant n).Lawful) :
    (enum tag variant).Lawful := carried_lawful (seq_lawful (number_lawful 4) hv)

/-! ### What is read can be written -/

theorem u64_readsFit : u64.ReadsFit := fun _ _ _ _ => u64_fits _

theorem i64_readsFit : i64.ReadsFit := fun _ _ _ _ => i64_fits _

theorem byte_readsFit : byte.ReadsFit := fun _ _ _ _ => byte_fits _

theorem bool_readsFit : bool.ReadsFit := fun _ _ _ _ => bool_fits _

theorem vec_readsFit {c : Codec α} (hc : c.ReadsFit) : (vec c).ReadsFit := by
  refine carried_readsFit (seq_readsFit (number_readsFit 8) (many_readsFit hc)) ?_
  rintro ⟨n, as⟩ _ ⟨hn, hlen, hall⟩ ⟨⟩
  obtain rfl : as.length = n := hlen
  exact ⟨rfl, hn, rfl, hall⟩

theorem string_readsFit : string.ReadsFit := by
  refine carried_readsFit (vec_readsFit byte_readsFit) ?_
  intro bs s hbs hs
  obtain rfl := utf8_of_ofUtf8 hs
  exact ⟨hs, hbs⟩

theorem pair_readsFit {c : Codec α} {d : Codec β} (hc : c.ReadsFit) (hd : d.ReadsFit) :
    (pair c d).ReadsFit := seq_readsFit hc fun _ => hd

/-- What a map read back holds was among the entries. -/
theorem mem_of_insertMany {l : List (String × α)} {p : String × α}
    (h : p ∈ ((∅ : ExtTreeMap String α).insertMany l).toList) : p ∈ l := by
  obtain ⟨k, v⟩ := p
  rw [ExtTreeMap.mem_toList_iff_getElem?_eq_some] at h
  induction l using List.reverseRecOn with
  | nil => simp at h
  | append_singleton l q ih =>
    rw [ExtTreeMap.insertMany_list_eq_foldl, List.foldl_append, List.foldl_cons, List.foldl_nil,
      ← ExtTreeMap.insertMany_list_eq_foldl, ExtTreeMap.getElem?_insert] at h
    split at h
    · rename_i hk
      cases h
      rw [← LawfulEqOrd.eq_of_compare hk]
      simp
    · exact List.mem_append_left _ (ih h)

theorem map_readsFit {c : Codec α} (hc : c.ReadsFit) : (map c).ReadsFit := by
  refine carried_readsFit (vec_readsFit (pair_readsFit string_readsFit hc)) ?_
  rintro l m hl ⟨⟩
  obtain ⟨hlen, hall⟩ := vec_fits.mp hl
  have hsize := @ExtTreeMap.size_insertMany_list_le _ _ _ (∅ : ExtTreeMap String α) _ l
  refine map_fits.mpr ⟨?_, ?_⟩
  · rw [ExtTreeMap.size_empty, Nat.zero_add] at hsize
    omega
  · rintro ⟨k, v⟩ hp
    obtain ⟨hk, hv⟩ := hall _ (mem_of_insertMany hp)
    exact ⟨string_fits.mp hk, hv⟩

theorem enum_readsFit {tag : α → ℕ} {variant : ℕ → Codec α} (hv : ∀ n, (variant n).ReadsFit)
    (htag : ∀ n a, (variant n).Fits a → tag a = n) : (enum tag variant).ReadsFit := by
  refine carried_readsFit (seq_readsFit (number_readsFit 4) hv) ?_
  rintro ⟨n, a⟩ _ ⟨hn, ha⟩ ⟨⟩
  obtain rfl := htag n a ha
  exact ⟨rfl, hn, ha⟩

end Schemes.Bincode
