import Mathlib

/-! # Maps keyed by text

A hash map is a finite map here: the order in which a table hands out its entries is not observed,
and where the source sorts the keys first, the map's own order is that order. -/

namespace Schemes

open Std

abbrev Map (α : Type) := ExtTreeMap String α

variable {α β : Type}

namespace Map

theorem getElem?_insert_self (m : Map α) (k : String) (v : α) : (m.insert k v)[k]? = some v := by
  simp

theorem getElem?_insert_ne (m : Map α) {k k' : String} (h : k ≠ k') (v : α) :
    (m.insert k v)[k']? = m[k']? := by
  rw [ExtTreeMap.getElem?_insert, if_neg]
  exact fun hk => h (LawfulEqOrd.eq_of_compare hk)

theorem getElem?_erase_self (m : Map α) (k : String) : (m.erase k)[k]? = none := by
  simp

theorem getElem?_erase_ne (m : Map α) {k k' : String} (h : k ≠ k') : (m.erase k)[k']? = m[k']? := by
  rw [ExtTreeMap.getElem?_erase, if_neg]
  exact fun hk => h (LawfulEqOrd.eq_of_compare hk)

theorem mem_iff {m : Map α} {k : String} : k ∈ m ↔ ∃ v, m[k]? = some v := by
  rw [ExtTreeMap.mem_iff_isSome_getElem?, Option.isSome_iff_exists]

/-- Erasing what is not there changes nothing. -/
theorem erase_of_getElem?_eq_none {m : Map α} {k : String} (h : m[k]? = none) : m.erase k = m := by
  apply ExtTreeMap.ext_getElem?
  intro k'
  by_cases hk : k = k'
  · subst hk
    rw [getElem?_erase_self, h]
  · exact getElem?_erase_ne m hk

/-- Entering the entries of a map into the empty one, one by one, gives the map. -/
theorem insertMany_toList (m : Map α) : (∅ : Map α).insertMany m.toList = m := by
  apply ExtTreeMap.ext_getElem?
  intro k
  have hd := ExtTreeMap.distinct_keys_toList (t := m)
  rcases h : m[k]? with _ | v
  · rw [ExtTreeMap.getElem?_insertMany_list_of_contains_eq_false]
    · simp
    · rw [Bool.eq_false_iff]
      intro hc
      obtain ⟨⟨k', v⟩, hm, rfl⟩ := List.mem_map.mp (List.contains_iff_mem.mp hc)
      rw [ExtTreeMap.mem_toList_iff_getElem?_eq_some] at hm
      simp [h] at hm
  · refine ExtTreeMap.getElem?_insertMany_list_of_mem (k := k) (by simp) hd ?_
    exact ExtTreeMap.mem_toList_iff_getElem?_eq_some.mpr h

theorem mem_toList {m : Map α} {k : String} {v : α} : (k, v) ∈ m.toList ↔ m[k]? = some v :=
  ExtTreeMap.mem_toList_iff_getElem?_eq_some

theorem filter_eq_some {m : Map α} {f : String → α → Bool} {k : String} {v : α} :
    (m.filter f)[k]? = some v ↔ m[k]? = some v ∧ f k v = true := by
  rw [ExtTreeMap.getElem?_filter', Option.filter_eq_some_iff]

theorem filterMap_eq_some {m : Map α} {f : String → α → Option β} {k : String} {w : β} :
    (m.filterMap f)[k]? = some w ↔ ∃ v, m[k]? = some v ∧ f k v = some w := by
  rw [ExtTreeMap.getElem?_filterMap', Option.bind_eq_some_iff]

/-- A map none of whose entries passes is filtered to the empty one. -/
theorem filter_eq_empty {m : Map α} {f : String → α → Bool}
    (h : ∀ k v, m[k]? = some v → f k v = false) : m.filter f = ∅ := by
  refine ExtTreeMap.ext_getElem? fun k => ?_
  rw [ExtTreeMap.getElem?_filter', ExtTreeMap.getElem?_empty]
  rcases hv : m[k]? with _ | v
  · rfl
  · simp [h k v hv]

theorem filter_eq_self {m : Map α} {f : String → α → Bool}
    (h : ∀ k v, m[k]? = some v → f k v = true) : m.filter f = m := by
  refine ExtTreeMap.ext_getElem? fun k => ?_
  rw [ExtTreeMap.getElem?_filter']
  rcases hv : m[k]? with _ | v
  · rfl
  · simp [h k v hv]

theorem filterMap_eq_empty {m : Map α} {f : String → α → Option β}
    (h : ∀ k v, m[k]? = some v → f k v = none) : m.filterMap f = ∅ := by
  refine ExtTreeMap.ext_getElem? fun k => ?_
  rw [ExtTreeMap.getElem?_filterMap', ExtTreeMap.getElem?_empty]
  rcases hv : m[k]? with _ | v
  · rfl
  · simp [h k v hv]

theorem filterMap_eq_self {m : Map α} {f : String → α → Option α}
    (h : ∀ k v, m[k]? = some v → f k v = some v) : m.filterMap f = m := by
  refine ExtTreeMap.ext_getElem? fun k => ?_
  rw [ExtTreeMap.getElem?_filterMap']
  rcases hv : m[k]? with _ | v
  · rfl
  · simp [h k v hv]

theorem insert_eq_self {m : Map α} {k : String} {v : α} (h : m[k]? = some v) :
    m.insert k v = m := by
  refine ExtTreeMap.ext_getElem? fun k' => ?_
  by_cases hk : k = k'
  · subst hk
    rw [getElem?_insert_self, h]
  · rw [getElem?_insert_ne _ hk]

/-- Erasing keys one after the other erases them all. -/
theorem getElem?_foldl_erase (k : String) : ∀ (ks : List String) (m : Map α),
    (ks.foldl (fun m k' => m.erase k') m)[k]? = if k ∈ ks then none else m[k]?
  | [], m => by simp
  | k' :: ks, m => by
    rw [List.foldl_cons, getElem?_foldl_erase k ks]
    by_cases hk : k' = k
    · subst hk
      simp
    · rw [getElem?_erase_ne m hk]
      simp [Ne.symm hk]

theorem filter_filter (m : Map α) (f g : String → α → Bool) :
    (m.filter f).filter g = m.filter fun k v => f k v && g k v := by
  refine Std.ExtTreeMap.ext_getElem? fun k => ?_
  rw [Std.ExtTreeMap.getElem?_filter', Std.ExtTreeMap.getElem?_filter',
    Std.ExtTreeMap.getElem?_filter']
  rcases m[k]? with _ | v
  · rfl
  · cases hf : f k v <;> cases hg : g k v <;> simp [Option.filter, hf, hg]

/-- A part of a map that is not smaller is the map. -/
theorem filter_eq_of_size {m : Map α} {f : String → α → Bool}
    (h : m.size - (m.filter f).size = 0) : m.filter f = m := by
  have hle : (m.filter f).size ≤ m.size := Std.ExtTreeMap.size_filter_le_size
  have hsize : (m.filter f).size = m.size := by omega
  exact Std.ExtTreeMap.filter_eq_self_iff.mpr (Std.ExtTreeMap.size_filter_eq_size_iff.mp hsize)

/-- A pass over entries with different keys that changes only the entry of each key leaves the
others alone and changes every one of its own once. -/
theorem foldl_pointwise {P E : Type} (get : P → Map α) (step : P → E → P) (key : E → String)
    (f : E → α → Option α)
    (hstep : ∀ p e k, (get (step p e))[k]? =
      if k = key e then ((get p)[k]?).bind (f e) else (get p)[k]?) :
    ∀ {es : List E}, (es.map key).Nodup → ∀ p : P,
      (∀ k, k ∉ es.map key → (get (es.foldl step p))[k]? = (get p)[k]?)
        ∧ ∀ e ∈ es, (get (es.foldl step p))[key e]? = ((get p)[key e]?).bind (f e)
  | [], _, p => ⟨fun _ _ => rfl, by simp⟩
  | e :: es, hnd, p => by
    rw [List.map_cons, List.nodup_cons] at hnd
    obtain ⟨hother, hown⟩ := foldl_pointwise get step key f hstep hnd.2 (step p e)
    rw [List.foldl_cons]
    refine ⟨?_, ?_⟩
    · intro k hk
      rw [List.map_cons, List.mem_cons, not_or] at hk
      rw [hother k hk.2, hstep, if_neg hk.1]
    · intro d hd
      rcases List.mem_cons.mp hd with rfl | hd
      · rw [hother _ hnd.1, hstep, if_pos rfl]
      · rw [hown d hd, hstep, if_neg]
        intro he
        exact hnd.1 (he ▸ List.mem_map_of_mem hd)

end Map

end Schemes
