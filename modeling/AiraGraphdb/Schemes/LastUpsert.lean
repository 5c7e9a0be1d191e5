import Mathlib

/-! # Upserts into a list with repeated keys

An item is stored in place of the last one with its key, or at the end. Storing many items with
different keys one by one is one merge: the last item of each key is replaced, the items whose keys
are new are appended in their order. An item may have no key. -/

namespace Schemes.LastUpsert

variable {α κ : Type} [DecidableEq κ] (key : α → Option κ)

/-- Some item has this key. -/
def holds (k : Option κ) (xs : List α) : Bool := xs.any fun x => key x = k

def upsert (new : α) : List α → List α
  | [] => [new]
  | x :: xs => if key x = key new ∧ holds key (key new) xs = false then new :: xs else x :: upsert new xs

/-- The last item of each key, replaced when there is an item to replace it. -/
def replaced (incoming : List α) : List α → List α
  | [] => []
  | x :: xs =>
    (if holds key (key x) xs then x else (incoming.find? fun y => key y = key x).getD x)
      :: replaced incoming xs

def fresh (existing incoming : List α) : List α :=
  incoming.filter fun y => !holds key (key y) existing

def merge (existing incoming : List α) : List α :=
  replaced key incoming existing ++ fresh key existing incoming

/-- Items with keys, all different. -/
structure Distinct (xs : List α) : Prop where
  keyed : ∀ x ∈ xs, key x ≠ none
  nodup : (xs.map key).Nodup

variable {key}

theorem holds_iff {k : Option κ} {xs : List α} : holds key k xs = true ↔ k ∈ xs.map key := by
  simp [holds]

theorem holds_cons {k : Option κ} {x : α} {xs : List α} :
    holds key k (x :: xs) = (decide (key x = k) || holds key k xs) := rfl

omit [DecidableEq κ] in
theorem Distinct.of_append {xs ys : List α} (h : Distinct key (xs ++ ys)) : Distinct key xs :=
  ⟨fun x hx => h.keyed x (by simp [hx]),
    (List.nodup_append.mp (List.map_append (f := key) ▸ h.nodup)).1⟩

omit [DecidableEq κ] in
theorem Distinct.new {xs : List α} {y : α} (h : Distinct key (xs ++ [y])) : key y ∉ xs.map key := by
  intro hmem
  have hnd := h.nodup
  rw [List.map_append, List.map_singleton] at hnd
  exact (List.nodup_append.mp hnd).2.2 _ hmem _ (by simp) rfl

theorem Distinct.find_eq {xs : List α} (h : Distinct key xs) {y : α} (hy : y ∈ xs) :
    xs.find? (fun z => key z = key y) = some y := by
  induction xs with
  | nil => cases hy
  | cons x xs ih =>
    obtain ⟨hx, hnd⟩ := List.nodup_cons.mp h.nodup
    rcases List.mem_cons.mp hy with rfl | hy
    · simp
    · have hne : key x ≠ key y := by
        intro heq
        exact hx (heq ▸ List.mem_map_of_mem hy)
      rw [List.find?_cons_of_neg (by simpa using hne)]
      exact ih ⟨fun z hz => h.keyed z (by simp [hz]), hnd⟩ hy

/-! ### What is replaced -/

theorem map_key_replaced (incoming existing : List α) :
    (replaced key incoming existing).map key = existing.map key := by
  induction existing with
  | nil => rfl
  | cons x xs ih =>
    rw [replaced, List.map_cons, List.map_cons, ih]
    congr 1
    split
    · rfl
    · rcases hf : incoming.find? fun y => key y = key x with _ | y
      · rfl
      · simpa using List.find?_some hf

theorem length_replaced (incoming existing : List α) :
    (replaced key incoming existing).length = existing.length := by
  simpa using congrArg List.length (@map_key_replaced _ _ _ key incoming existing)

theorem replaced_nil (existing : List α) : replaced key [] existing = existing := by
  induction existing with
  | nil => rfl
  | cons x xs ih =>
    rw [replaced, ih]
    simp

theorem holds_replaced (incoming existing : List α) (k : Option κ) :
    holds key k (replaced key incoming existing) = holds key k existing := by
  rw [Bool.eq_iff_iff, holds_iff, holds_iff, map_key_replaced]

/-- An item whose key is not among the incoming ones stays. -/
theorem replaced_get {incoming existing : List α} {i : ℕ} {x : α} (hx : existing[i]? = some x)
    (h : key x ∉ incoming.map key) : (replaced key incoming existing)[i]? = some x := by
  induction existing generalizing i with
  | nil => simp at hx
  | cons z zs ih =>
    cases i with
    | zero =>
      obtain rfl : z = x := by simpa using hx
      have hnone : incoming.find? (fun y => key y = key z) = none := by
        rw [List.find?_eq_none]
        intro y hy heq
        exact h (List.mem_map.mpr ⟨y, hy, of_decide_eq_true heq⟩)
      simp [replaced, hnone]
    | succ i => exact ih (by simpa using hx)

/-! ### One by one -/

theorem upsert_append_of_holds {new : α} {xs ys : List α} (hy : holds key (key new) ys = false)
    (hx : holds key (key new) xs = true) : upsert key new (xs ++ ys) = upsert key new xs ++ ys := by
  induction xs with
  | nil => cases hx
  | cons x xs ih =>
    rw [List.cons_append, upsert, upsert]
    have happ : holds key (key new) (xs ++ ys) = holds key (key new) xs := by
      rw [holds, List.any_append, ← holds, ← holds, hy, Bool.or_false]
    rw [happ]
    by_cases hxs : holds key (key new) xs = true
    · rw [if_neg (by simp [hxs]), if_neg (by simp [hxs]), ih hxs]
      rfl
    · rw [holds_cons] at hx
      have hkey : key x = key new := by simpa [hxs] using hx
      rw [if_pos ⟨hkey, by simpa using hxs⟩, if_pos ⟨hkey, by simpa using hxs⟩]
      rfl

theorem upsert_of_not_holds {new : α} {xs : List α} (h : holds key (key new) xs = false) :
    upsert key new xs = xs ++ [new] := by
  induction xs with
  | nil => rfl
  | cons x xs ih =>
    rw [holds_cons, Bool.or_eq_false_iff] at h
    rw [upsert, if_neg (by simp [of_decide_eq_false h.1]), ih h.2]
    rfl

theorem find_concat_of_ne {incoming : List α} {y : α} {k : Option κ} (h : key y ≠ k) :
    (incoming ++ [y]).find? (fun z => key z = k) = incoming.find? (fun z => key z = k) := by
  rw [List.find?_append, List.find?_cons_of_neg (by simpa using h)]
  simp

/-- Items whose keys are not stored replace nothing. -/
theorem replaced_concat_of_not_holds {incoming existing : List α} {y : α}
    (h : holds key (key y) existing = false) :
    replaced key (incoming ++ [y]) existing = replaced key incoming existing := by
  induction existing with
  | nil => rfl
  | cons x xs ih =>
    rw [holds_cons, Bool.or_eq_false_iff] at h
    rw [replaced, replaced, ih h.2, find_concat_of_ne (Ne.symm (of_decide_eq_false h.1))]

/-- One more item to replace with, for a key that is stored. -/
theorem replaced_concat {incoming existing : List α} {y : α} (hy : key y ∉ incoming.map key)
    (h : holds key (key y) existing = true) :
    replaced key (incoming ++ [y]) existing = upsert key y (replaced key incoming existing) := by
  induction existing with
  | nil => cases h
  | cons x xs ih =>
    by_cases hxs : holds key (key y) xs = true
    · have hx : (if holds key (key x) xs = true then x
          else ((incoming ++ [y]).find? fun z => key z = key x).getD x)
          = if holds key (key x) xs = true then x
          else (incoming.find? fun z => key z = key x).getD x := by
        by_cases hkey : key y = key x
        · rw [if_pos (hkey ▸ hxs), if_pos (hkey ▸ hxs)]
        · rw [find_concat_of_ne hkey]
      have hup : ∀ z : α, upsert key y (z :: replaced key incoming xs)
          = z :: upsert key y (replaced key incoming xs) := by
        intro z
        rw [upsert, holds_replaced, if_neg (by simp [hxs])]
      rw [replaced, replaced, hup, ih hxs, hx]
    · have hkey : key x = key y := by
        rw [holds_cons] at h
        simpa [hxs] using h
      have hxs : holds key (key y) xs = false := by simpa using hxs
      have hnone : incoming.find? (fun z => key z = key y) = none := by
        rw [List.find?_eq_none]
        intro z hz heq
        exact hy (List.mem_map.mpr ⟨z, hz, of_decide_eq_true heq⟩)
      rw [replaced, replaced, hkey, hxs, replaced_concat_of_not_holds hxs, List.find?_append, hnone,
        upsert, holds_replaced, hxs]
      simp [hkey]

theorem merge_concat {existing incoming : List α} {y : α} (h : Distinct key (incoming ++ [y])) :
    merge key existing (incoming ++ [y]) = upsert key y (merge key existing incoming) := by
  have hy := h.new
  have hfresh : holds key (key y) (fresh key existing incoming) = false := by
    rw [Bool.eq_false_iff, Ne, holds_iff]
    intro hmem
    obtain ⟨z, hz, hkey⟩ := List.mem_map.mp hmem
    exact hy (List.mem_map.mpr ⟨z, (List.mem_filter.mp hz).1, hkey⟩)
  rw [merge, merge, fresh, List.filter_append, ← fresh]
  by_cases hh : holds key (key y) existing = true
  · rw [replaced_concat hy hh, upsert_append_of_holds hfresh (by rw [holds_replaced, hh])]
    simp [hh]
  · have hrest : replaced key (incoming ++ [y]) existing = replaced key incoming existing := by
      clear hfresh
      induction existing with
      | nil => rfl
      | cons x xs ih =>
        rw [holds_cons, Bool.or_eq_true, not_or] at hh
        rw [replaced, replaced, ih hh.2, find_concat_of_ne fun heq => hh.1 (by simp [heq])]
    have hnone : holds key (key y) (replaced key incoming existing ++ fresh key existing incoming)
        = false := by
      rw [holds, List.any_append, ← holds, ← holds, holds_replaced, hfresh]
      simpa using hh
    rw [replaced_concat_of_not_holds (by simpa using hh), upsert_of_not_holds hnone,
      List.append_assoc]
    simp [hh]

/-- Storing items one by one is one merge. -/
theorem foldl_upsert (existing : List α) {incoming : List α} (h : Distinct key incoming) :
    incoming.foldl (fun xs y => upsert key y xs) existing = merge key existing incoming := by
  induction incoming using List.reverseRecOn with
  | nil => simp [merge, fresh, replaced_nil]
  | append_singleton incoming y ih =>
    rw [List.foldl_append, ih h.of_append, merge_concat h]
    rfl

/-! ### What a merge stores -/

/-- The one place an incoming item takes: no other item of its key is new. -/
def TakesPlace (key : α → Option κ) (existing stored : List α) (y : α) : Prop :=
  ∃ i : ℕ, stored[i]? = some y ∧
    ∀ j x, j ≠ i → stored[j]? = some x → key x = key y → existing[j]? = some x

theorem replaced_place {existing incoming : List α} {y : α} (h : Distinct key incoming)
    (hy : y ∈ incoming) (hh : holds key (key y) existing = true) :
    TakesPlace key existing (replaced key incoming existing) y := by
  induction existing with
  | nil => cases hh
  | cons x xs ih =>
    by_cases hxs : holds key (key y) xs = true
    · obtain ⟨i, hi, hrest⟩ := ih hxs
      refine ⟨i + 1, hi, ?_⟩
      rintro (_ | j) z hj hz hkey
      · have hhead := congrArg List.head? (@map_key_replaced _ _ _ key incoming (x :: xs))
        rw [← List.head?_eq_getElem?] at hz
        have hx : key x = key y := by
          rw [← hkey]
          rw [List.head?_map, hz] at hhead
          simpa using hhead.symm
        rw [replaced, if_pos (by rw [hx, hxs])] at hz
        simpa using hz
      · exact hrest j z (by omega) hz hkey
    · rw [holds_cons] at hh
      have hkey : key x = key y := by simpa [hxs] using hh
      refine ⟨0, ?_, ?_⟩
      · rw [replaced, hkey, if_neg hxs, h.find_eq hy]
        rfl
      · rintro (_ | j) z hj hz hz'
        · exact absurd rfl hj
        · refine absurd ?_ hxs
          rw [← holds_replaced incoming, holds_iff]
          exact List.mem_map.mpr ⟨z, List.mem_of_getElem? hz, hz'⟩

theorem merge_place {existing incoming : List α} {y : α} (h : Distinct key incoming)
    (hy : y ∈ incoming) : TakesPlace key existing (merge key existing incoming) y := by
  have hlen := @length_replaced _ _ _ key incoming existing
  by_cases hh : holds key (key y) existing = true
  · obtain ⟨i, hi, hrest⟩ := replaced_place h hy hh
    refine ⟨i, ?_, ?_⟩
    · rw [merge, List.getElem?_append_left (List.getElem?_eq_some_iff.mp hi).1, hi]
    · intro j x hj hx hkey
      by_cases hlt : j < (replaced key incoming existing).length
      · rw [merge, List.getElem?_append_left hlt] at hx
        exact hrest j x hj hx hkey
      · rw [merge, List.getElem?_append_right (by omega)] at hx
        have hnew := (List.mem_filter.mp (List.mem_of_getElem? hx)).2
        rw [hkey, hh] at hnew
        cases hnew
  · have hmem : y ∈ fresh key existing incoming := List.mem_filter.mpr ⟨hy, by simpa using hh⟩
    obtain ⟨k, hk⟩ := List.mem_iff_getElem?.mp hmem
    refine ⟨(replaced key incoming existing).length + k, ?_, ?_⟩
    · rw [merge, List.getElem?_append_right (by omega), Nat.add_sub_cancel_left, hk]
    · intro j x hj hx hkey
      by_cases hlt : j < (replaced key incoming existing).length
      · rw [merge, List.getElem?_append_left hlt] at hx
        refine absurd ?_ hh
        rw [← holds_replaced incoming, holds_iff]
        exact List.mem_map.mpr ⟨x, List.mem_of_getElem? hx, hkey⟩
      · rw [merge, List.getElem?_append_right (by omega)] at hx
        have hnd : ((fresh key existing incoming).map key).Nodup :=
          h.nodup.sublist (List.filter_sublist.map key)
        obtain ⟨hlt', hget⟩ := List.getElem?_eq_some_iff.mp hx
        obtain ⟨hltk, hgetk⟩ := List.getElem?_eq_some_iff.mp hk
        have hlt₁ : j - (replaced key incoming existing).length
            < ((fresh key existing incoming).map key).length := by simpa using hlt'
        have hlt₂ : k < ((fresh key existing incoming).map key).length := by simpa using hltk
        have hsame := (@List.Nodup.getElem_inj_iff _ _ hnd _ hlt₁ _ hlt₂).mp
          (by simp [hget, hgetk, hkey])
        omega

theorem merge_get {existing incoming : List α} {i : ℕ} {x : α} (hx : existing[i]? = some x)
    (h : key x ∉ incoming.map key) : (merge key existing incoming)[i]? = some x := by
  have hi := replaced_get hx h
  rw [merge, List.getElem?_append_left (List.getElem?_eq_some_iff.mp hi).1, hi]

theorem filterMap_replaced (incoming existing : List α) :
    (replaced key incoming existing).filterMap key = existing.filterMap key := by
  have hmap := congrArg (List.filterMap id) (@map_key_replaced _ _ _ key incoming existing)
  rwa [List.filterMap_map, List.filterMap_map] at hmap

/-- Keys that are all different stay so. -/
theorem nodup_merge {existing incoming : List α} (h : Distinct key incoming)
    (hexisting : (existing.filterMap key).Nodup) :
    ((merge key existing incoming).filterMap key).Nodup := by
  have hincoming : (incoming.filterMap key).Nodup := by
    have := h.nodup
    rw [List.nodup_iff_pairwise_ne, List.pairwise_map] at this
    rw [List.nodup_iff_pairwise_ne, List.pairwise_filterMap]
    refine this.imp fun hne k hk k' hk' heq => hne ?_
    rw [hk, hk', heq]
  rw [merge, List.filterMap_append, filterMap_replaced, List.nodup_append]
  refine ⟨hexisting, hincoming.sublist (List.filter_sublist.filterMap key), ?_⟩
  rintro k hk k' hk' rfl
  obtain ⟨y, hy, hkey⟩ := List.mem_filterMap.mp hk'
  obtain ⟨x, hx, hkey'⟩ := List.mem_filterMap.mp hk
  have hnew := (List.mem_filter.mp hy).2
  rw [(holds_iff).mpr (List.mem_map.mpr ⟨x, hx, hkey'.trans hkey.symm⟩)] at hnew
  cases hnew

end Schemes.LastUpsert
