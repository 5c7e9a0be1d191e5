import Mathlib

/-! # Items laid out by key

Items that are sorted by their keys lie in one stretch for each key. Where a stretch begins is the
sum of the lengths of the stretches before it, so an item's place is that sum and the number of items
of its key before it. -/

namespace Schemes.Buckets

variable {α κ : Type}

/-! ### Lists with a value for each key -/

theorem map_set {β : Type} {ks : List κ} (hnd : ks.Nodup) {i : ℕ} {k : κ} (hk : ks[i]? = some k)
    {f g : κ → β} (h : ∀ k', k' ≠ k → g k' = f k') : (ks.map f).set i (g k) = ks.map g := by
  obtain ⟨hi, rfl⟩ := List.getElem?_eq_some_iff.mp hk
  refine List.ext_getElem (by simp) ?_
  intro j hj hj'
  rw [List.length_map] at hj'
  rw [List.getElem_set, List.getElem_map, List.getElem_map]
  split
  · rename_i hij
    subst hij
    rfl
  · rename_i hij
    refine (h _ ?_).symm
    intro heq
    exact hij (hnd.getElem_inj_iff.mp heq).symm

theorem getD_map {β : Type} {ks : List κ} {i : ℕ} {k : κ} (hk : ks[i]? = some k) (f : κ → β) (b : β) :
    (ks.map f).getD i b = f k := by
  simp [List.getD_eq_getElem?_getD, hk]

/-! ### Buckets -/

variable [DecidableEq κ] (key : α → κ)

/-- The items with a key. -/
def bucket (xs : List α) (k : κ) : List α := xs.filter fun a => key a = k

theorem bucket_concat_self (xs : List α) (a : α) :
    bucket key (xs ++ [a]) (key a) = bucket key xs (key a) ++ [a] := by
  simp [bucket]

theorem bucket_concat_ne (xs : List α) {a : α} {k : κ} (h : k ≠ key a) :
    bucket key (xs ++ [a]) k = bucket key xs k := by
  simp [bucket, Ne.symm h]

theorem bucket_length_le (xs : List α) (k : κ) : (bucket key xs k).length ≤ xs.length :=
  List.length_filter_le _ xs

/-- What the buckets add up to. -/
theorem sum_buckets {M : Type} [AddCommMonoid M] (f : α → M) (xs : List α) {ks : List κ}
    (hnd : ks.Nodup) : (ks.map fun k => ((bucket key xs k).map f).sum).sum
      = ((xs.filter fun a => key a ∈ ks).map f).sum := by
  induction xs with
  | nil => simp [bucket]
  | cons a xs ih =>
    have hstep : ∀ k, ((bucket key (a :: xs) k).map f).sum
        = (if key a = k then f a else 0) + ((bucket key xs k).map f).sum := by
      intro k
      by_cases h : key a = k <;> simp [bucket, h]
    have hone : (ks.map fun k => if key a = k then f a else 0).sum
        = if key a ∈ ks then f a else 0 := by
      clear hstep ih
      induction ks with
      | nil => simp
      | cons k ks ih =>
        have hk := List.nodup_cons.mp hnd
        rw [List.map_cons, List.sum_cons, ih hk.2]
        by_cases h : key a = k
        · subst h
          simp [hk.1]
        · simp [h]
    simp only [hstep, List.sum_map_add, hone, ih]
    by_cases h : key a ∈ ks <;> simp [h]

theorem sum_length_buckets (xs : List α) {ks : List κ} (hnd : ks.Nodup) :
    (ks.map fun k => (bucket key xs k).length).sum = (xs.filter fun a => key a ∈ ks).length := by
  have h := sum_buckets key (fun _ => 1) xs hnd
  simpa using h

theorem sum_length_buckets_eq (xs : List α) {ks : List κ} (hnd : ks.Nodup)
    (hall : ∀ a ∈ xs, key a ∈ ks) : (ks.map fun k => (bucket key xs k).length).sum = xs.length := by
  rw [sum_length_buckets key xs hnd, List.filter_eq_self.mpr (by simpa using hall)]

/-! ### Sorted items -/

/-- Where the stretch of the `i`-th key begins. -/
def offset (xs : List α) (ks : List κ) (i : ℕ) : ℕ :=
  ((ks.map fun k => (bucket key xs k).length).take i).sum

theorem offset_mono (xs : List α) (ks : List κ) : Monotone (offset key xs ks) := by
  intro i j hij
  rw [offset, offset]
  exact List.Sublist.sum_le_sum ((List.take_prefix_take_left hij).sublist) (by simp)

theorem offset_succ (xs : List α) {ks : List κ} {i : ℕ} {k : κ} (hk : ks[i]? = some k) :
    offset key xs ks (i + 1) = offset key xs ks i + (bucket key xs k).length := by
  rw [offset, offset, List.take_add_one, List.sum_append]
  simp [hk]

variable (cmp : κ → κ → Ordering) [Std.TransCmp cmp]

/-- Keys that go up. -/
def Increasing (ks : List κ) : Prop := ks.Pairwise fun k k' => cmp k k' = .lt

/-- Items whose keys do not go down. -/
def SortedBy (xs : List α) : Prop := xs.Pairwise fun a b => cmp (key a) (key b) ≠ .gt

variable {cmp}

omit [DecidableEq κ] in
theorem cmp_self (k : κ) : cmp k k = .eq := Std.ReflCmp.compare_self

omit [DecidableEq κ] in
theorem ne_of_cmp {k k' : κ} {o : Ordering} (h : cmp k k' = o) (ho : o ≠ .eq) : k ≠ k' := by
  rintro rfl
  exact ho (h.symm.trans (cmp_self k))

omit [DecidableEq κ] in
theorem Increasing.nodup {ks : List κ} (h : Increasing cmp ks) : ks.Nodup :=
  List.Pairwise.imp (fun hlt => ne_of_cmp hlt (by simp)) h

omit [DecidableEq κ] in
theorem lt_of_lt_of_ne_gt {a b c : κ} (h : cmp a b = .lt) (h' : cmp b c ≠ .gt) : cmp a c = .lt :=
  Std.TransCmp.lt_of_lt_of_isLE h (Ordering.isLE_iff_ne_gt.mpr h')

variable {key}

/-- Before the stretch of a key lie the items with smaller keys. -/
theorem offset_eq {xs : List α} {ks : List κ} (hks : Increasing cmp ks)
    (hall : ∀ a ∈ xs, key a ∈ ks) {i : ℕ} {k : κ} (hk : ks[i]? = some k) :
    offset key xs ks i = (xs.filter fun a => cmp (key a) k = .lt).length := by
  rw [offset, ← List.map_take, sum_length_buckets key xs (hks.nodup.sublist (List.take_sublist i ks))]
  congr 1
  refine List.filter_congr ?_
  intro a ha
  obtain ⟨j, hj, hja⟩ := List.getElem_of_mem (hall a ha)
  obtain ⟨hi, rfl⟩ := List.getElem?_eq_some_iff.mp hk
  have hlt : ∀ {m n : ℕ} (hm : m < ks.length) (hn : n < ks.length), m < n → cmp ks[m] ks[n] = .lt :=
    fun hm hn hmn => List.pairwise_iff_getElem.mp hks _ _ hm hn hmn
  rw [decide_eq_decide, ← hja, List.mem_take_iff_getElem]
  constructor
  · rintro ⟨m, hm, hmj⟩
    rw [hks.nodup.getElem_inj_iff] at hmj
    exact hlt hj hi (by omega)
  · intro hji
    refine ⟨j, ?_, rfl⟩
    rcases Nat.lt_trichotomy j i with h | h | h
    · omega
    · subst h
      exact absurd rfl (ne_of_cmp hji (by simp))
    · have := hlt hi hj h
      rw [← Std.OrientedCmp.gt_iff_lt, hji] at this
      cases this

variable [Std.LawfulEqCmp cmp]

/-- The items before those of a key, those of the key, and those after. -/
theorem SortedBy.split {xs : List α} (h : SortedBy key cmp xs) (k : κ) :
    xs = (xs.filter fun a => cmp (key a) k = .lt) ++ (bucket key xs k
      ++ xs.filter fun a => cmp (key a) k = .gt) := by
  induction xs with
  | nil => rfl
  | cons a xs ih =>
    obtain ⟨ha, h⟩ := List.pairwise_cons.mp h
    specialize ih h
    rcases hak : cmp (key a) k with _ | _ | _
    · have hne : key a ≠ k := ne_of_cmp hak (by simp)
      simp only [bucket, List.filter_cons, hak, hne, decide_true, decide_false, if_true,
        Bool.false_eq_true, if_false, reduceCtorEq, List.cons_append]
      exact congrArg _ ih
    · have hkey : key a = k := Std.LawfulEqCmp.eq_of_compare hak
      have hnil : (xs.filter fun b => cmp (key b) k = .lt) = [] := by
        rw [List.filter_eq_nil_iff]
        intro b hb hlt
        refine ha b hb ?_
        rw [hkey, Std.OrientedCmp.gt_iff_lt]
        exact of_decide_eq_true hlt
      rw [bucket] at ih
      simp only [bucket, List.filter_cons, hkey, cmp_self, decide_true, decide_false, if_true,
        Bool.false_eq_true, if_false, reduceCtorEq, List.cons_append, hnil, List.nil_append] at ih ⊢
      exact congrArg _ ih
    · have hne : key a ≠ k := ne_of_cmp hak (by simp)
      have hgt : ∀ b ∈ xs, cmp (key b) k = .gt := by
        intro b hb
        rw [Std.OrientedCmp.gt_iff_lt] at hak ⊢
        exact lt_of_lt_of_ne_gt hak (ha b hb)
      have hlt : (xs.filter fun b => cmp (key b) k = .lt) = [] := by
        rw [List.filter_eq_nil_iff]
        intro b hb
        simp [hgt b hb]
      have heq : bucket key xs k = [] := by
        rw [bucket, List.filter_eq_nil_iff]
        intro b hb hbk
        exact ne_of_cmp (hgt b hb) (by simp) (of_decide_eq_true hbk)
      rw [bucket] at heq
      simp only [bucket, List.filter_cons, hak, hne, decide_true, decide_false, if_true,
        Bool.false_eq_true, if_false, reduceCtorEq, hlt, heq, List.nil_append] at ih ⊢
      exact congrArg _ ih

/-- An item's place: where its stretch begins, and the items of its key before it. -/
theorem place_eq {done rest : List α} {a : α} {ks : List κ} (hks : Increasing cmp ks)
    (hall : ∀ b ∈ done ++ a :: rest, key b ∈ ks) (hs : SortedBy key cmp (done ++ a :: rest)) {i : ℕ}
    (hk : ks[i]? = some (key a)) :
    offset key (done ++ a :: rest) ks i + (bucket key done (key a)).length = done.length := by
  obtain ⟨hd, hr, hdr⟩ := List.pairwise_append.mp hs
  have hrest : ((a :: rest).filter fun b => cmp (key b) (key a) = .lt) = [] := by
    rw [List.filter_eq_nil_iff]
    intro b hb hlt
    rcases List.mem_cons.mp hb with rfl | hb
    · simp [cmp_self] at hlt
    · refine (List.pairwise_cons.mp hr).1 b hb ?_
      rw [Std.OrientedCmp.gt_iff_lt]
      exact of_decide_eq_true hlt
  have hgt : (done.filter fun b => cmp (key b) (key a) = .gt) = [] := by
    rw [List.filter_eq_nil_iff]
    intro b hb hbgt
    exact hdr b hb a (by simp) (of_decide_eq_true hbgt)
  have hsplit := congrArg List.length (SortedBy.split hd (key a))
  rw [hgt, List.append_nil, List.length_append] at hsplit
  rw [offset_eq hks hall hk, List.filter_append, hrest, List.append_nil]
  exact hsplit.symm

/-- The stretch of a key. -/
theorem slice_eq {xs : List α} {ks : List κ} (hks : Increasing cmp ks)
    (hall : ∀ a ∈ xs, key a ∈ ks) (hs : SortedBy key cmp xs) {i : ℕ} {k : κ} (hk : ks[i]? = some k) :
    (xs.take (offset key xs ks (i + 1))).drop (offset key xs ks i) = bucket key xs k := by
  rw [offset_succ key xs hk, offset_eq hks hall hk]
  conv_lhs =>
    enter [2, 2]
    rw [hs.split k]
  rw [← List.append_assoc, List.take_left' (by rw [List.length_append]), List.drop_left' rfl]

end Schemes.Buckets
