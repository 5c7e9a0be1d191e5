import Mathlib

/-! # Merge sort from the bottom up

A pass merges neighbouring runs of `width` items into runs of twice the width; passes follow until
one run is left. There are as many passes as it takes to double 1 up to the length. What the passes
leave is sorted, and by a total order without ties it is the same for every order of the input. -/

namespace Schemes.MergeSort

variable {α : Type}

theorem length_drop_lt {xs : List α} (h : xs ≠ []) {width : ℕ} (hw : 0 < width) :
    (xs.drop (2 * width)).length < xs.length := by
  have := List.length_pos_iff.mpr h
  rw [List.length_drop]
  omega

def pass (le : α → α → Bool) (width : ℕ) (hw : 0 < width) (xs : List α) : List α :=
  if _h : xs = [] then []
  else List.merge (xs.take width) ((xs.drop width).take width) le
    ++ pass le width hw (xs.drop (2 * width))
termination_by xs.length
decreasing_by exact length_drop_lt _h hw

theorem two_mul_pos {width : ℕ} (hw : 0 < width) : 0 < 2 * width := by omega

/-- The passes from runs of `width` on, for a list of `n` items. -/
def passes (le : α → α → Bool) (n width : ℕ) (hw : 0 < width) (xs : List α) : List α :=
  if width < n then passes le n (2 * width) (two_mul_pos hw) (pass le width hw xs) else xs
termination_by n - width

def sort (le : α → α → Bool) (xs : List α) : List α := passes le xs.length 1 Nat.one_pos xs

/-- How many passes follow from runs of `width` on. -/
def rounds (n width : ℕ) (hw : 0 < width) : ℕ :=
  if width < n then rounds n (2 * width) (two_mul_pos hw) + 1 else 0
termination_by n - width

/-- A list of sorted runs of `width` items, the last of them perhaps shorter. -/
inductive Runs (le : α → α → Bool) (width : ℕ) : List α → Prop where
  | last {xs : List α} : xs.Pairwise (le · ·) → xs.length ≤ width → Runs le width xs
  | cons {run rest : List α} : run.Pairwise (le · ·) → run.length = width → Runs le width rest →
      Runs le width (run ++ rest)

variable {le : α → α → Bool} {n width : ℕ} (hw : 0 < width)

theorem runs_one : ∀ xs : List α, Runs le 1 xs
  | [] => .last .nil (Nat.zero_le 1)
  | x :: xs => .cons (List.pairwise_singleton _ x) rfl (runs_one xs)

theorem Runs.sorted {xs : List α} (h : Runs le width xs) (hlen : xs.length ≤ width) :
    xs.Pairwise (le · ·) := by
  cases h with
  | last hs _ => exact hs
  | cons hs hl hr =>
    rename_i run rest
    rw [List.length_append] at hlen
    have hrest : rest = [] := List.length_eq_zero_iff.mp (by omega)
    rw [hrest, List.append_nil]
    exact hs

theorem pass_nil : pass le width hw [] = [] := by rw [pass, dif_pos rfl]

/-- What a pass does with the first two runs. -/
theorem pass_cons {left right rest : List α} (hl : left.length = width)
    (hr : right.length = width ∨ right.length < width ∧ rest = []) :
    pass le width hw (left ++ (right ++ rest)) = List.merge left right le ++ pass le width hw rest := by
  have hne : left ++ (right ++ rest) ≠ [] := by
    intro h
    rw [(List.append_eq_nil_iff.mp h).1] at hl
    simp at hl
    omega
  have htake : (left ++ (right ++ rest)).take width = left := List.take_left' hl
  have hdrop : (left ++ (right ++ rest)).drop width = right ++ rest := List.drop_left' hl
  have hdrop2 : (left ++ (right ++ rest)).drop (2 * width) = (right ++ rest).drop width := by
    rw [two_mul, ← List.drop_drop, hdrop]
  rw [pass, dif_neg hne, htake, hdrop, hdrop2]
  rcases hr with hr | ⟨hr, rfl⟩
  · rw [List.take_left' hr, List.drop_left' hr]
  · rw [List.append_nil, List.take_of_length_le hr.le, List.drop_eq_nil_of_le hr.le]

theorem pass_short {xs : List α} (h : xs.length ≤ width) : pass le width hw xs = xs := by
  by_cases hx : xs = []
  · rw [hx, pass_nil]
  · rw [pass, dif_neg hx, List.take_of_length_le h, List.drop_eq_nil_of_le h, List.take_nil,
      List.merge_right, List.drop_eq_nil_of_le (by omega), pass_nil, List.append_nil]

theorem pass_perm (xs : List α) : (pass le width hw xs).Perm xs := by
  induction xs using pass.induct width hw with
  | case1 => rw [pass_nil]
  | case2 xs h ih =>
    rw [pass, dif_neg h]
    have hsplit : xs.take width ++ ((xs.drop width).take width ++ xs.drop (2 * width)) = xs := by
      rw [two_mul, ← List.drop_drop, List.take_append_drop, List.take_append_drop]
    refine (List.Perm.append (List.merge_perm_append le) ih).trans ?_
    rw [List.append_assoc, hsplit]

theorem passes_perm (xs : List α) : (passes le n width hw xs).Perm xs := by
  induction width, hw, xs using passes.induct le n with
  | case1 width hw xs h ih =>
    rw [passes, if_pos h]
    exact ih.trans (pass_perm hw xs)
  | case2 width hw xs h =>
    rw [passes, if_neg h]

theorem sort_perm (xs : List α) : (sort le xs).Perm xs := passes_perm Nat.one_pos xs

section Sorted

variable (trans : ∀ a b c, le a b → le b c → le a c) (total : ∀ a b, le a b || le b a)

include trans total

theorem runs_pass {xs : List α} (h : Runs le width xs) : Runs le (2 * width) (pass le width hw xs) := by
  induction hlen : xs.length using Nat.strong_induction_on generalizing xs with
  | _ k ih =>
    cases h with
    | last hs hl =>
      rw [pass_short hw hl]
      exact .last hs (by omega)
    | @cons left rest hs hl hr =>
      cases hr with
      | last hs' hl' =>
        have h := @pass_cons _ le _ hw _ _ [] hl (hl'.eq_or_lt.imp_right fun h => ⟨h, rfl⟩)
        rw [List.append_nil, pass_nil, List.append_nil] at h
        rw [h]
        refine .last (List.pairwise_merge trans total _ _ hs hs') ?_
        rw [List.length_merge]
        omega
      | @cons right rest hs' hl' hr =>
        rw [pass_cons hw hl (.inl hl')]
        refine .cons (List.pairwise_merge trans total _ _ hs hs') ?_ ?_
        · rw [List.length_merge, hl, hl', two_mul]
        · simp only [List.length_append] at hlen
          exact ih rest.length (by omega) hr rfl

theorem passes_sorted {xs : List α} (hlen : xs.length = n) (h : Runs le width xs) :
    (passes le n width hw xs).Pairwise (le · ·) := by
  induction width, hw, xs using passes.induct le n with
  | case1 width hw xs hlt ih =>
    rw [passes, if_pos hlt]
    exact ih ((pass_perm hw xs).length_eq.trans hlen) (runs_pass hw trans total h)
  | case2 width hw xs hlt =>
    rw [passes, if_neg hlt]
    exact h.sorted (by omega)

theorem sort_sorted (xs : List α) : (sort le xs).Pairwise (le · ·) :=
  passes_sorted Nat.one_pos trans total rfl (runs_one xs)

/-- Without ties there is one sorted order. -/
theorem sort_eq_of_perm (antisymm : ∀ a b, le a b → le b a → a = b) {xs ys : List α}
    (h : xs.Perm ys) : sort le xs = sort le ys :=
  (((sort_perm xs).trans h).trans (sort_perm ys).symm).eq_of_pairwise
    (fun a b _ _ => antisymm a b) (sort_sorted trans total xs) (sort_sorted trans total ys)

end Sorted

/-! ### Stability -/

/-- Items that stand before each other. -/
def tied (le : α → α → Bool) (a b : α) : Bool := le a b && le b a

/-- The items in order, those that tie in the order they came in. -/
structure StablySorted (le : α → α → Bool) (xs ys : List α) : Prop where
  perm : ys.Perm xs
  sorted : ys.Pairwise (le · ·)
  stable : ∀ a, ys.filter (tied le a) = xs.filter (tied le a)

section Stable

variable (trans : ∀ a b c, le a b → le b c → le a c) (total : ∀ a b, le a b || le b a)

include trans

/-- A merge leaves tied items in their order: those of the first run come first. -/
theorem filter_merge (a : α) {left right : List α} (h : left.Pairwise (le · ·)) :
    (List.merge left right le).filter (tied le a)
      = left.filter (tied le a) ++ right.filter (tied le a) := by
  induction left, right using List.merge.induct le with
  | case1 right => simp
  | case2 left hne => simp
  | case3 l left r right hle ih =>
    rw [List.cons_merge_cons_pos _ _ _ hle, List.filter_cons, List.filter_cons, ih h.of_cons]
    split <;> rfl
  | case4 l left r right hle ih =>
    rw [List.cons_merge_cons_neg _ _ _ hle, List.filter_cons, ih h, List.filter_cons (x := r)]
    by_cases hr : tied le a r = true
    · have hnone : (l :: left).filter (tied le a) = [] := by
        refine List.filter_eq_nil_iff.mpr ?_
        intro c hc htied
        simp only [tied, Bool.and_eq_true] at hr htied
        have hcr : le c r = true := trans _ _ _ htied.2 hr.1
        rcases List.mem_cons.mp hc with rfl | hc
        · exact hle hcr
        · exact hle (trans _ _ _ (List.rel_of_pairwise_cons h hc) hcr)
      rw [if_pos hr, if_pos hr, hnone]
      rfl
    · rw [if_neg hr, if_neg hr]

theorem filter_pass (a : α) {xs : List α} (h : Runs le width xs) :
    (pass le width hw xs).filter (tied le a) = xs.filter (tied le a) := by
  induction hlen : xs.length using Nat.strong_induction_on generalizing xs with
  | _ k ih =>
    cases h with
    | last hs hl => rw [pass_short hw hl]
    | @cons left rest hs hl hr =>
      cases hr with
      | last hs' hl' =>
        have h := @pass_cons _ le _ hw _ _ [] hl (hl'.eq_or_lt.imp_right fun h => ⟨h, rfl⟩)
        rw [List.append_nil, pass_nil, List.append_nil] at h
        rw [h, filter_merge trans a hs, List.filter_append]
      | @cons right rest hs' hl' hr =>
        have hrest : rest.length < k := by
          simp only [List.length_append] at hlen
          omega
        rw [pass_cons hw hl (.inl hl'), List.filter_append, filter_merge trans a hs,
          ih rest.length hrest hr rfl, List.filter_append, List.filter_append, List.append_assoc]

include total

theorem filter_passes (a : α) {xs : List α} (h : Runs le width xs) :
    (passes le n width hw xs).filter (tied le a) = xs.filter (tied le a) := by
  induction width, hw, xs using passes.induct le n with
  | case1 width hw xs hlt ih =>
    rw [passes, if_pos hlt, ih (runs_pass hw trans total h), filter_pass hw trans a h]
  | case2 width hw xs hlt => rw [passes, if_neg hlt]

theorem sort_stablySorted (xs : List α) : StablySorted le xs (sort le xs) where
  perm := sort_perm xs
  sorted := sort_sorted trans total xs
  stable := fun a => filter_passes Nat.one_pos trans total a (runs_one xs)

end Stable

/-! ### The number of passes -/

theorem rounds_le_iff {k : ℕ} : rounds n width hw ≤ k ↔ n ≤ 2 ^ k * width := by
  induction k generalizing width with
  | zero =>
    rw [rounds, pow_zero, one_mul]
    split <;> omega
  | succ k ih =>
    rw [rounds, pow_succ, mul_assoc]
    split
    · rw [Nat.succ_le_succ_iff, ih]
    · rename_i h
      refine ⟨fun _ => ?_, fun _ => Nat.zero_le _⟩
      calc n ≤ 2 * width := by omega
        _ ≤ 2 ^ k * (2 * width) := Nat.le_mul_of_pos_left _ (by positivity)

/-- So many doublings are enough. -/
theorem rounds_le {k : ℕ} (h : n ≤ 2 ^ k * width) : rounds n width hw ≤ k := (rounds_le_iff hw).mpr h

/-- From single items on there are as many passes as the logarithm of the length says. -/
theorem rounds_one (n : ℕ) : rounds n 1 Nat.one_pos = Nat.clog 2 n := by
  refine eq_of_forall_ge_iff fun k => ?_
  rw [rounds_le_iff, mul_one, Nat.clog_le_iff_le_pow Nat.one_lt_two]

end Schemes.MergeSort
