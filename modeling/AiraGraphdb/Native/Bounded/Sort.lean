import AiraGraphdb.Native.Bounded.Meter
import AiraGraphdb.Schemes.MergeSort

/-! # The counted sort

`canonical_counted_sort` merges from the bottom up and charges every slot twice, so what it charges
depends on the length alone and what it leaves on the order alone. -/

namespace AiraGraphdb.Native.Bounded

open Schemes

variable {α : Type}

/-- Two runs merged. A slot is charged before the choice and after the move, also when one run is
    exhausted. -/
def mergeRuns (compare : α → α → Ordering) (left right : List α) : Run (List α) :=
  match left, right with
  | [], [] => return []
  | l :: left, [] => do
    accountGraphScanUnit
    accountGraphScanUnit
    return l :: (← mergeRuns compare left [])
  | [], r :: right => do
    accountGraphScanUnit
    accountGraphScanUnit
    return r :: (← mergeRuns compare [] right)
  | l :: left, r :: right => do
    accountGraphScanUnit
    if compare l r != .gt then
      accountGraphScanUnit
      return l :: (← mergeRuns compare left (r :: right))
    else
      accountGraphScanUnit
      return r :: (← mergeRuns compare (l :: left) right)
termination_by left.length + right.length

def mergePass (compare : α → α → Ordering) (width : ℕ) (hw : 0 < width) (source : List α) :
    Run (List α) :=
  if _h : source = [] then return []
  else do
    let merged ← mergeRuns compare (source.take width) ((source.drop width).take width)
    return merged ++ (← mergePass compare width hw (source.drop (2 * width)))
termination_by source.length
decreasing_by exact MergeSort.length_drop_lt _h hw

/-- The passes, and whether the last one left the items in the scratch buffer. The width stays below
    twice the length of a slice, so that doubling it does not overflow. -/
def mergePasses (compare : α → α → Ordering) (len width : ℕ) (hw : 0 < width) (source : List α)
    (inScratch : Bool) : Run (List α × Bool) :=
  if width < len then do
    let destination ← mergePass compare width hw source
    mergePasses compare len (2 * width) (MergeSort.two_mul_pos hw) destination !inScratch
  else return (source, inScratch)
termination_by len - width

def canonicalCountedSort (compare : α → α → Ordering) (values : List α) : Run (List α) :=
  if values.length < 2 then return values
  else do
    let _scratch ← buildCountedGraphVec values.length fun index => values[index]?
    let (sorted, inScratch) ← mergePasses compare values.length 1 Nat.one_pos values false
    if inScratch then forM sorted fun _ => accountGraphScanUnit
    return sorted

/-! ### What it charges and what it leaves -/

/-- The order that a comparison stands for. -/
def noGreater (compare : α → α → Ordering) (a b : α) : Bool := compare a b != .gt

variable (compare : α → α → Ordering)

theorem mergeRuns_eq (left right : List α) :
    mergeRuns compare left right = (do
      scanUnits (2 * (left.length + right.length))
      return List.merge left right (noGreater compare)) := by
  have two (n : ℕ) : scanUnits (2 * (n + 1)) = (do
      accountGraphScanUnit
      accountGraphScanUnit
      scanUnits (2 * n)) := by
    rw [Nat.mul_add, scanUnits, scanUnits]
  induction left, right using mergeRuns.induct with
  | case1 =>
    rw [mergeRuns, List.length_nil, Nat.add_zero, Nat.mul_zero, scanUnits, pure_bind, List.nil_merge]
  | case2 l left ih =>
    rw [mergeRuns, ih, List.length_cons, List.length_nil, Nat.add_right_comm, two]
    simp only [bind_assoc, pure_bind, List.merge_right, Nat.add_zero]
  | case3 r right ih =>
    rw [mergeRuns, ih, List.length_cons, List.length_nil, Nat.zero_add, Nat.zero_add, two]
    simp only [bind_assoc, pure_bind, List.nil_merge]
  | case4 l left r right ih ih' =>
    rw [mergeRuns]
    by_cases h : noGreater compare l r = true
    · rw [if_pos (by exact h), ih, List.length_cons (a := l), Nat.add_right_comm, two,
        List.cons_merge_cons_pos _ _ _ h]
      simp only [bind_assoc, pure_bind]
    · rw [if_neg (by exact h), ih', List.length_cons (a := r), ← Nat.add_assoc, two,
        List.cons_merge_cons_neg _ _ _ h]
      simp only [bind_assoc, pure_bind]

theorem mergePass_eq {width : ℕ} (hw : 0 < width) (source : List α) :
    mergePass compare width hw source = (do
      scanUnits (2 * source.length)
      return MergeSort.pass (noGreater compare) width hw source) := by
  induction source using mergePass.induct width hw with
  | case1 => rw [mergePass, dif_pos rfl, MergeSort.pass_nil, List.length_nil, scanUnits, pure_bind]
  | case2 source h ih =>
    have hlen : 2 * source.length
        = 2 * ((source.take width).length + ((source.drop width).take width).length)
          + 2 * (source.drop (2 * width)).length := by
      simp only [List.length_take, List.length_drop]
      omega
    rw [mergePass, dif_neg h, MergeSort.pass, dif_neg h, mergeRuns_eq, ih, hlen, scanUnits_add]
    simp only [bind_assoc, pure_bind]

theorem flip_step (b : Bool) (r : ℕ) : (!b ^^ (r % 2 == 1)) = (b ^^ ((r + 1) % 2 == 1)) := by
  rcases Nat.mod_two_eq_zero_or_one r with h | h <;> cases b <;> simp [Nat.add_mod, h]

theorem mergePasses_eq {len width : ℕ} (hw : 0 < width) (source : List α) (inScratch : Bool)
    (hlen : source.length = len) :
    mergePasses compare len width hw source inScratch = (do
      scanUnits (2 * len * MergeSort.rounds len width hw)
      return (MergeSort.passes (noGreater compare) len width hw source,
        inScratch ^^ (MergeSort.rounds len width hw % 2 == 1))) := by
  induction width, hw using MergeSort.rounds.induct len generalizing source inScratch with
  | case1 width hw h ih =>
    have hpass := (@MergeSort.pass_perm _ (noGreater compare) _ hw source).length_eq.trans hlen
    rw [mergePasses, if_pos h, mergePass_eq, MergeSort.rounds, if_pos h, MergeSort.passes, if_pos h,
      Nat.mul_succ, Nat.add_comm, scanUnits_add, hlen]
    simp only [bind_assoc, pure_bind, ih _ _ hpass]
    rw [flip_step]
  | case2 width hw h =>
    rw [mergePasses, if_neg h, MergeSort.rounds, if_neg h, MergeSort.passes, if_neg h, Nat.mul_zero,
      scanUnits, pure_bind, Nat.zero_mod]
    simp

/-- What the sort of `n` items charges: the scratch buffer, the passes, and one more move when the
    passes end in the scratch buffer. -/
def sortUnits (n : ℕ) : ℕ :=
  if n < 2 then 0
  else n + 2 * n * MergeSort.rounds n 1 Nat.one_pos
    + if MergeSort.rounds n 1 Nat.one_pos % 2 = 1 then n else 0

theorem sortUnits_le {n k : ℕ} (h : n ≤ 2 ^ k) : sortUnits n ≤ (2 * k + 2) * n := by
  have hr : MergeSort.rounds n 1 Nat.one_pos ≤ k := MergeSort.rounds_le _ (by rwa [mul_one])
  have := Nat.mul_le_mul_left (2 * n) hr
  rw [sortUnits]
  split_ifs
  · omega
  · linarith
  · linarith

/-- After an even number of passes the items are where they belong. -/
theorem sortUnits_le_of_even {n k : ℕ} (h : n ≤ 2 ^ k) (hk : k % 2 = 0) :
    sortUnits n ≤ (2 * k + 1) * n := by
  have hr : MergeSort.rounds n 1 Nat.one_pos ≤ k := MergeSort.rounds_le _ (by rwa [mul_one])
  rw [sortUnits]
  split_ifs with _ hodd
  · omega
  · have hlt : MergeSort.rounds n 1 Nat.one_pos + 1 ≤ k := by
      rcases hr.eq_or_lt with he | hl
      · omega
      · exact hl
    have := Nat.mul_le_mul_left (2 * n) hlt
    linarith
  · have := Nat.mul_le_mul_left (2 * n) hr
    linarith

theorem forM_charged (xs : List α) :
    (forM xs fun _ => accountGraphScanUnit) = scanUnits xs.length := by
  induction xs with
  | nil => rfl
  | cons x xs ih => rw [List.forM_cons, ih, List.length_cons, scanUnits]

theorem canonicalCountedSort_eq (values : List α) :
    canonicalCountedSort compare values =
      if values.length < 2 then return MergeSort.sort (noGreater compare) values
      else do
        beforeAllocation
        beforeAllocation
        scanUnits (sortUnits values.length)
        return MergeSort.sort (noGreater compare) values := by
  rw [canonicalCountedSort]
  split
  · rename_i h
    rw [MergeSort.sort, MergeSort.passes, if_neg (by omega)]
  · rename_i h
    rw [buildCountedGraphVec_eq, mergePasses_eq _ _ _ _ rfl, sortUnits, if_neg h, scanUnits_add,
      scanUnits_add]
    simp only [bind_assoc, pure_bind, Bool.false_bne, forM_charged, beq_iff_eq]
    split
    · rw [(MergeSort.passes_perm _ _).length_eq]
      rfl
    · rfl

theorem canonicalCountedSort_meets {calm : Prop} {w B : WorkCounts} {E : ExecutionFailure → Prop}
    (hE : Tolerates calm B E) (values : List α)
    (hw : w.add .graphScanUnits (sortUnits values.length) ≤ B) :
    Meets (At calm w) (canonicalCountedSort compare values)
      (fun sorted m => sorted = MergeSort.sort (noGreater compare) values
        ∧ At calm (w.add .graphScanUnits (sortUnits values.length)) m) E := by
  have h0 : w ≤ B := WorkCounts.le_trans (WorkCounts.le_add _ _ _) hw
  rw [canonicalCountedSort_eq]
  split
  · rename_i h
    rw [sortUnits, if_pos h, WorkCounts.add_zero]
    exact Meets.pure fun m hm => ⟨rfl, hm⟩
  · refine (checkpoint_meets hE h0).bind fun _ => (checkpoint_meets hE h0).bind fun _ => ?_
    exact (scanUnits_meets hE hw).bind fun _ => Meets.pure fun m hm => ⟨rfl, hm⟩

/-! ### Every sort that ends -/

/-- What a run leaves of the work, however the clock runs. -/
abbrev Works (w : WorkCounts) (m : Meter) : Prop := m.work = w

theorem checkpoint_works (w : WorkCounts) :
    Meets (Works w) checkpoint (fun _ => Works w) fun _ => True := by
  rintro m rfl
  rw [checkpoint]
  rcases m.deadline.checkpoint (m.clock 0) m.completedUnits with e | d
  · trivial
  · rfl

theorem advance_works (w : WorkCounts) (units : ℕ) :
    Meets (Works w) (advance units) (fun _ => Works w) fun _ => True := by
  rintro m rfl
  simp only [advance]
  rcases checkedAdd m.completedUnits units with _ | n
  · trivial
  · dsimp only
    split_ifs
    · exact checkpoint_works _ _ rfl
    · rfl

theorem count_works (w : WorkCounts) (c : Counter) (o : FailureClass) :
    Meets (Works w) (count c o) (fun _ => Works (w.add c 1)) fun _ => True := by
  rintro m rfl
  rw [count]
  rcases hn : checkedAdd (m.work.get c) 1 with _ | n
  · trivial
  · rw [checkedAdd] at hn
    split_ifs at hn
    cases hn
    rfl

theorem scanUnits_works (w : WorkCounts) (n : ℕ) :
    Meets (Works w) (scanUnits n) (fun _ => Works (w.add .graphScanUnits n)) fun _ => True := by
  induction n generalizing w with
  | zero =>
    rw [WorkCounts.add_zero]
    exact Meets.pure fun m hm => hm
  | succ n ih =>
    rw [scanUnits, accountGraphScanUnit, Nat.add_comm, ← WorkCounts.add_add]
    refine Meets.bind ?_ fun _ => ih _
    exact (count_works w .graphScanUnits .resource).bind fun _ => advance_works _ 1

/-- The charge by the logarithm of the length: a copy, two units a slot in every pass, and one more
move when the number of passes is odd. -/
def sortCharge (n : ℕ) : ℕ :=
  if n < 2 then 0
  else n + 2 * n * Nat.clog 2 n + if Nat.clog 2 n % 2 = 1 then n else 0

theorem sortUnits_eq (n : ℕ) : sortUnits n = sortCharge n := by
  rw [sortUnits, MergeSort.rounds_one, sortCharge]

/-- A sort that no deadline and no cap cuts short leaves the items stably sorted, and what it has
charged depends on their number alone; under a steady clock and below the caps none is cut short. -/
theorem canonicalCountedSort_stable
    (trans : ∀ a b c, noGreater compare a b → noGreater compare b c → noGreater compare a c)
    (total : ∀ a b, noGreater compare a b || noGreater compare b a) (values : List α) :
    (∀ m sorted m', canonicalCountedSort compare values m = .ok (sorted, m') →
      MergeSort.StablySorted (noGreater compare) values sorted
        ∧ m'.work = m.work.add .graphScanUnits (sortCharge values.length))
    ∧ ∀ m w, At True w m → w.add .graphScanUnits (sortCharge values.length) ≤ WorkCounts.caps →
      ∃ sorted m', canonicalCountedSort compare values m = .ok (sorted, m') := by
  rw [← sortUnits_eq]
  refine ⟨?_, ?_⟩
  · intro m sorted m' h
    have hmeets : Meets (Works m.work) (canonicalCountedSort compare values)
        (fun sorted m' => sorted = MergeSort.sort (noGreater compare) values
          ∧ Works (m.work.add .graphScanUnits (sortUnits values.length)) m') fun _ => True := by
      rw [canonicalCountedSort_eq]
      split
      · rename_i hshort
        rw [sortUnits, if_pos hshort, WorkCounts.add_zero]
        exact Meets.pure fun m hm => ⟨rfl, hm⟩
      · refine (checkpoint_works _).bind fun _ => (checkpoint_works _).bind fun _ => ?_
        exact (scanUnits_works _ _).bind fun _ => Meets.pure fun m hm => ⟨rfl, hm⟩
    obtain ⟨rfl, hwork⟩ := hmeets.ok rfl h
    exact ⟨MergeSort.sort_stablySorted trans total values, hwork⟩
  · intro m w hm hcaps
    have hmeets := canonicalCountedSort_meets compare (E := fun _ => False)
      ⟨.inr hcaps, fun h => absurd trivial h⟩ values (WorkCounts.le_refl _)
    rcases hrun : canonicalCountedSort compare values m with e | ⟨sorted, m'⟩
    · exact (hmeets.error hm hrun).elim
    · exact ⟨sorted, m', rfl⟩

/-- The parities of numbers, as an order with ties. -/
def compareParity (a b : ℕ) : Ordering := Ord.compare (a % 2) (b % 2)

theorem canonicalCountedSort_stable_parity :
    ∃ sorted m', canonicalCountedSort compareParity [3, 2, 1, 4, 5] stillMeter = .ok (sorted, m')
      ∧ MergeSort.StablySorted (noGreater compareParity) [3, 2, 1, 4, 5] sorted
      ∧ m'.work = WorkCounts.zero.add .graphScanUnits (sortCharge 5) := by
  have hle : ∀ a b, noGreater compareParity a b = true ↔ a % 2 ≤ b % 2 := by
    intro a b
    rw [noGreater, compareParity, bne_iff_ne, Ne, compare_gt_iff_gt, not_lt]
  have h := canonicalCountedSort_stable compareParity
    (fun a b c hab hbc => by
      rw [hle] at hab hbc ⊢
      omega)
    (fun a b => by
      rw [Bool.or_eq_true, hle, hle]
      omega) [3, 2, 1, 4, 5]
  have hcaps : WorkCounts.zero.add .graphScanUnits (sortCharge 5) ≤ WorkCounts.caps := by
    have hcharge : sortCharge 5 = 40 := by norm_num [sortCharge]
    rw [hcharge]
    exact WorkCounts.check_isSome.mp rfl
  obtain ⟨sorted, m', hrun⟩ := h.2 stillMeter .zero (stillMeter_at True) hcaps
  exact ⟨sorted, m', hrun, h.1 _ _ _ hrun⟩

/-- By an order without ties the same items in any order are sorted by the same run. -/
theorem canonicalCountedSort_perm (trans : ∀ a b c, noGreater compare a b → noGreater compare b c →
      noGreater compare a c) (total : ∀ a b, noGreater compare a b || noGreater compare b a)
    (antisymm : ∀ a b, noGreater compare a b → noGreater compare b a → a = b) {xs ys : List α}
    (h : xs.Perm ys) : canonicalCountedSort compare xs = canonicalCountedSort compare ys := by
  rw [canonicalCountedSort_eq, canonicalCountedSort_eq, h.length_eq,
    MergeSort.sort_eq_of_perm trans total antisymm h]

end AiraGraphdb.Native.Bounded
