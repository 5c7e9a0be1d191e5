import Mathlib

/-! # The best of a stream

Of the items seen so far the `limit` best are kept, in their order: an item enters after those it
does not beat, and the worst one leaves. What is kept in the end is what a full ranking would have
had in its first places. -/

namespace Schemes

/-! ### Comparisons by a part -/

section Comparison

variable {α β : Type} (f : α → β) (cmp : β → β → Ordering)

theorem cmp_swap [Std.OrientedCmp cmp] (a b : β) : cmp a b = (cmp b a).swap :=
  Std.OrientedCmp.eq_swap

variable [Std.TransCmp cmp]

theorem transCmp_on : Std.TransCmp fun a b => cmp (f a) (f b) where
  eq_swap := cmp_swap cmp _ _
  isLE_trans h h' := Std.TransCmp.isLE_trans h h'

/-- The other way round. -/
theorem transCmp_flip : Std.TransCmp fun a b => cmp (f b) (f a) where
  eq_swap := cmp_swap cmp _ _
  isLE_trans h h' := Std.TransCmp.isLE_trans h' h

end Comparison

namespace TopK

variable {α : Type} (cmp : α → α → Ordering)

/-- An item entered after those that it does not beat. -/
def enter (x : α) : List α → List α
  | [] => [x]
  | y :: ys => if cmp x y = .lt then x :: y :: ys else y :: enter x ys

def retain (limit : ℕ) (kept : List α) (x : α) : List α :=
  if limit = 0 then kept
  else if kept.length = limit ∧ kept.getLast?.any (fun worst => cmp x worst != .lt) then kept
  else if kept.length + 1 > limit then (enter cmp x kept).dropLast else enter cmp x kept

/-- All items in their order. -/
def ranking (xs : List α) : List α := xs.foldl (fun ys x => enter cmp x ys) []

theorem enter_perm (x : α) : ∀ ys, (enter cmp x ys).Perm (x :: ys)
  | [] => .rfl
  | y :: ys => by
    rw [enter]
    split
    · rfl
    · exact ((enter_perm x ys).cons y).trans (.swap x y ys)

theorem length_enter (x : α) (ys : List α) : (enter cmp x ys).length = ys.length + 1 :=
  (enter_perm cmp x ys).length_eq

theorem length_retain_le {limit : ℕ} {kept : List α} (h : kept.length ≤ limit) (x : α) :
    (retain cmp limit kept x).length ≤ limit := by
  rw [retain]
  split_ifs with h0 hfull hover
  · exact h
  · exact h
  · rw [List.length_dropLast, length_enter]
    omega
  · rw [length_enter]
    omega

/-- The first places need only the first places. -/
theorem take_enter (x : α) (ys : List α) (n : ℕ) :
    (enter cmp x ys).take n = (enter cmp x (ys.take n)).take n := by
  induction ys generalizing n with
  | nil => rw [List.take_nil]
  | cons y ys ih =>
    cases n with
    | zero => simp
    | succ n =>
      rw [List.take_succ_cons, enter, enter]
      split
      · cases n with
        | zero => simp
        | succ n => simp [List.take_take]
      · rw [List.take_succ_cons, List.take_succ_cons, ih]

/-- An item that beats none comes last. -/
theorem enter_of_beats_none (x : α) {ys : List α} (h : ∀ y ∈ ys, cmp x y ≠ .lt) :
    enter cmp x ys = ys ++ [x] := by
  induction ys with
  | nil => rfl
  | cons y ys ih =>
    rw [enter, if_neg (h y (by simp)), ih fun z hz => h z (by simp [hz])]
    rfl

variable [Std.TransCmp cmp]

def InOrder (xs : List α) : Prop := xs.Pairwise fun a b => (cmp a b).isLE

omit [Std.TransCmp cmp] in
theorem isLE_of_not_lt [Std.OrientedCmp cmp] {a b : α} (h : cmp a b ≠ .lt) : (cmp b a).isLE := by
  rw [cmp_swap cmp]
  cases hc : cmp a b
  · exact absurd hc h
  · rfl
  · rfl

variable {cmp} in
theorem InOrder.enter {x : α} {ys : List α} (h : InOrder cmp ys) : InOrder cmp (enter cmp x ys) := by
  induction ys with
  | nil => exact List.pairwise_singleton _ x
  | cons y ys ih =>
    obtain ⟨hy, hys⟩ := List.pairwise_cons.mp h
    rw [TopK.enter]
    split
    · rename_i hlt
      refine List.pairwise_cons.mpr ⟨?_, h⟩
      intro z hz
      have hxy : (cmp x y).isLE := by rw [hlt]; rfl
      rcases List.mem_cons.mp hz with rfl | hz
      · exact hxy
      · exact Std.TransCmp.isLE_trans hxy (hy z hz)
    · rename_i hlt
      refine List.pairwise_cons.mpr ⟨?_, ih hys⟩
      intro z hz
      rcases List.mem_cons.mp ((enter_perm cmp x ys).mem_iff.mp hz) with rfl | hz
      · exact isLE_of_not_lt cmp hlt
      · exact hy z hz

/-- One step keeps the first places of the ranking. -/
theorem retain_take {ys : List α} (h : InOrder cmp ys) (limit : ℕ) (x : α) :
    retain cmp limit (ys.take limit) x = (enter cmp x ys).take limit := by
  rw [take_enter, retain]
  have hlen := List.length_take_le limit ys
  split_ifs with h0 hworst hfull
  · rw [h0, List.take_zero, List.take_zero]
  · obtain ⟨hl, hw⟩ := hworst
    rw [enter_of_beats_none, List.take_append_of_le_length hl.ge, List.take_of_length_le hl.le]
    intro y hy hlt
    obtain ⟨ini, worst, he⟩ : ∃ ini worst, ys.take limit = ini ++ [worst] := by
      rcases List.eq_nil_or_concat (ys.take limit) with he | ⟨ini, worst, he⟩
      · rw [he] at hy
        simp at hy
      · exact ⟨ini, worst, by simpa using he⟩
    have hs : InOrder cmp (ini ++ [worst]) := he ▸ h.sublist (List.take_sublist limit ys)
    rw [he, List.getLast?_concat, Option.any_some, bne_iff_ne] at hw
    rw [he] at hy
    rcases List.mem_append.mp hy with hy | hy
    · have hle := (List.pairwise_append.mp hs).2.2 y hy worst (by simp)
      exact hw (Std.TransCmp.lt_of_lt_of_isLE hlt hle)
    · rw [List.mem_singleton.mp hy] at hlt
      exact hw hlt
  · rw [List.dropLast_eq_take, length_enter]
    congr 1
    omega
  · refine (List.take_of_length_le ?_).symm
    rw [length_enter]
    omega

theorem ranking_inOrder (xs : List α) : InOrder cmp (ranking cmp xs) := by
  have key : ∀ (xs ys : List α), InOrder cmp ys →
      InOrder cmp (xs.foldl (fun ys x => enter cmp x ys) ys) := by
    intro xs
    induction xs with
    | nil => exact fun ys h => h
    | cons x xs ih => exact fun ys h => ih _ h.enter
  exact key xs [] .nil

omit [Std.TransCmp cmp] in
theorem ranking_perm (xs : List α) : (ranking cmp xs).Perm xs := by
  have key : ∀ (xs ys : List α), (xs.foldl (fun ys x => enter cmp x ys) ys).Perm (ys ++ xs) := by
    intro xs
    induction xs with
    | nil => intro ys; simp
    | cons x xs ih =>
      intro ys
      refine (ih _).trans (((enter_perm cmp x ys).append_right xs).trans ?_)
      exact List.perm_middle.symm
  exact key xs []

/-- What is kept of a stream is the first places of its ranking. -/
theorem foldl_retain (limit : ℕ) (xs : List α) :
    xs.foldl (retain cmp limit) [] = (ranking cmp xs).take limit := by
  have key : ∀ (xs ys : List α), InOrder cmp ys → xs.foldl (retain cmp limit) (ys.take limit)
      = (xs.foldl (fun ys x => enter cmp x ys) ys).take limit := by
    intro xs
    induction xs with
    | nil => exact fun ys _ => rfl
    | cons x xs ih =>
      intro ys h
      rw [List.foldl_cons, retain_take cmp h]
      exact ih _ h.enter
  simpa [ranking] using key xs [] .nil

omit [Std.TransCmp cmp] in
variable {cmp} in
/-- What holds of all that is better than an item it holds of splits a ranking in two. -/
theorem InOrder.split {ys : List α} (h : InOrder cmp ys) {P : α → Prop}
    (hP : ∀ a b, (cmp a b).isLE → P b → P a) :
    ∃ above below, ys = above ++ below ∧ (∀ a ∈ above, P a) ∧ ∀ b ∈ below, ¬ P b := by
  induction ys with
  | nil => exact ⟨[], [], rfl, by simp, by simp⟩
  | cons y ys ih =>
    obtain ⟨hy, hys⟩ := List.pairwise_cons.mp h
    by_cases hp : P y
    · obtain ⟨above, below, rfl, ha, hb⟩ := ih hys
      refine ⟨y :: above, below, rfl, ?_, hb⟩
      rintro a (_ | ⟨_, ha'⟩)
      · exact hp
      · exact ha a ha'
    · refine ⟨[], y :: ys, rfl, by simp, ?_⟩
      rintro b (_ | ⟨_, hb⟩)
      · exact hp
      · exact fun hPb => hp (hP y b (hy b hb) hPb)

/-- Without ties the order of the stream does not show. -/
theorem ranking_eq_of_perm {xs ys : List α} (h : xs.Perm ys)
    (hinj : ∀ a ∈ xs, ∀ b ∈ xs, cmp a b = .eq → a = b) : ranking cmp xs = ranking cmp ys := by
  refine (((ranking_perm cmp xs).trans h).trans (ranking_perm cmp ys).symm).eq_of_pairwise ?_
    (ranking_inOrder cmp xs) (ranking_inOrder cmp ys)
  intro a b ha hb hab hba
  have ha := (ranking_perm cmp xs).mem_iff.mp ha
  have hb := h.mem_iff.mpr ((ranking_perm cmp ys).mem_iff.mp hb)
  exact hinj a ha b hb (Std.OrientedCmp.isLE_antisymm hab hba)

end TopK

end Schemes
