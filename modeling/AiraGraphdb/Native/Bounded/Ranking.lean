import AiraGraphdb.Native.Bounded.Arithmetic
import AiraGraphdb.Native.Bounded.Meter
import AiraGraphdb.Schemes.TopK
import AiraGraphdb.Schemes.Utf16

/-! # The bounded ranking

The producer keeps the best entries by the total order of the scores, then by the code units of the
ids. The order assertion of the contract compares the scores as numbers, for which the two zeros are
equal. -/

namespace AiraGraphdb.Native.Bounded

open Schemes

/-! ### The producer -/

section Producer

variable {R T : Type} [Arithmetic R]

def rankedCmp (leftScore : R) (leftId : String) (rightScore : R) (rightId : String) : Ordering :=
  (Arithmetic.totalCmp rightScore leftScore).then (Utf16.cmp leftId rightId)

structure RankedItem (R T : Type) where
  id : String
  score : R
  payload : T

def RankedItem.cmp (left right : RankedItem R T) : Ordering :=
  rankedCmp left.score left.id right.score right.id

/-- The heap is the list of its items in their order, the one to evict at its end. -/
def boundedRankHeap : Run (List (RankedItem R T)) := do
  beforeAllocation
  beforeAllocation
  return []

def retainBoundedRanked (retained : List (RankedItem R T)) (id : String) (score : R) (payload : T)
    (limit : ℕ) : List (RankedItem R T) :=
  TopK.retain RankedItem.cmp limit retained ⟨id, score, payload⟩

def finishBoundedRanking (retained : List (RankedItem R T)) : List (RankedItem R T) :=
  retained.mergeSort fun left right => (RankedItem.cmp left right).isLE

variable [Std.TransCmp (Arithmetic.totalCmp (R := R))]

instance : Std.TransCmp (RankedItem.cmp (R := R) (T := T)) :=
  have := transCmp_flip (RankedItem.score (R := R) (T := T)) Arithmetic.totalCmp
  have := transCmp_on (RankedItem.id (R := R) (T := T)) Utf16.cmp
  inferInstanceAs (Std.TransCmp (compareLex _ _))

/-- All entries offered, one after the other, and the ranking finished. -/
def rankAll (limit : ℕ) (items : List (RankedItem R T)) : List (RankedItem R T) :=
  finishBoundedRanking (items.foldl (fun retained item =>
    retainBoundedRanked retained item.id item.score item.payload limit) [])

/-- What is kept of a stream of entries are the first places of its full ranking. -/
theorem foldl_retainBoundedRanked (limit : ℕ) (items : List (RankedItem R T)) :
    items.foldl (fun retained item =>
      retainBoundedRanked retained item.id item.score item.payload limit) []
      = (TopK.ranking RankedItem.cmp items).take limit :=
  TopK.foldl_retain RankedItem.cmp limit items

omit [Std.TransCmp (Arithmetic.totalCmp (R := R))] in
theorem finishBoundedRanking_eq {retained : List (RankedItem R T)}
    (h : TopK.InOrder RankedItem.cmp retained) : finishBoundedRanking retained = retained :=
  List.mergeSort_of_pairwise h

theorem rankAll_eq (limit : ℕ) (items : List (RankedItem R T)) :
    rankAll limit items = (TopK.ranking RankedItem.cmp items).take limit := by
  rw [rankAll, foldl_retainBoundedRanked]
  exact finishBoundedRanking_eq ((TopK.ranking_inOrder _ items).sublist (List.take_sublist _ _))

end Producer

/-! ### The assertion -/

/-- What `ordered_score_desc_id_asc` finds wrong between two neighbours. -/
def OutOfOrder (previousScore : F64) (previousId : String) (score : F64) (id : String) : Prop :=
  F64.lt previousScore score ∨ F64.eq score previousScore ∧ Utf16.cmp id previousId = .lt

instance (previousScore : F64) (previousId : String) (score : F64) (id : String) :
    Decidable (OutOfOrder previousScore previousId score id) :=
  inferInstanceAs (Decidable (_ ∨ _))

/-- The loop of `ordered_score_desc_id_asc` over scores and ids. -/
def orderedScoreDescIdAsc (previous : Option (F64 × String)) : List (F64 × String) → Bool
  | [] => true
  | (score, id) :: rest =>
    if previous.any fun p => decide (OutOfOrder p.1 p.2 score id) then false
    else orderedScoreDescIdAsc (some (score, id)) rest

theorem orderedScoreDescIdAsc_some {previous : F64 × String} {xs : List (F64 × String)} :
    orderedScoreDescIdAsc (some previous) xs
      ↔ (previous :: xs).IsChain fun p x => ¬ OutOfOrder p.1 p.2 x.1 x.2 := by
  induction xs generalizing previous with
  | nil => simp [orderedScoreDescIdAsc]
  | cons x xs ih =>
    obtain ⟨score, id⟩ := x
    rw [orderedScoreDescIdAsc, List.isChain_cons_cons, ← ih, Option.any_some]
    by_cases h : OutOfOrder previous.1 previous.2 score id
    · simp [h]
    · simp [h]

theorem orderedScoreDescIdAsc_none {xs : List (F64 × String)} :
    orderedScoreDescIdAsc none xs ↔ xs.IsChain fun p x => ¬ OutOfOrder p.1 p.2 x.1 x.2 := by
  cases xs with
  | nil => simp [orderedScoreDescIdAsc]
  | cons x xs =>
    rw [orderedScoreDescIdAsc, Option.any_none]
    exact orderedScoreDescIdAsc_some

/-! ### Where the two orders part -/

/-- Some entry of score -0.0 has a place in the ranking, and the id of some entry of that score comes
    before the id of an entry of score +0.0. -/
def ZeroClash (limit : ℕ) (items : List (F64 × String)) : Prop :=
  (items.filter fun x => F64.totalCmp F64.negZero x.1 == .lt).length < limit
    ∧ ∃ a ∈ items, ∃ b ∈ items,
      a.1 = F64.zero ∧ b.1 = F64.negZero ∧ Utf16.cmp b.2 a.2 = .lt

section Clash

variable (log2 : F64 → F64) {T : Type}

/-- The order of the producer on doubles. -/
abbrev doubleCmp (T : Type) : RankedItem F64 T → RankedItem F64 T → Ordering :=
  fun left right => (F64.totalCmp right.score left.score).then (Utf16.cmp left.id right.id)

theorem totalPlace_negZero : F64.negZero.totalPlace = -1 := by decide

theorem totalPlace_zero : F64.zero.totalPlace = 0 := by decide

theorem isNan_of_finite {x : F64} (h : x.isFinite = true) : x.isNan = false := by
  simp only [F64.isFinite, bne_iff_ne, ne_eq, Nat.reducePow] at h
  rw [F64.isNan, decide_eq_false_iff_not]
  simp only [F64.magnitude, F64.infinite, Nat.reducePow]
  omega

/-- The total order refines the order of numbers, and parts only the zeros. -/
theorem place_of_totalPlace_lt {x p : F64} (h : x.totalPlace < p.totalPlace) :
    x.place < p.place ∨ x.place = p.place ∧ x = F64.negZero ∧ p = F64.zero := by
  have key (hx : x.totalPlace = -1) (hp : p.totalPlace = 0) : x = F64.negZero ∧ p = F64.zero :=
    ⟨totalPlace_injective (hx.trans totalPlace_negZero.symm),
      totalPlace_injective (hp.trans totalPlace_zero.symm)⟩
  by_cases hx : x.negative <;> by_cases hp : p.negative <;>
    simp only [F64.totalPlace, F64.place, hx, hp, if_true, if_false, Bool.false_eq_true]
      at h key ⊢
  · omega
  · by_cases h0 : x.magnitude = 0 ∧ p.magnitude = 0
    · exact .inr ⟨by omega, key (by omega) (by omega)⟩
    · omega
  · omega
  · omega

/-- Two numbers that stand in the producer's order but not in the assertion's are the zeros. -/
theorem outOfOrder_iff {p x : F64} {pid xid : String} (hp : p.isFinite = true)
    (hx : x.isFinite = true) (h : ((F64.totalCmp x p).then (Utf16.cmp pid xid)).isLE) :
    OutOfOrder p pid x xid
      ↔ p = F64.zero ∧ x = F64.negZero ∧ Utf16.cmp xid pid = .lt := by
  simp only [OutOfOrder, F64.lt, F64.eq, isNan_of_finite hp, isNan_of_finite hx, Bool.not_false,
    Bool.true_and, decide_eq_true_eq]
  rw [Ordering.isLE_then_iff_or, F64.totalCmp, compare_lt_iff_lt, compare_eq_iff_eq] at h
  rcases h with h | ⟨h, hid⟩
  · rcases place_of_totalPlace_lt h with hlt | ⟨he, rfl, rfl⟩
    · constructor
      · omega
      · rintro ⟨rfl, rfl, -⟩
        exact absurd hlt (by decide)
    · simp [he]
  · obtain rfl := totalPlace_injective h
    constructor
    · rintro (hlt | ⟨-, hlt⟩)
      · omega
      · rw [cmp_swap Utf16.cmp, hlt] at hid
        exact absurd hid (by decide)
    · rintro ⟨rfl, h0, -⟩
      exact absurd h0 (by decide)

variable {cmp : RankedItem F64 T → RankedItem F64 T → Ordering}
  (hcmp : ∀ a b, cmp a b = (F64.totalCmp b.score a.score).then (Utf16.cmp a.id b.id))
  [Std.TransCmp cmp] {limit : ℕ} {items : List (RankedItem F64 T)}

def IsAbove (x : RankedItem F64 T) : Prop := F64.totalCmp F64.negZero x.score = .lt

include hcmp

/-- The entries above -0.0 come first, and there are as many of them as were offered. -/
theorem ranking_split (items : List (RankedItem F64 T)) : ∃ above below, TopK.ranking cmp items = above ++ below
    ∧ (∀ a ∈ above, IsAbove a) ∧ (∀ b ∈ below, ¬ IsAbove b)
    ∧ above.length = ((items.map fun x => (x.score, x.id)).filter fun x =>
        F64.totalCmp F64.negZero x.1 == .lt).length := by
  obtain ⟨above, below, hsplit, ha, hb⟩ := (TopK.ranking_inOrder cmp items).split
    (P := IsAbove) fun a b hab hb => by
      rw [hcmp, Ordering.isLE_then_iff_and] at hab
      exact Std.TransCmp.lt_of_lt_of_isLE hb hab.1
  refine ⟨above, below, hsplit, ha, hb, ?_⟩
  have hperm := ((TopK.ranking_perm cmp items).filter
    fun x => F64.totalCmp F64.negZero x.score == .lt).length_eq
  have ha' : above.filter (fun x => F64.totalCmp F64.negZero x.score == .lt) = above :=
    List.filter_eq_self.mpr fun x hx => beq_iff_eq.mpr (ha x hx)
  have hb' : below.filter (fun x => F64.totalCmp F64.negZero x.score == .lt) = [] :=
    List.filter_eq_nil_iff.mpr fun x hx h => hb x hx (beq_iff_eq.mp h)
  rw [hsplit, List.filter_append, ha', hb', List.append_nil] at hperm
  rw [List.filter_map, List.length_map, hperm]
  rfl

/-- Out of order among the first places means a clash. -/
theorem clash_of_outOfOrder (hfin : ∀ x ∈ items, x.score.isFinite = true)
    {p x : RankedItem F64 T} (hp : p ∈ (TopK.ranking cmp items).take limit)
    (hx : x ∈ (TopK.ranking cmp items).take limit) (hle : (cmp p x).isLE)
    (h : OutOfOrder p.score p.id x.score x.id) :
    ZeroClash limit (items.map fun x => (x.score, x.id)) := by
  have hmem {y} (hy : y ∈ (TopK.ranking cmp items).take limit) : y ∈ items :=
    (TopK.ranking_perm cmp items).mem_iff.mp (List.mem_of_mem_take hy)
  obtain ⟨hp0, hx0, hid⟩ := (outOfOrder_iff (hfin p (hmem hp)) (hfin x (hmem hx))
    (hcmp p x ▸ hle)).mp h
  refine ⟨?_, (p.score, p.id), List.mem_map_of_mem (hmem hp), (x.score, x.id),
    List.mem_map_of_mem (hmem hx), hp0, hx0, hid⟩
  obtain ⟨above, below, hsplit, habove, -, hlen⟩ := ranking_split hcmp items
  rw [← hlen]
  by_contra hge
  rw [hsplit, List.take_append_of_le_length (by omega)] at hx
  have hxa := habove x (List.mem_of_mem_take hx)
  rw [IsAbove, hx0] at hxa
  exact absurd hxa (by decide)

/-- A clash puts the last +0.0 and the first -0.0 of the ranking out of order. -/
theorem exists_outOfOrder (h : ZeroClash limit (items.map fun x => (x.score, x.id))) :
    ∃ ini p x rest, (TopK.ranking cmp items).take limit = ini ++ p :: x :: rest
      ∧ OutOfOrder p.score p.id x.score x.id := by
  obtain ⟨hlim, a', ha', b', hb', ha0, hb0, hid⟩ := h
  obtain ⟨a, ha, rfl⟩ := List.mem_map.mp ha'
  obtain ⟨b, hb, rfl⟩ := List.mem_map.mp hb'
  dsimp only at ha0 hb0 hid
  obtain ⟨above, below, hsplit, habove, hbelow, hlen⟩ := ranking_split hcmp items
  have hord := TopK.ranking_inOrder cmp items
  rw [← (TopK.ranking_perm cmp items).mem_iff, hsplit, List.mem_append] at ha hb
  rw [hsplit] at hord
  obtain ⟨hoa, hob, -⟩ := List.pairwise_append.mp hord
  replace ha : a ∈ above := ha.resolve_right fun h => hbelow a h (by
    rw [IsAbove, ha0]
    decide)
  replace hb : b ∈ below := hb.resolve_left fun h => absurd (habove b h) (by
    rw [IsAbove, hb0]
    decide)
  -- the last entry above -0.0 is at most `a`, the first of the others at least `b`
  obtain ⟨ini, p, rfl⟩ : ∃ ini p, above = ini ++ [p] := by
    rcases List.eq_nil_or_concat above with rfl | ⟨ini, p, he⟩
    · simp at ha
    · exact ⟨ini, p, by simpa using he⟩
  obtain ⟨x, rest, rfl⟩ := List.exists_cons_of_ne_nil (List.ne_nil_of_mem hb)
  have hap : (cmp a p).isLE := by
    rcases List.mem_append.mp ha with ha | ha
    · exact (List.pairwise_append.mp hoa).2.2 a ha p (by simp)
    · rw [List.mem_singleton.mp ha]
      exact Std.ReflCmp.isLE_rfl
  have hxb : (cmp x b).isLE := by
    rcases List.mem_cons.mp hb with rfl | hb
    · exact Std.ReflCmp.isLE_rfl
    · exact (List.pairwise_cons.mp hob).1 b hb
  have hp1 := habove p (by simp)
  have hx1 := hbelow x (by simp)
  rw [IsAbove, F64.totalCmp, compare_lt_iff_lt, totalPlace_negZero] at hp1 hx1
  rw [hcmp, ha0, Ordering.isLE_then_iff_or, F64.totalCmp, compare_lt_iff_lt, compare_eq_iff_eq,
    totalPlace_zero] at hap
  rw [hcmp, hb0, Ordering.isLE_then_iff_or, F64.totalCmp, compare_lt_iff_lt, compare_eq_iff_eq,
    totalPlace_negZero] at hxb
  have hp0 : p.score = F64.zero := totalPlace_injective (by rw [totalPlace_zero]; omega)
  have hx0 : x.score = F64.negZero := totalPlace_injective (by rw [totalPlace_negZero]; omega)
  have hpid := (hap.resolve_left (by omega)).2
  have hxid := (hxb.resolve_left (by omega)).2
  have hlt : Utf16.cmp x.id p.id = .lt :=
    Std.TransCmp.lt_of_isLE_of_lt hxid (Std.TransCmp.lt_of_lt_of_isLE hid hpid)
  refine ⟨ini, p, x, rest.take (limit - (ini.length + 2)), ?_, .inr ⟨?_, hlt⟩⟩
  · rw [← hlen, List.length_append, List.length_singleton] at hlim
    rw [hsplit, List.append_assoc, List.take_append, List.take_of_length_le (by omega)]
    obtain ⟨k, hk⟩ : ∃ k, limit - ini.length = k + 2 := ⟨limit - ini.length - 2, by omega⟩
    rw [hk, show limit - (ini.length + 2) = k by omega]
    rfl
  · rw [hp0, hx0]
    decide

/-- The first places of the ranking pass the assertion unless the zeros clash. -/
theorem ordered_iff (hfin : ∀ x ∈ items, x.score.isFinite = true) :
    orderedScoreDescIdAsc none (((TopK.ranking cmp items).take limit).map fun x => (x.score, x.id))
      ↔ ¬ ZeroClash limit (items.map fun x => (x.score, x.id)) := by
  rw [orderedScoreDescIdAsc_none, List.isChain_map]
  constructor
  · intro h hclash
    obtain ⟨ini, p, x, rest, he, hout⟩ := exists_outOfOrder hcmp hclash
    rw [he, List.isChain_append_cons_cons] at h
    exact h.2.1 hout
  · intro h
    have hord := (TopK.ranking_inOrder cmp items).sublist (List.take_sublist limit _)
    exact (hord.imp_of_mem fun hp hx hle hout =>
      h (clash_of_outOfOrder hcmp hfin hp hx hle hout)).isChain

end Clash

end AiraGraphdb.Native.Bounded
