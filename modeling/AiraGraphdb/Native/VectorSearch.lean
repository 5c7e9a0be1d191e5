import AiraGraphdb.Schemes.Heap
import AiraGraphdb.Native.Reads

/-! # The parallel vector search

The keys are cut into one chunk for each worker; a worker keeps the best hits of its chunk in a heap
whose root is the worst of them, and the heaps are merged through another one. The answer is the one
of the exhaustive search, whatever the chunks, the order of the keys and the insides of the heaps. -/

namespace AiraGraphdb.Native.VectorSearch

open Schemes Schemes.Json MaxHeap

/-! ### The order of the hits -/

/-- The root of a heap is its greatest hit: a lower score comes later, then the larger key. -/
def compareScored (a b : ScoredVector) : Ordering :=
  (compare (totalOrder b.score.1) (totalOrder a.score.1)).then (compare a.key b.key)

theorem totalOrder_injective {x y : F64} (h : totalOrder x = totalOrder y) : x = y := by
  obtain ⟨x⟩ := x
  obtain ⟨y⟩ := y
  have hx := x.toNat_lt
  have hy := y.toNat_lt
  congr 1
  rw [← UInt64.toNat_inj]
  simp only [totalOrder] at h
  split_ifs at h <;> omega

instance : Std.TransCmp compareScored :=
  haveI := transCmp_flip (fun hit : ScoredVector => totalOrder hit.score.1) compare
  haveI := transCmp_on (fun hit : ScoredVector => hit.key) compare
  inferInstanceAs (Std.TransCmp (compareLex
    (fun a b : ScoredVector => compare (totalOrder b.score.1) (totalOrder a.score.1))
    fun a b => compare a.key b.key))

instance : Std.LawfulEqCmp compareScored where
  eq_of_compare := by
    intro a b h
    rw [compareScored, Ordering.then_eq_eq] at h
    have hscore := Subtype.ext (totalOrder_injective (Std.LawfulEqCmp.eq_of_compare h.1))
    have hkey := Std.LawfulEqCmp.eq_of_compare h.2
    obtain ⟨key, score⟩ := a
    obtain ⟨key', score'⟩ := b
    obtain rfl : key = key' := hkey
    obtain rfl : score' = score := hscore
    rfl

theorem before_eq (a b : ScoredVector) : a.before b = (compareScored a b).isLE := by
  have hscore : compare (totalOrder b.score.1) (totalOrder a.score.1) = .lt
      ↔ totalOrder b.score.1 < totalOrder a.score.1 := Std.compare_eq_lt
  have htie : compare (totalOrder b.score.1) (totalOrder a.score.1) = .eq
      ↔ totalOrder a.score.1 = totalOrder b.score.1 := Std.compare_eq_iff_eq.trans eq_comm
  have hkey : (compare a.key b.key).isLE ↔ a.key ≤ b.key := Std.LawfulBCmp.isLE_iff_le
  rw [Bool.eq_iff_iff, compareScored, Ordering.isLE_then_iff_or, hscore, htie, hkey,
    ScoredVector.before, Bool.or_eq_true, Bool.and_eq_true, decide_eq_true_iff, decide_eq_true_iff,
    decide_eq_true_iff]

/-- Sorting is ranking. -/
theorem mergeSort_before (hits : List ScoredVector) :
    hits.mergeSort ScoredVector.before = TopK.ranking compareScored hits := by
  have hbefore : ScoredVector.before = fun a b => (compareScored a b).isLE := by
    funext a b
    exact before_eq a b
  have hsorted : TopK.InOrder compareScored (hits.mergeSort ScoredVector.before) := by
    rw [hbefore]
    refine List.pairwise_mergeSort ?_ ?_ hits
    · intro a b c hab hbc
      exact Std.TransCmp.isLE_trans hab hbc
    · intro a b
      rw [cmp_swap compareScored b a]
      cases compareScored a b <;> rfl
  rw [← TopK.ranking_of_inOrder compareScored hsorted]
  exact TopK.ranking_eq_of_perm compareScored (List.mergeSort_perm _ _)
    fun a _ b _ => Std.LawfulEqCmp.eq_of_compare

/-! ### The heaps -/

section Search

variable {H : Type} [MaxHeap compareScored H]

def retainTopK (heap : H) (candidate : ScoredVector) (topK : ℕ) : H :=
  if topK = 0 then heap
  else if (toList compareScored heap).length < topK then push compareScored heap candidate
  else match peek compareScored heap with
    | none => heap
    | some worst =>
      let isBetter := match compare (totalOrder candidate.score.1) (totalOrder worst.score.1) with
        | .gt => true
        | .lt => false
        | .eq => decide (candidate.key < worst.key)
      if isBetter then push compareScored (pop compareScored heap) candidate else heap

/-- A candidate is better when it comes before the worst one. -/
theorem retainTopK_eq (heap : H) (candidate : ScoredVector) (topK : ℕ) :
    retainTopK heap candidate topK = TopK.offer compareScored topK heap candidate := by
  have hbetter : ∀ worst : ScoredVector,
      ((match compare (totalOrder candidate.score.1) (totalOrder worst.score.1) with
        | .gt => true
        | .lt => false
        | .eq => decide (candidate.key < worst.key)) = true)
        ↔ compareScored candidate worst = .lt := by
    intro worst
    rw [compareScored, Ordering.then_eq_lt, cmp_swap compare (totalOrder worst.score.1)]
    cases compare (totalOrder candidate.score.1) (totalOrder worst.score.1)
    · simp
    · have hkey : compare candidate.key worst.key = .lt ↔ candidate.key < worst.key :=
        compare_lt_iff_lt
      simp [hkey]
    · simp
  rw [retainTopK, TopK.offer]
  rcases peek compareScored heap with _ | worst
  · rfl
  · dsimp only
    rw [if_congr (hbetter worst) rfl rfl]

variable [Runtime]

/-- The hits of a chunk: a key without a record is passed over. -/
def scanVectorChunk (mem : Memory) (keys : List String) (query : List F64)
    (threshold : Option Finite64) (topK : ℕ) : H :=
  keys.foldl (fun heap k => match scoreVector mem query k with
    | none => heap
    | some hit => if threshold.all fun minimum => Runtime.ge hit.score.1 minimum.1
      then retainTopK heap hit topK else heap) (empty compareScored)

def maxVectorSearchWorkers : ℕ := 8

variable (H) in
/-- The search with as many workers as are there, eight at most. -/
def vectorSearchCandidates (available : ℕ+) (mem : Memory) (keys : List String) (query : List F64)
    (threshold : Option Finite64) (topK : ℕ) : List ScoredVector :=
  if keys.isEmpty ∨ topK = 0 then []
  else
    let workerCount := min keys.length (min available maxVectorSearchWorkers)
    let chunkSize := (keys.length + workerCount - 1) / workerCount
    let partials := (chunks chunkSize keys).map fun chunk =>
      (scanVectorChunk mem chunk query threshold topK : H)
    let heap := partials.foldl (fun heap part =>
      (toList compareScored part).foldl (fun heap candidate => retainTopK heap candidate topK) heap)
      (empty compareScored : H)
    (toList compareScored heap).mergeSort ScoredVector.before

/-- The keys whose score passes the threshold, with their scores. -/
def candidates (mem : Memory) (query : List F64) (threshold : Option Finite64)
    (keys : List String) : List ScoredVector :=
  (keys.filterMap (scoreVector mem query)).filter fun hit =>
    threshold.all fun minimum => Runtime.ge hit.score.1 minimum.1

theorem scanVectorChunk_eq (mem : Memory) (keys : List String) (query : List F64)
    (threshold : Option Finite64) (topK : ℕ) :
    (scanVectorChunk mem keys query threshold topK : H)
      = (candidates mem query threshold keys).foldl (TopK.offer compareScored topK)
        (empty compareScored) := by
  rw [scanVectorChunk, candidates]
  generalize (empty compareScored : H) = heap
  induction keys generalizing heap with
  | nil => rfl
  | cons k keys ih =>
    rw [List.foldl_cons, ih]
    rcases hk : scoreVector mem query k with _ | hit
    · rw [List.filterMap_cons_none hk]
    · rw [List.filterMap_cons_some hk, List.filter_cons]
      dsimp only
      split
      · rw [retainTopK_eq]
        rfl
      · rfl

theorem candidates_flatten (mem : Memory) (query : List F64) (threshold : Option Finite64)
    (parts : List (List String)) :
    (parts.map (candidates mem query threshold)).flatten
      = candidates mem query threshold parts.flatten := by
  induction parts with
  | nil => rfl
  | cons part parts ih =>
    rw [List.map_cons, List.flatten_cons, ih, List.flatten_cons, candidates, candidates, candidates,
      List.filterMap_append, List.filter_append]

/-- The hits of any chunks, merged. -/
theorem mergeSort_merged (mem : Memory) (query : List F64) (threshold : Option Finite64) (topK : ℕ)
    (parts : List (List String)) :
    (toList compareScored ((parts.map fun chunk =>
        (scanVectorChunk mem chunk query threshold topK : H)).foldl (fun heap part =>
          (toList compareScored part).foldl (fun heap candidate => retainTopK heap candidate topK)
            heap) (empty compareScored : H))).mergeSort ScoredVector.before
      = (TopK.ranking compareScored (candidates mem query threshold parts.flatten)).take topK := by
  have hoffer : (fun (heap : H) candidate => retainTopK heap candidate topK)
      = TopK.offer compareScored topK := by
    funext heap candidate
    exact retainTopK_eq heap candidate topK
  have hmerged := TopK.merged_perm (H := H) compareScored topK
    (parts.map (candidates mem query threshold))
  rw [List.map_map, candidates_flatten] at hmerged
  have hsorted : TopK.InOrder compareScored ((TopK.ranking compareScored
      (candidates mem query threshold parts.flatten)).take topK) :=
    (TopK.ranking_inOrder compareScored _).sublist (List.take_sublist _ _)
  simp only [hoffer, scanVectorChunk_eq]
  rw [mergeSort_before, ← TopK.ranking_of_inOrder compareScored hsorted]
  exact TopK.ranking_eq_of_perm compareScored hmerged fun a _ b _ => Std.LawfulEqCmp.eq_of_compare

theorem vectorSearchCandidates_eq (available : ℕ+) (mem : Memory) (keys : List String)
    (query : List F64) (threshold : Option Finite64) (topK : ℕ) :
    vectorSearchCandidates H available mem keys query threshold topK
      = ((candidates mem query threshold keys).mergeSort ScoredVector.before).take topK := by
  rw [vectorSearchCandidates]
  by_cases hnone : keys.isEmpty ∨ topK = 0
  · rw [if_pos hnone]
    rcases hnone with hnil | rfl
    · rw [List.isEmpty_iff.mp hnil, candidates]
      simp
    · rw [List.take_zero]
  · rw [if_neg hnone]
    have hkeys : 0 < keys.length := by
      rw [List.length_pos_iff]
      rintro rfl
      exact hnone (.inl rfl)
    have hworkers : 0 < min keys.length (min (available : ℕ) maxVectorSearchWorkers) :=
      lt_min hkeys (lt_min available.pos (by decide))
    dsimp only
    rw [mergeSort_merged, flatten_chunks (Nat.div_pos (by omega) hworkers), mergeSort_before]

/-- The parallel search answers as the exhaustive one, for any workers and any heaps, and so the
same for any two orders of the keys. -/
theorem vectorSearchCandidates_exhaustive (available : ℕ+) (mem : Memory) (keys : List String)
    (query : List F64) (threshold : Option Finite64) (topK : ℕ) :
    vectorSearchCandidates H available mem keys query threshold topK
        = ((candidates mem query threshold keys).mergeSort ScoredVector.before).take topK
      ∧ vectorSearchCandidates H available mem keys query threshold topK
        = Native.vectorSearchCandidates mem keys query threshold topK
      ∧ ∀ keys' available', keys.Perm keys' →
        vectorSearchCandidates H available' mem keys' query threshold topK
          = vectorSearchCandidates H available mem keys query threshold topK := by
  refine ⟨vectorSearchCandidates_eq available mem keys query threshold topK,
    vectorSearchCandidates_eq available mem keys query threshold topK, ?_⟩
  intro keys' available' hperm
  have hcandidates : (candidates mem query threshold keys').Perm
      (candidates mem query threshold keys) :=
    ((hperm.filterMap _).filter _).symm
  rw [vectorSearchCandidates_eq, vectorSearchCandidates_eq, mergeSort_before, mergeSort_before,
    TopK.take_ranking_perm compareScored topK hcandidates]

end Search

end AiraGraphdb.Native.VectorSearch
