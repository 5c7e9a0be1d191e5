import AiraGraphdb.Native.Bounded.Endpoints
import AiraGraphdb.Native.Bounded.Ppr
import AiraGraphdb.Schemes.Buckets

/-! # The graph of a corpus

Sorted by their sources, the edges of a corpus lie in one stretch for each node, in the order of the
nodes. Sorting leaves the same edges and the same nodes whatever the order they came in. -/

namespace AiraGraphdb.Native.Bounded

open Schemes

/-! ### Comparisons that sort -/

section Comparison

variable {α : Type} {cmp : α → α → Ordering} [Std.TransCmp cmp]

omit [Std.TransCmp cmp] in
theorem noGreater_iff {a b : α} : noGreater cmp a b = true ↔ (cmp a b).isLE := by
  simp [noGreater, Ordering.isLE_iff_ne_gt]

theorem noGreater_trans (a b c : α) (h : noGreater cmp a b) (h' : noGreater cmp b c) :
    noGreater cmp a c := by
  rw [noGreater_iff] at *
  exact Std.TransCmp.isLE_trans h h'

theorem noGreater_total (a b : α) : noGreater cmp a b || noGreater cmp b a := by
  rw [Bool.or_eq_true, noGreater_iff, noGreater_iff]
  by_cases h : cmp a b = .gt
  · right
    rw [Std.OrientedCmp.gt_iff_lt] at h
    simp [h]
  · exact .inl (Ordering.isLE_iff_ne_gt.mpr h)

theorem noGreater_antisymm [Std.LawfulEqCmp cmp] (a b : α) (h : noGreater cmp a b)
    (h' : noGreater cmp b a) : a = b := by
  rw [noGreater_iff] at *
  exact Std.LawfulEqCmp.eq_of_compare (Std.OrientedCmp.isLE_antisymm h h')

variable (cmp) in
theorem sorted_of_cmp (xs : List α) :
    (MergeSort.sort (noGreater cmp) xs).Pairwise fun a b => cmp a b ≠ .gt :=
  (MergeSort.sort_sorted noGreater_trans noGreater_total xs).imp
    fun h => Ordering.isLE_iff_ne_gt.mp (noGreater_iff.mp h)

theorem canonicalCountedSort_congr [Std.LawfulEqCmp cmp] {xs ys : List α} (h : xs.Perm ys) :
    canonicalCountedSort cmp xs = canonicalCountedSort cmp ys :=
  canonicalCountedSort_perm cmp noGreater_trans noGreater_total noGreater_antisymm h

end Comparison

instance : Std.TransCmp compareArcs :=
  have := transCmp_on Arc.source Utf16.cmp
  have := transCmp_on Arc.target Utf16.cmp
  have := transCmp_on (fun arc : Arc => arc.weight.1) F64.totalCmp
  inferInstanceAs (Std.TransCmp (compareLex _ (compareLex _ _)))

instance : Std.LawfulEqCmp compareArcs where
  compare_self := Std.ReflCmp.compare_self
  eq_of_compare := by
    intro a b h
    simp only [compareArcs, Ordering.then_eq_eq] at h
    obtain ⟨hs, ht, hw⟩ := h
    cases a
    cases b
    congr
    · exact Std.LawfulEqCmp.eq_of_compare hs
    · exact Std.LawfulEqCmp.eq_of_compare ht
    · exact Subtype.ext (Std.LawfulEqCmp.eq_of_compare hw)

/-! ### Edges and nodes -/

/-- The edges of a corpus, as they are read. -/
def corpusArcs (corpusId : String) (edges : List (String × GraphEdge)) : List Arc :=
  (edgesOf corpusId edges).map fun e => arcOf e.2

def sortedArcs (corpusId : String) (edges : List (String × GraphEdge)) : List Arc :=
  MergeSort.sort (noGreater compareArcs) (corpusArcs corpusId edges)

def addNew (nodeIds : List String) (nodeId : String) : List String :=
  if nodeId ∈ nodeIds then nodeIds else nodeIds ++ [nodeId]

/-- The endpoints of edges, in the order in which they are first seen. -/
def discovered (arcs : List Arc) : List String :=
  arcs.foldl (fun nodeIds arc => addNew (addNew nodeIds arc.source) arc.target) []

def sortedNodes (arcs : List Arc) : List String :=
  MergeSort.sort (noGreater Utf16.cmp) (discovered arcs)

theorem collectEdges_eq (corpusId : String) (edges : List (String × GraphEdge)) :
    collectEdges corpusId edges = (do
      scanUnits edges.length
      return corpusArcs corpusId edges) := by
  have hfold : ∀ kept : List Arc, edges.foldl (fun kept entry =>
      if entry.2.corpusId = corpusId then kept ++ [arcOf entry.2] else kept) kept
      = kept ++ corpusArcs corpusId edges := by
    induction edges with
    | nil => simp [corpusArcs, edgesOf]
    | cons e edges ih =>
      intro kept
      rw [List.foldl_cons, ih]
      by_cases h : e.2.corpusId = corpusId <;> simp [corpusArcs, edgesOf, h]
  rw [collectEdges, foldlM_charged, hfold, List.nil_append]

theorem corpusArcs_perm {corpusId : String} {edges edges' : List (String × GraphEdge)}
    (h : edges.Perm edges') : (corpusArcs corpusId edges).Perm (corpusArcs corpusId edges') :=
  (h.filter _).map _

theorem sortedArcs_perm (corpusId : String) (edges : List (String × GraphEdge)) :
    (sortedArcs corpusId edges).Perm (corpusArcs corpusId edges) := MergeSort.sort_perm _

theorem length_sortedArcs (corpusId : String) (edges : List (String × GraphEdge)) :
    (sortedArcs corpusId edges).length = (edgesOf corpusId edges).length := by
  rw [(sortedArcs_perm corpusId edges).length_eq, corpusArcs, List.length_map]

/-- The edges are sorted by their sources. -/
theorem sortedArcs_sorted (corpusId : String) (edges : List (String × GraphEdge)) :
    Buckets.SortedBy Arc.source Utf16.cmp (sortedArcs corpusId edges) := by
  refine (sorted_of_cmp compareArcs (corpusArcs corpusId edges)).imp ?_
  intro a b h hs
  exact h (by simp [compareArcs, hs])

theorem mem_addNew {nodeIds : List String} {x id : String} :
    x ∈ addNew nodeIds id ↔ x ∈ nodeIds ∨ x = id := by
  rw [addNew]
  split
  · rename_i h
    constructor
    · exact .inl
    · rintro (h' | rfl)
      · exact h'
      · exact h
  · simp

theorem length_le_addNew (nodeIds : List String) (id : String) :
    nodeIds.length ≤ (addNew nodeIds id).length := by
  rw [addNew]
  split <;> simp

theorem addNew_nodup {nodeIds : List String} (h : nodeIds.Nodup) (id : String) :
    (addNew nodeIds id).Nodup := by
  rw [addNew]
  split
  · exact h
  · rename_i hid
    refine List.nodup_append.mpr ⟨h, List.nodup_singleton id, ?_⟩
    rintro a ha b hb rfl
    exact hid (List.mem_singleton.mp hb ▸ ha)

theorem discovered_concat (arcs : List Arc) (arc : Arc) :
    discovered (arcs ++ [arc]) = addNew (addNew (discovered arcs) arc.source) arc.target := by
  rw [discovered, List.foldl_append]
  rfl

theorem discovered_nodup (arcs : List Arc) : (discovered arcs).Nodup := by
  induction arcs using List.reverseRecOn with
  | nil => exact List.nodup_nil
  | append_singleton arcs arc ih =>
    rw [discovered_concat]
    exact addNew_nodup (addNew_nodup ih _) _

theorem mem_discovered {arcs : List Arc} {x : String} :
    x ∈ discovered arcs ↔ ∃ arc ∈ arcs, x = arc.source ∨ x = arc.target := by
  induction arcs using List.reverseRecOn with
  | nil => simp [discovered]
  | append_singleton arcs arc ih =>
    rw [discovered_concat, mem_addNew, mem_addNew, ih]
    simp only [List.mem_append, List.mem_singleton, or_and_right, exists_or, exists_eq_left,
      or_assoc]

theorem sortedNodes_perm (arcs : List Arc) : (sortedNodes arcs).Perm (discovered arcs) :=
  MergeSort.sort_perm _

theorem mem_sortedNodes {arcs : List Arc} {x : String} :
    x ∈ sortedNodes arcs ↔ ∃ arc ∈ arcs, x = arc.source ∨ x = arc.target := by
  rw [(sortedNodes_perm arcs).mem_iff, mem_discovered]

theorem sortedNodes_nodup (arcs : List Arc) : (sortedNodes arcs).Nodup :=
  (sortedNodes_perm arcs).nodup_iff.mpr (discovered_nodup arcs)

theorem sortedNodes_increasing (arcs : List Arc) :
    Buckets.Increasing Utf16.cmp (sortedNodes arcs) := by
  refine ((sorted_of_cmp Utf16.cmp (discovered arcs)).and (sortedNodes_nodup arcs)).imp ?_
  rintro a b ⟨hgt, hne⟩
  rcases h : Utf16.cmp a b with _ | _ | _
  · rfl
  · exact absurd (Std.LawfulEqCmp.eq_of_compare h) hne
  · exact absurd h hgt

theorem source_mem_sortedNodes {arcs : List Arc} {arc : Arc} (h : arc ∈ arcs) :
    arc.source ∈ sortedNodes arcs := mem_sortedNodes.mpr ⟨arc, h, .inl rfl⟩

theorem target_mem_sortedNodes {arcs : List Arc} {arc : Arc} (h : arc ∈ arcs) :
    arc.target ∈ sortedNodes arcs := mem_sortedNodes.mpr ⟨arc, h, .inr rfl⟩

/-- The nodes of a corpus are the endpoints that the catalog counts. -/
theorem toFinset_sortedNodes (corpusId : String) (edges : List (String × GraphEdge)) :
    (sortedNodes (sortedArcs corpusId edges)).toFinset
      = endpointSet corpusId (edges.flatMap endpointPairs) := by
  ext x
  simp only [List.mem_toFinset, mem_sortedNodes, mem_endpointSet, List.mem_flatMap, endpointPairs,
    (sortedArcs_perm corpusId edges).mem_iff, corpusArcs, edgesOf, List.mem_map, List.mem_filter,
    decide_eq_true_eq, List.mem_cons, List.not_mem_nil, or_false, Prod.mk.injEq]
  constructor
  · rintro ⟨_, ⟨e, ⟨he, rfl⟩, rfl⟩, hx⟩
    exact ⟨e, he, hx.imp (fun h => ⟨rfl, h⟩) fun h => ⟨rfl, h⟩⟩
  · rintro ⟨e, he, ⟨rfl, hx⟩ | ⟨rfl, hx⟩⟩
    · exact ⟨_, ⟨e, ⟨he, rfl⟩, rfl⟩, .inl hx⟩
    · exact ⟨_, ⟨e, ⟨he, rfl⟩, rfl⟩, .inr hx⟩

theorem length_sortedNodes (corpusId : String) (edges : List (String × GraphEdge)) :
    (sortedNodes (sortedArcs corpusId edges)).length
      = (endpointSet corpusId (edges.flatMap endpointPairs)).card := by
  rw [← toFinset_sortedNodes, List.toFinset_card_of_nodup (sortedNodes_nodup _)]

end AiraGraphdb.Native.Bounded
