import AiraGraphdb.Native.Bounded.Catalog

/-! # What the catalog counts

When the walk of the edges succeeds, every edge has both endpoints, and every corpus has its number
of edges and, as long as no two endpoints share a digest, its number of distinct endpoints. -/

namespace AiraGraphdb.Native.Bounded

open Schemes Schemes.Json

/-! ### Small steps -/

theorem orBlankError_ok {α : Type} {x : Option α} {cls : FailureClass} {a : α} :
    orBlankError x cls = .ok a ↔ x = some a := by
  rcases x with _ | b <;> simp [orBlankError, blank]

theorem blank_ne_ok {α : Type} {cls : FailureClass} {a : α} : blank cls ≠ .ok a := by
  simp [blank]

theorem boundedStoredDomainId_ok {s t : String} {w : WorkCounts} :
    boundedStoredDomainId s w = .ok t ↔ isStoredDomainId s = true ∧ s = t := by
  rw [boundedStoredDomainId]
  split
  · rename_i h
    simp [h]
  · rename_i h
    simp [h]

theorem countMore_ok {counts counts' : Map ℕ} {c : String} {n : ℕ} :
    countMore counts c = .ok (counts', n) →
      n = counts[c]?.getD 0 + 1 ∧ counts' = counts.insert c n := by
  intro h
  obtain ⟨k, hk, h⟩ := bind_ok.mp h
  obtain ⟨rfl, rfl⟩ := Prod.mk.inj (Except.ok.inj h)
  rw [orBlankError_ok, checkedAdd] at hk
  split at hk
  · exact ⟨(Option.some.inj hk).symm, rfl⟩
  · cases hk

/-! ### Endpoints -/

/-- The endpoints of an edge, with its corpus. -/
def endpointPairs (entry : String × GraphEdge) : List (String × String) :=
  [(entry.2.corpusId, entry.2.sourceNodeId), (entry.2.corpusId, entry.2.targetNodeId)]

def endpointSet (corpusId : String) (pairs : List (String × String)) : Finset String :=
  ((pairs.filter fun p => p.1 = corpusId).map Prod.snd).toFinset

def edgesOf (corpusId : String) (edges : List (String × GraphEdge)) : List (String × GraphEdge) :=
  edges.filter fun e => e.2.corpusId = corpusId

/-- An edge whose endpoints are nodes of its corpus. -/
structure Anchored (state : State) (entry : String × GraphEdge) : Prop where
  ids : ∀ p ∈ endpointPairs entry, isStoredDomainId p.2 = true
  nodes : ∀ p ∈ endpointPairs entry, ∃ node, state.nodes[nodeKey p.1 p.2]? = some node
    ∧ node.corpusId = p.1 ∧ node.nodeId = p.2

theorem mem_endpointSet {c x : String} {pairs : List (String × String)} :
    x ∈ endpointSet c pairs ↔ (c, x) ∈ pairs := by
  simp only [endpointSet, List.mem_toFinset, List.mem_map, List.mem_filter, decide_eq_true_eq]
  constructor
  · rintro ⟨⟨c', x'⟩, ⟨hm, rfl⟩, rfl⟩
    exact hm
  · intro h
    exact ⟨(c, x), ⟨h, rfl⟩, rfl⟩

theorem endpointSet_concat (c : String) (pairs : List (String × String)) (p : String × String) :
    endpointSet c (pairs ++ [p])
      = if p.1 = c then insert p.2 (endpointSet c pairs) else endpointSet c pairs := by
  ext x
  rw [mem_endpointSet, List.mem_append, List.mem_singleton]
  split_ifs with h
  · rw [Finset.mem_insert, mem_endpointSet]
    constructor
    · rintro (h' | rfl)
      · exact .inr h'
      · exact .inl rfl
    · rintro (rfl | h')
      · exact .inr (by rw [← h])
      · exact .inl h'
  · rw [mem_endpointSet]
    constructor
    · rintro (h' | rfl)
      · exact h'
      · exact absurd rfl h
    · exact .inl

variable [Externals] {state : State}

/-- No two endpoints have the same digest. -/
def CollisionFree (edges : List (String × GraphEdge)) : Prop :=
  ∀ p ∈ edges.flatMap endpointPairs, ∀ q ∈ edges.flatMap endpointPairs,
    boundedIndexKey p.1 "nodes" p.2 = boundedIndexKey q.1 "nodes" q.2 → p = q

/-- What the walk over endpoints has found. -/
structure Scanned (pairs : List (String × String)) (scan : EdgeScan) : Prop where
  ids : ∀ k, k ∈ scan.endpointIds ↔ ∃ p ∈ pairs, boundedIndexKey p.1 "nodes" p.2 = k
  counts : ∀ c : String, scan.endpointCounts[c]?.getD 0 = (endpointSet c pairs).card
  capped : ∀ c : String, scan.endpointCounts[c]?.getD 0 ≤ maxGraphNodes

theorem Scanned.empty : Scanned [] ⟨∅, ∅, ∅⟩ where
  ids := by simp
  counts := by simp [endpointSet]
  capped := by simp

theorem scanEndpoint_ok {corpusId nodeId : String} {scan scan' : EdgeScan}
    {pairs : List (String × String)} (hs : Scanned pairs scan)
    (hfree : ∀ p ∈ pairs, boundedIndexKey p.1 "nodes" p.2 = boundedIndexKey corpusId "nodes" nodeId →
      p = (corpusId, nodeId))
    (h : scanEndpoint state corpusId scan nodeId = .ok scan') :
    Scanned (pairs ++ [(corpusId, nodeId)]) scan' ∧ scan'.edgeCounts = scan.edgeCounts
      ∧ isStoredDomainId nodeId = true ∧ ∃ node, state.nodes[nodeKey corpusId nodeId]? = some node
        ∧ node.corpusId = corpusId ∧ node.nodeId = nodeId := by
  obtain ⟨id, hid, h⟩ := bind_ok.mp h
  obtain ⟨hstored, rfl⟩ := boundedStoredDomainId_ok.mp hid
  obtain ⟨node, hnode, h⟩ := bind_ok.mp h
  rw [orBlankError_ok] at hnode
  split at h
  · exact absurd h blank_ne_ok
  rename_i hne
  obtain ⟨hc, hn⟩ : node.corpusId = corpusId ∧ node.nodeId = nodeId := by
    simpa [not_or] using hne
  have hends : ∃ node, state.nodes[nodeKey corpusId nodeId]? = some node
      ∧ node.corpusId = corpusId ∧ node.nodeId = nodeId := ⟨node, hnode, hc, hn⟩
  dsimp only at h
  split at h
  · rename_i hseen
    cases h
    obtain ⟨p, hp, hpk⟩ := (hs.ids _).mp hseen
    obtain rfl := hfree p hp hpk
    refine ⟨⟨?_, ?_, hs.capped⟩, rfl, hstored, hends⟩
    · intro k
      rw [hs.ids k]
      simp only [List.mem_append, List.mem_singleton]
      constructor
      · rintro ⟨q, hq, hqk⟩
        exact ⟨q, .inl hq, hqk⟩
      · rintro ⟨q, hq | rfl, hqk⟩
        · exact ⟨q, hq, hqk⟩
        · exact ⟨_, hp, hqk⟩
    · intro c
      rw [hs.counts c, endpointSet_concat]
      split_ifs with hcc
      · rw [Finset.insert_eq_self.mpr (mem_endpointSet.mpr (hcc ▸ hp))]
      · rfl
  · rename_i hseen
    obtain ⟨⟨counts, n⟩, hmore, h⟩ := bind_ok.mp h
    obtain ⟨hn1, rfl⟩ := countMore_ok hmore
    split at h
    · exact absurd h blank_ne_ok
    rename_i hcap
    cases h
    have hnew : nodeId ∉ endpointSet corpusId pairs := by
      intro hmem
      exact hseen ((hs.ids _).mpr ⟨_, mem_endpointSet.mp hmem, rfl⟩)
    refine ⟨⟨?_, ?_, ?_⟩, rfl, hstored, hends⟩
    · intro k
      simp only [Std.ExtTreeMap.mem_insert, hs.ids k, List.mem_append, List.mem_singleton]
      constructor
      · rintro (hk | ⟨q, hq, hqk⟩)
        · exact ⟨_, .inr rfl, Std.LawfulEqOrd.eq_of_compare hk⟩
        · exact ⟨q, .inl hq, hqk⟩
      · rintro ⟨q, hq | rfl, hqk⟩
        · exact .inr ⟨q, hq, hqk⟩
        · exact .inl (by rw [hqk]; exact Std.ReflOrd.compare_self)
    · intro c
      rw [endpointSet_concat]
      by_cases hcc : corpusId = c
      · subst hcc
        rw [if_pos rfl, Map.getElem?_insert_self, Option.getD_some, hn1, hs.counts,
          Finset.card_insert_of_notMem hnew]
      · rw [if_neg hcc, Map.getElem?_insert_ne _ hcc, hs.counts]
    · intro c
      by_cases hcc : corpusId = c
      · subst hcc
        rw [Map.getElem?_insert_self, Option.getD_some]
        omega
      · rw [Map.getElem?_insert_ne _ hcc]
        exact hs.capped c

theorem scanEdge_ok {done : List (String × GraphEdge)} {entry : String × GraphEdge}
    {scan scan' : EdgeScan} (hfree : CollisionFree (done ++ [entry]))
    (hs : Scanned (done.flatMap endpointPairs) scan)
    (hc : ∀ c : String, scan.edgeCounts[c]?.getD 0 = (edgesOf c done).length)
    (h : scanEdge state scan entry = .ok scan') :
    Scanned ((done ++ [entry]).flatMap endpointPairs) scan'
      ∧ (∀ c : String, scan'.edgeCounts[c]?.getD 0 = (edgesOf c (done ++ [entry])).length)
      ∧ Anchored state entry := by
  have hpairs : (done ++ [entry]).flatMap endpointPairs
      = done.flatMap endpointPairs ++ [(entry.2.corpusId, entry.2.sourceNodeId)]
        ++ [(entry.2.corpusId, entry.2.targetNodeId)] := by
    rw [List.flatMap_append, List.flatMap_singleton, List.append_assoc]
    rfl
  have hfree' : ∀ p ∈ done.flatMap endpointPairs ++ [(entry.2.corpusId, entry.2.sourceNodeId)]
      ++ [(entry.2.corpusId, entry.2.targetNodeId)], ∀ id,
      (entry.2.corpusId, id) ∈ endpointPairs entry →
      boundedIndexKey p.1 "nodes" p.2 = boundedIndexKey entry.2.corpusId "nodes" id →
      p = (entry.2.corpusId, id) := by
    rw [← hpairs]
    intro p hp id hid hk
    exact hfree p hp _ (List.mem_flatMap.mpr ⟨entry, by simp, hid⟩) hk
  obtain ⟨scan₂, hends, h⟩ := bind_ok.mp h
  rw [List.foldlM_cons] at hends
  obtain ⟨scan₁, hsource, hends⟩ := bind_ok.mp hends
  rw [List.foldlM_cons] at hends
  obtain ⟨scan₂', htarget, hends⟩ := bind_ok.mp hends
  cases hends
  obtain ⟨hs₁, he₁, hid₁, hn₁⟩ := scanEndpoint_ok hs
    (fun p hp => hfree' p (by simp [hp]) _ (by simp [endpointPairs])) hsource
  obtain ⟨hs₂, he₂, hid₂, hn₂⟩ := scanEndpoint_ok hs₁
    (fun p hp => hfree' p (by simp only [List.mem_append] at hp ⊢; exact .inl hp) _
      (by simp [endpointPairs])) htarget
  obtain ⟨⟨counts, n⟩, hmore, h⟩ := bind_ok.mp h
  cases h
  obtain ⟨hn, rfl⟩ := countMore_ok hmore
  rw [hpairs]
  refine ⟨⟨hs₂.ids, hs₂.counts, hs₂.capped⟩, ?_, ?_, ?_⟩
  · intro c
    rw [edgesOf, List.filter_append, List.length_append, ← edgesOf, ← hc c]
    by_cases hcc : entry.2.corpusId = c
    · subst hcc
      rw [Map.getElem?_insert_self, Option.getD_some, hn, he₂, he₁]
      simp
    · rw [Map.getElem?_insert_ne _ hcc, he₂, he₁]
      simp [hcc]
  · simp [endpointPairs, hid₁, hid₂]
  · simp only [endpointPairs, List.mem_cons, List.not_mem_nil, or_false, forall_eq_or_imp,
      forall_eq]
    exact ⟨hn₁, hn₂⟩

theorem scanEdges_ok {edges : List (String × GraphEdge)} {scan : EdgeScan}
    (hfree : CollisionFree edges) (h : edges.foldlM (scanEdge state) ⟨∅, ∅, ∅⟩ = .ok scan) :
    Scanned (edges.flatMap endpointPairs) scan
      ∧ (∀ c : String, scan.edgeCounts[c]?.getD 0 = (edgesOf c edges).length)
      ∧ ∀ e ∈ edges, Anchored state e := by
  refine foldlM_induct (I := fun done scan => (∀ e ∈ done, e ∈ edges) →
    Scanned (done.flatMap endpointPairs) scan
      ∧ (∀ c : String, scan.edgeCounts[c]?.getD 0 = (edgesOf c done).length)
      ∧ ∀ e ∈ done, Anchored state e) ?_ ?_ h (fun _ he => he)
  · intro _
    exact ⟨Scanned.empty, by simp [edgesOf], by simp⟩
  · intro done entry scan scan' hmem ih hstep hsub
    obtain ⟨hs, hc, ha⟩ := ih fun e he => hsub e (by simp [he])
    have hfree' : CollisionFree (done ++ [entry]) := by
      intro p hp q hq
      have hin {r} (hr : r ∈ (done ++ [entry]).flatMap endpointPairs) :
          r ∈ edges.flatMap endpointPairs := by
        obtain ⟨e, he, hr⟩ := List.mem_flatMap.mp hr
        exact List.mem_flatMap.mpr ⟨e, hsub e he, hr⟩
      exact hfree p (hin hp) q (hin hq)
    obtain ⟨hs', hc', ha'⟩ := scanEdge_ok hfree' hs hc hstep
    refine ⟨hs', hc', ?_⟩
    intro e he
    rcases List.mem_append.mp he with he | he
    · exact ha e he
    · rw [List.mem_singleton.mp he]
      exact ha'

/-! ### Index entries -/

def sectionItems (snapshot : Value) (sectionName : String) : List Value :=
  ((snapshot.get sectionName).bind Value.asArray).getD []

def sectionEntries (corpusId : String) (snapshot : Value) (names : String × String) :
    List (String × ℕ) :=
  (sectionItems snapshot names.1).zipIdx.map fun item =>
    (boundedIndexKey corpusId names.1 ((getStr item.1 names.2).getD ""), item.2)

/-- The index entries of all items. -/
def snapshotEntries (snapshots : List (String × Value)) : List (String × ℕ) :=
  snapshots.flatMap fun entry => snapshotSections.flatMap (sectionEntries entry.1 entry.2)

/-- An index that holds these entries and no others. -/
def Indexes (entries : List (String × ℕ)) (indices : Map ℕ) : Prop :=
  ∀ (k : String) (i : ℕ), indices[k]? = some i ↔ (k, i) ∈ entries

omit [Externals] in
theorem Indexes.insert {entries : List (String × ℕ)} {indices : Map ℕ} (h : Indexes entries indices)
    {k : String} (hk : k ∉ indices) (i : ℕ) :
    Indexes (entries ++ [(k, i)]) (indices.insert k i) := by
  intro k' i'
  rw [List.mem_append, List.mem_singleton, Prod.mk.injEq]
  by_cases hkk : k = k'
  · subst hkk
    have hnone : indices[k]? = none := Std.ExtTreeMap.getElem?_eq_none hk
    rw [Map.getElem?_insert_self, ← h, hnone]
    simp [eq_comm]
  · rw [Map.getElem?_insert_ne _ hkk, h]
    simp [Ne.symm hkk]

omit [Externals] in
theorem storedSnapshotSectionOrEmpty_ok {snapshot : Value} {name : String} {items : List Value}
    (h : storedSnapshotSectionOrEmpty snapshot name = .ok items) :
    sectionItems snapshot name = items := by
  rw [storedSnapshotSectionOrEmpty] at h
  split at h
  · rename_i hg
    cases h
    simp [sectionItems, hg]
  · rename_i hg
    cases h
    simp [sectionItems, hg, Value.asArray]
  · exact absurd h blank_ne_ok

theorem indexItem_ok {corpusId name idField : String} {indices indices' : Map ℕ}
    {entries : List (String × ℕ)} {item : Value × ℕ} (hi : Indexes entries indices)
    (h : indexItem corpusId name idField indices item = .ok indices') :
    Indexes (entries ++ [(boundedIndexKey corpusId name ((getStr item.1 idField).getD ""), item.2)])
      indices' := by
  obtain ⟨id, hid, h⟩ := bind_ok.mp h
  rw [orBlankError_ok] at hid
  obtain ⟨id', hid', h⟩ := bind_ok.mp h
  obtain ⟨-, rfl⟩ := boundedStoredDomainId_ok.mp hid'
  split at h
  · exact absurd h blank_ne_ok
  dsimp only at h
  split at h
  · exact absurd h blank_ne_ok
  · rename_i hnew
    cases h
    rw [hid, Option.getD_some]
    exact hi.insert hnew item.2

theorem indexItems_ok {corpusId : String} {names : String × String} {indices indices' : Map ℕ}
    {entries : List (String × ℕ)} {items : List (Value × ℕ)} (hi : Indexes entries indices)
    (h : items.foldlM (indexItem corpusId names.1 names.2) indices = .ok indices') :
    Indexes (entries ++ items.map fun item =>
      (boundedIndexKey corpusId names.1 ((getStr item.1 names.2).getD ""), item.2)) indices' := by
  induction items generalizing entries indices with
  | nil =>
    cases h
    simpa using hi
  | cons item items ih =>
    rw [List.foldlM_cons] at h
    obtain ⟨indices₁, hitem, h⟩ := bind_ok.mp h
    have htail := ih (indexItem_ok hi hitem) h
    rw [List.append_assoc, List.singleton_append] at htail
    rw [List.map_cons]
    exact htail

theorem indexSections_ok {corpusId : String} {snapshot : Value} {names : List (String × String)}
    {indices indices' : Map ℕ} {entries : List (String × ℕ)} (hi : Indexes entries indices)
    (h : names.foldlM (fun indices sectionName => do
      let items ← storedSnapshotSectionOrEmpty snapshot sectionName.1
      items.zipIdx.foldlM (indexItem corpusId sectionName.1 sectionName.2) indices) indices
      = .ok indices') :
    Indexes (entries ++ names.flatMap (sectionEntries corpusId snapshot)) indices' := by
  induction names generalizing entries indices with
  | nil =>
    cases h
    simpa using hi
  | cons name names ih =>
    rw [List.foldlM_cons] at h
    obtain ⟨indices₁, hname, h⟩ := bind_ok.mp h
    obtain ⟨items, hitems, hname⟩ := bind_ok.mp hname
    have htail := ih (indexItems_ok hi hname) h
    rw [← storedSnapshotSectionOrEmpty_ok hitems, List.append_assoc] at htail
    rw [List.flatMap_cons]
    exact htail

theorem indexSnapshot_ok {indices indices' : Map ℕ} {entries : List (String × ℕ)}
    {entry : String × Value} (hi : Indexes entries indices)
    (h : indexSnapshot indices entry = .ok indices') :
    Indexes (entries ++ snapshotSections.flatMap (sectionEntries entry.1 entry.2)) indices' := by
  rw [indexSnapshot] at h
  split at h
  · exact absurd h blank_ne_ok
  · exact indexSections_ok hi h

/-! ### The catalog -/

/-- What a catalog says about the state it was built from. -/
structure Catalog.Describes {state : State} (catalog : Catalog) (walk : Walk state) : Prop where
  nodes : ∀ c : String, catalog.endpointCountsByCorpus[c]?.getD 0
    = (endpointSet c (walk.edges.flatMap endpointPairs)).card
  nodes_le : ∀ c : String, catalog.endpointCountsByCorpus[c]?.getD 0 ≤ maxGraphNodes
  edges : ∀ c : String, catalog.edgeCountsByCorpus[c]?.getD 0 = (edgesOf c walk.edges).length
  edges_le : walk.edges.length ≤ maxGraphEdges
  anchored : ∀ e ∈ walk.edges, Anchored state e
  indices : Indexes (snapshotEntries walk.snapshots) catalog.snapshotIndices

theorem indexSnapshots_ok {snapshots : List (String × Value)} {indices : Map ℕ}
    (h : snapshots.foldlM indexSnapshot ∅ = .ok indices) :
    Indexes (snapshotEntries snapshots) indices := by
  refine foldlM_induct (I := fun done indices => Indexes (snapshotEntries done) indices) ?_ ?_ h
  · intro k i
    simp [snapshotEntries]
  · intro done entry indices indices' _ hi h
    rw [snapshotEntries, List.flatMap_append, List.flatMap_singleton]
    exact indexSnapshot_ok hi h

theorem ensureBoundedCatalog_ok {walk : Walk state} {catalog : Catalog}
    (hfree : CollisionFree walk.edges) (h : ensureBoundedCatalog state walk = .ok catalog) :
    catalog.Describes walk := by
  obtain ⟨_, -, h⟩ := bind_ok.mp h
  obtain ⟨indices, hindices, h⟩ := bind_ok.mp h
  split at h
  · exact absurd h blank_ne_ok
  rename_i hlen
  obtain ⟨_, -, h⟩ := bind_ok.mp h
  obtain ⟨scan, hscan, h⟩ := bind_ok.mp h
  cases h
  obtain ⟨hs, hc, ha⟩ := scanEdges_ok hfree hscan
  exact ⟨hs.counts, hs.capped, hc, by omega, ha, indexSnapshots_ok hindices⟩

end AiraGraphdb.Native.Bounded
