import AiraGraphdb.Native.NoResidue

/-! # What a document delete leaves of the graph

A delete takes nodes out in three places (by their fate, as ontology nodes without a document, as
entities that nothing mentions), and every place records the ids it took. `Tracks` says that the
record is exact; from it follow which edges, vectors and entities go. -/

namespace AiraGraphdb.Native

open Schemes Schemes.Json

namespace DeleteDocument

/-! ### Keys -/

theorem append_colon_inj {a b x y : List Char} (ha : ':' ∉ a) (hb : ':' ∉ b)
    (h : a ++ ':' :: x = b ++ ':' :: y) : a = b ∧ x = y := by
  induction a generalizing b with
  | nil =>
    cases b with
    | nil => exact ⟨rfl, (List.cons.inj h).2⟩
    | cons c b =>
      rw [List.nil_append, List.cons_append] at h
      exact absurd (by rw [(List.cons.inj h).1]; simp) hb
  | cons c a ih =>
    cases b with
    | nil =>
      rw [List.nil_append, List.cons_append] at h
      exact absurd (by rw [(List.cons.inj h).1]; simp) ha
    | cons d b =>
      rw [List.cons_append, List.cons_append] at h
      obtain ⟨hcd, htail⟩ := List.cons.inj h
      subst hcd
      obtain ⟨rfl, rfl⟩ := ih (fun hc => ha (List.mem_cons_of_mem _ hc))
        (fun hc => hb (List.mem_cons_of_mem _ hc)) htail
      exact ⟨rfl, rfl⟩

/-- A corpus id without the separator of the keys. -/
def Plain (corpusId : String) : Prop := ':' ∉ corpusId.toList

theorem key_inj {a b x y : String} (ha : Plain a) (hb : Plain b) (h : key a x = key b y) :
    a = b ∧ x = y := by
  have hl := congrArg String.toList h
  simp only [key, String.toList_append] at hl
  have hcolon : (":" : String).toList = [':'] := rfl
  rw [hcolon, List.append_assoc, List.append_assoc, List.singleton_append, List.singleton_append]
    at hl
  obtain ⟨hab, hxy⟩ := append_colon_inj ha hb hl
  exact ⟨String.toList_inj.mp hab, String.toList_inj.mp hxy⟩

/-- Every record is under the key of its own corpus and id, and no corpus id holds the separator
of the keys. -/
structure Keyed (state : State) : Prop where
  nodes : ∀ (k : String) n, state.nodes[k]? = some n → k = key n.corpusId n.nodeId ∧ Plain n.corpusId
  edges : ∀ (k : String) e, state.edges[k]? = some e → k = key e.corpusId e.edgeId ∧ Plain e.corpusId
  vectors : ∀ (k : String) v, state.vectors[k]? = some v → k = key v.corpusId v.id ∧ Plain v.corpusId
  passages : ∀ (k : String) p, state.passages[k]? = some p →
    k = key p.corpusId p.passageId ∧ Plain p.corpusId
  snapshots : ∀ (c : String) v, state.snapshots[c]? = some v → Plain c

/-- The node under a key of a corpus is the node of that corpus and id. -/
theorem Keyed.node_of_key {state : State} (h : Keyed state) {c id : String} {n : GraphNode}
    (hc : Plain c) (hn : state.nodes[key c id]? = some n) : n.corpusId = c ∧ n.nodeId = id := by
  obtain ⟨hk, hplain⟩ := h.nodes _ _ hn
  obtain ⟨h1, h2⟩ := key_inj hc hplain hk
  exact ⟨h1.symm, h2.symm⟩

/-! ### The record of what was taken -/

/-- A pass over the nodes records exactly the ids of those it has taken out; those it has left keep
their ids, and those of another corpus are left as they are. -/
structure Tracks (state : State) (c : String) (pass : NodePass) : Prop where
  origin : ∀ (k : String) m, pass.nodes[k]? = some m → ∃ n, state.nodes[k]? = some n
    ∧ n.nodeId = m.nodeId ∧ n.corpusId = m.corpusId ∧ n.layer = m.layer
  complete : ∀ (k : String) n, state.nodes[k]? = some n → pass.nodes[k]? = none →
    n.nodeId ∈ pass.removedNodeIds
  sound : ∀ id ∈ pass.removedNodeIds, ∃ (k : String) (n : GraphNode), state.nodes[k]? = some n
    ∧ n.nodeId = id ∧ n.corpusId = c ∧ pass.nodes[k]? = none
  others : ∀ (k : String) n, state.nodes[k]? = some n → n.corpusId ≠ c →
    pass.nodes[k]? = some n

theorem Tracks.start (state : State) (c : String) (rekey : Map String) (counts : DeleteCounts) :
    Tracks state c ⟨state.nodes, rekey, [], counts⟩ := by
  refine ⟨?_, ?_, by simp, fun _ _ h _ => h⟩
  · intro k m h
    exact ⟨m, h, rfl, rfl, rfl⟩
  · intro k n h hnone
    cases h.symm.trans hnone

/-- A node of the corpus replaced by one that differs in its reference. -/
theorem Tracks.insert {state : State} {c k : String} {pass : NodePass} {m : GraphNode}
    (h : Tracks state c pass) (hm : pass.nodes[k]? = some m) (hc : m.corpusId = c) (ref : Value)
    (rekey : Map String) (counts : DeleteCounts) :
    Tracks state c ⟨pass.nodes.insert k { m with ref := ref }, rekey, pass.removedNodeIds,
      counts⟩ := by
  refine ⟨?_, ?_, ?_, ?_⟩
  · intro k' m' h'
    dsimp only at h'
    rw [getElem?_insert_ite] at h'
    split at h'
    · next hk =>
      cases h'
      obtain ⟨n, hn, h1, h2, h3⟩ := h.origin k m hm
      exact ⟨n, hk ▸ hn, h1, h2, h3⟩
    · exact h.origin k' m' h'
  · intro k' n hn hnone
    dsimp only at hnone
    rw [getElem?_insert_ite] at hnone
    split at hnone
    · cases hnone
    · exact h.complete k' n hn hnone
  · intro id hid
    obtain ⟨k', n, hn, h1, h2, h3⟩ := h.sound id hid
    refine ⟨k', n, hn, h1, h2, ?_⟩
    dsimp only
    rw [getElem?_insert_ite, if_neg]
    · exact h3
    · rintro rfl
      cases hm.symm.trans h3
  · intro k' n hn hne
    dsimp only
    rw [getElem?_insert_ite, if_neg]
    · exact h.others k' n hn hne
    · rintro rfl
      have := h.others k' n hn hne
      rw [hm] at this
      cases this
      exact hne hc

/-- A node of the corpus taken out and its id recorded. -/
theorem Tracks.erase {state : State} {c k : String} {pass : NodePass} {m : GraphNode}
    (h : Tracks state c pass) (hm : pass.nodes[k]? = some m) (hc : m.corpusId = c)
    (rekey : Map String) (counts : DeleteCounts) :
    Tracks state c ⟨pass.nodes.erase k, rekey, pass.removedNodeIds ++ [m.nodeId], counts⟩ := by
  obtain ⟨n, hn, hid, hcorpus, -⟩ := h.origin k m hm
  refine ⟨?_, ?_, ?_, ?_⟩
  · intro k' m' h'
    dsimp only at h'
    rw [getElem?_erase_ite] at h'
    split at h'
    · cases h'
    · exact h.origin k' m' h'
  · intro k' n' hn' hnone
    dsimp only at hnone
    rw [getElem?_erase_ite] at hnone
    split at hnone
    · next hk =>
      subst hk
      obtain rfl := Option.some.inj (hn.symm.trans hn')
      simp [hid]
    · exact List.mem_append_left _ (h.complete k' n' hn' hnone)
  · intro id hid'
    rcases List.mem_append.mp hid' with hid' | hid'
    · obtain ⟨k', n', hn', h1, h2, h3⟩ := h.sound id hid'
      refine ⟨k', n', hn', h1, h2, ?_⟩
      dsimp only
      rw [getElem?_erase_ite]
      split
      · rfl
      · exact h3
    · rw [List.mem_singleton.mp hid']
      refine ⟨k, n, hn, hid, hcorpus.trans hc, ?_⟩
      dsimp only
      rw [getElem?_erase_ite, if_pos rfl]
  · intro k' n' hn' hne
    dsimp only
    rw [getElem?_erase_ite, if_neg]
    · exact h.others k' n' hn' hne
    · rintro rfl
      obtain rfl := Option.some.inj (hn.symm.trans hn')
      exact hne (hcorpus.trans hc)

theorem fateStep_tracks {state : State} {c d updatedAt : String} {removed : List String}
    {s : SnapshotPass} {pass : NodePass} {p : String × NodeFate} (h : Tracks state c pass)
    (hp : ∃ n, state.nodes[p.1]? = some n ∧ n.corpusId = c) :
    Tracks state c (fateStep d updatedAt removed s pass p) := by
  obtain ⟨n, hn, hc⟩ := hp
  rw [fateStep]
  rcases hm : pass.nodes[p.1]? with _ | m
  · exact h
  · obtain ⟨n', hn', -, hcorpus, -⟩ := h.origin _ m hm
    obtain rfl := Option.some.inj (hn.symm.trans hn')
    dsimp only
    split
    · exact h.insert hm (hcorpus.symm.trans hc) _ _ _
    · exact h.erase hm (hcorpus.symm.trans hc) _ _

theorem ontologyStep_tracks {state : State} {c d updatedAt k : String} {s : SnapshotPass}
    {pass : NodePass} (h : Tracks state c pass)
    (hk : ∃ n, state.nodes[k]? = some n ∧ n.corpusId = c) :
    Tracks state c (ontologyStep d updatedAt s pass k) := by
  obtain ⟨n, hn, hc⟩ := hk
  rw [ontologyStep]
  rcases hm : pass.nodes[k]? with _ | m
  · exact h
  · obtain ⟨n', hn', -, hcorpus, -⟩ := h.origin _ m hm
    obtain rfl := Option.some.inj (hn.symm.trans hn')
    dsimp only
    split
    · exact h.insert hm (hcorpus.symm.trans hc) _ _ _
    · exact h.erase hm (hcorpus.symm.trans hc) _ _

/-- The pass over the snapshot mirrors schemas only for a corpus that has a snapshot. -/
theorem schemaPost_empty {state : State} {c d updatedAt : String}
    (h : state.snapshots[c]? = none) : (snapshotOf state c d updatedAt).schemaPost = ∅ := by
  rw [snapshotOf, h]
  rfl

/-- An ontology node that the delete looks at belongs to the corpus. -/
theorem ontologyTarget_corpus {state : State} (h : Keyed state) {c d updatedAt k : String}
    {n : GraphNode} (hn : state.nodes[k]? = some n)
    (ht : isOntologyTarget c d (snapshotOf state c d updatedAt).schemaPost k n = true) :
    n.corpusId = c ∧ n.layer = "ontology" := by
  rw [isOntologyTarget, Bool.or_eq_true, Bool.and_eq_true] at ht
  rcases ht with ht | ⟨hlayer, hkey⟩
  · rw [namedOntologyNode, Bool.and_eq_true, Bool.and_eq_true] at ht
    exact ⟨by simpa using ht.1.1, by simpa using ht.1.2⟩
  · refine ⟨?_, by simpa using hlayer⟩
    obtain ⟨schemaId, hid, hk⟩ := List.any_eq_true.mp hkey
    have hplain : Plain c := by
      rcases hs : state.snapshots[c]? with _ | snapshot
      · rw [schemaPost_empty hs, keys_empty] at hid
        simp at hid
      · exact h.snapshots c snapshot hs
    have hk : key c ("schema:" ++ schemaId) = k := by simpa using hk
    subst hk
    exact (h.node_of_key hplain hn).1

/-- The node pass of a delete. -/
def nodesOf (state : State) (c d updatedAt : String) : NodePass :=
  nodePass state c d updatedAt (scan state c d) (snapshotOf state c d updatedAt)

theorem nodesOf_tracks {state : State} (h : Keyed state) (c d updatedAt : String) :
    Tracks state c (nodesOf state c d updatedAt) := by
  simp only [nodesOf, nodePass]
  refine foldl_keeps (P := fun pass : NodePass => Tracks state c pass)
    (foldl_keeps (P := fun pass : NodePass => Tracks state c pass) (.start _ _ _ _) ?_) ?_
  · intro pass p hp htracks
    obtain ⟨n, first, hn, hf, -⟩ := scan_fates (Map.mem_toList.mp hp)
    exact fateStep_tracks htracks ⟨n, hn, (fateOf_layer hf).1⟩
  · intro pass k hk htracks
    rw [Std.ExtTreeMap.mem_keys, Map.mem_iff] at hk
    obtain ⟨n, hn⟩ := hk
    obtain ⟨hn, ht⟩ := Map.filter_eq_some.mp hn
    exact ontologyStep_tracks htracks ⟨n, hn, (ontologyTarget_corpus h hn ht).1⟩

/-- The passes over the nodes leave the entities alone. -/
theorem nodesOf_entity {state : State} (h : Keyed state) {c d updatedAt k : String}
    {n : GraphNode} (hn : state.nodes[k]? = some n) (hlayer : n.layer = "entity") :
    (nodesOf state c d updatedAt).nodes[k]? = some n := by
  rcases nodePass_getElem? state c d updatedAt (snapshotOf state c d updatedAt) k
    with ⟨hnone, -⟩ | ⟨n', hn', hafter⟩
  · cases hn.symm.trans hnone
  · obtain rfl := Option.some.inj (hn.symm.trans hn')
    rw [nodesOf]
    generalize (nodePass state c d updatedAt (scan state c d)
      (snapshotOf state c d updatedAt)).nodes[k]? = after at hafter ⊢
    cases hafter with
    | untouched hf ho => rfl
    | fated hf ho =>
      obtain ⟨n', first, hn', hfirst, -⟩ := scan_fates hf
      obtain rfl := Option.some.inj (hn.symm.trans hn')
      exact absurd hlayer (fateOf_layer hfirst).2.2
    | mirrored hf ho =>
      have honto := (ontologyTarget_corpus h hn ho).2
      rw [hlayer] at honto
      exact absurd honto (by decide)

/-! ### Edges and entities -/

/-- The entity ends of the edges that go with the nodes and facts. -/
def candidatesOf (edges : Map GraphEdge) (c : String) (removedFactIds : List String)
    (pass : NodePass) : List String :=
  entityCandidates c pass.nodes pass.removedNodeIds
    (edges.filter fun _ edge => removesEdge c pass.removedNodeIds removedFactIds edge)

/-- Those of them that no edge that is kept supports. -/
def orphansOf (edges : Map GraphEdge) (c : String) (removedFactIds : List String)
    (pass : NodePass) : List String :=
  (candidatesOf edges c removedFactIds pass).filter fun nodeId =>
    !(edges.filter fun _ edge => !removesEdge c pass.removedNodeIds removedFactIds edge).toList.any
      fun p => supports c nodeId p.2

theorem edgePass_snd (edges : Map GraphEdge) (c : String) (removedFactIds : List String)
    (pass : NodePass) : (edgePass edges c removedFactIds pass).2
      = (orphansOf edges c removedFactIds pass).foldl (orphanStep c) pass := by
  rw [edgePass, orphansOf, candidatesOf]
  dsimp only
  split
  · next h =>
    rw [List.isEmpty_iff.mp h]
    rfl
  · rfl

theorem mem_candidatesOf {edges : Map GraphEdge} {c id : String} {removedFactIds : List String}
    {pass : NodePass} : id ∈ candidatesOf edges c removedFactIds pass ↔
      (∃ (k : String) (e : GraphEdge), edges[k]? = some e
          ∧ removesEdge c pass.removedNodeIds removedFactIds e = true ∧ id ∈ endpoints e)
        ∧ (stripPrefix id "entity:").isSome ∧ id ∉ pass.removedNodeIds
        ∧ ∃ n, pass.nodes[key c id]? = some n ∧ n.layer = "entity" := by
  rw [candidatesOf, entityCandidates, List.mem_filter, List.mem_flatMap]
  refine and_congr ?_ ?_
  · constructor
    · rintro ⟨⟨k, e⟩, he, hid⟩
      obtain ⟨he, hr⟩ := Map.filter_eq_some.mp (Map.mem_toList.mp he)
      exact ⟨k, e, he, hr, hid⟩
    · rintro ⟨k, e, he, hr, hid⟩
      exact ⟨(k, e), Map.mem_toList.mpr (Map.filter_eq_some.mpr ⟨he, hr⟩), hid⟩
  · rw [Bool.and_eq_true, Bool.and_eq_true, and_assoc, Option.any_eq_true]
    simp

theorem mem_orphansOf {edges : Map GraphEdge} {c id : String} {removedFactIds : List String}
    {pass : NodePass} : id ∈ orphansOf edges c removedFactIds pass ↔
      id ∈ candidatesOf edges c removedFactIds pass
        ∧ ∀ (k : String) (e : GraphEdge), edges[k]? = some e →
          removesEdge c pass.removedNodeIds removedFactIds e = false → supports c id e = false := by
  rw [orphansOf, List.mem_filter]
  refine and_congr_right fun _ => ?_
  rw [Bool.not_eq_true', List.any_eq_false]
  constructor
  · intro h k e he hr
    have := h (k, e) (Map.mem_toList.mpr (Map.filter_eq_some.mpr ⟨he, by rw [hr]; rfl⟩))
    simpa using this
  · rintro h ⟨k, e⟩ he
    obtain ⟨he, hr⟩ := Map.filter_eq_some.mp (Map.mem_toList.mp he)
    rw [h k e he (by simpa using hr)]
    simp

/-- The pass over the orphans takes them out, and nothing else. -/
theorem foldl_orphanStep {c : String} (ids : List String) (pass : NodePass) :
    (∀ (k : String), (∀ id ∈ ids, k ≠ key c id) →
        (ids.foldl (orphanStep c) pass).nodes[k]? = pass.nodes[k]?)
      ∧ (∀ id ∈ ids, (ids.foldl (orphanStep c) pass).nodes[key c id]? = none)
      ∧ (∀ id, id ∈ (ids.foldl (orphanStep c) pass).removedNodeIds →
          id ∈ pass.removedNodeIds ∨ id ∈ ids)
      ∧ ∀ id ∈ pass.removedNodeIds, id ∈ (ids.foldl (orphanStep c) pass).removedNodeIds := by
  induction ids generalizing pass with
  | nil => exact ⟨fun _ _ => rfl, by simp, fun _ h => .inl h, fun _ h => h⟩
  | cons i ids ih =>
    obtain ⟨h1, h2, h3, h4⟩ := ih (orphanStep c pass i)
    have hnodes : ∀ k : String, (orphanStep c pass i).nodes[k]? =
        if k = key c i then none else pass.nodes[k]? := by
      intro k
      rw [orphanStep]
      rcases hn : pass.nodes[key c i]? with _ | n
      · dsimp only
        split
        · next hk => rw [hk, hn]
        · rfl
      · exact getElem?_erase_ite _ _ _
    have hids : ∀ id, id ∈ (orphanStep c pass i).removedNodeIds →
        id ∈ pass.removedNodeIds ∨ id = i := by
      intro id hid
      rw [orphanStep] at hid
      split at hid
      · exact .inl hid
      · simpa using hid
    have hkeep : ∀ id ∈ pass.removedNodeIds, id ∈ (orphanStep c pass i).removedNodeIds := by
      intro id hid
      rw [orphanStep]
      split
      · exact hid
      · exact List.mem_append_left _ hid
    rw [List.foldl_cons]
    refine ⟨?_, ?_, ?_, fun id hid => h4 id (hkeep id hid)⟩
    · intro k hk
      rw [h1 k fun id hid => hk id (List.mem_cons_of_mem _ hid), hnodes,
        if_neg (hk i List.mem_cons_self)]
    · intro id hid
      by_cases hmem : id ∈ ids
      · exact h2 id hmem
      · obtain rfl : id = i := (List.mem_cons.mp hid).resolve_right hmem
        by_cases hsame : ∃ id' ∈ ids, key c id = key c id'
        · obtain ⟨id', hid', he⟩ := hsame
          rw [he]
          exact h2 id' hid'
        · rw [h1 (key c id) fun id' hid' he => hsame ⟨id', hid', he⟩, hnodes, if_pos rfl]
    · intro id hid
      rcases h3 id hid with hid | hid
      · rcases hids id hid with hid | rfl
        · exact .inl hid
        · exact .inr List.mem_cons_self
      · exact .inr (List.mem_cons_of_mem _ hid)

theorem foldl_orphanStep_tracks {state : State} (h : Keyed state) {c : String} {ids : List String}
    (hc : ids ≠ [] → Plain c) {pass : NodePass} (htracks : Tracks state c pass) :
    Tracks state c (ids.foldl (orphanStep c) pass) := by
  refine foldl_keeps (P := fun q : NodePass => Tracks state c q) htracks ?_
  intro q id hid hq
  rw [orphanStep]
  rcases hm : q.nodes[key c id]? with _ | m
  · exact hq
  · obtain ⟨n, hn, hnid, hncorpus, -⟩ := hq.origin _ m hm
    obtain ⟨h1, h2⟩ := h.node_of_key (hc (List.ne_nil_of_mem hid)) hn
    have hmid : m.nodeId = id := hnid.symm.trans h2
    have := hq.erase hm (hncorpus.symm.trans h1) q.rekey
      { q.counts with removedEntityNodes := q.counts.removedEntityNodes + 1 }
    rw [hmid] at this
    exact this

/-- An edge is kept when neither pass takes it. -/
theorem edgePass_fst {edges : Map GraphEdge} {c k : String} {removedFactIds : List String}
    {pass : NodePass} {e : GraphEdge} :
    (edgePass edges c removedFactIds pass).1[k]? = some e ↔
      edges[k]? = some e ∧ removesEdge c pass.removedNodeIds removedFactIds e = false
        ∧ atRemovedNode c (edgePass edges c removedFactIds pass).2.removedNodeIds e = false := by
  rw [edgePass_snd]
  rw [edgePass]
  dsimp only
  split
  · next hempty =>
    have horphans : orphansOf edges c removedFactIds pass = [] := by
      rw [orphansOf, candidatesOf, List.isEmpty_iff.mp hempty]
      rfl
    rw [horphans, List.foldl_nil, Map.filter_eq_some, Bool.not_eq_true']
    refine and_congr_right fun _ => ⟨fun hr => ⟨hr, ?_⟩, fun hr => hr.1⟩
    rw [removesEdge, Bool.or_eq_false_iff] at hr
    exact hr.1
  · rw [Map.filter_eq_some, Map.filter_eq_some, Bool.not_eq_true', Bool.not_eq_true', and_assoc]
    rfl

/-! ### The whole delete -/

/-- The nodes and their record after the whole delete. -/
def finalPass (state : State) (c d updatedAt : String) : NodePass :=
  (edgePass state.edges c (snapshotOf state c d updatedAt).removedFactIds
    (nodesOf state c d updatedAt)).2

/-- The orphans of a whole delete. -/
def orphans (state : State) (c d updatedAt : String) : List String :=
  orphansOf state.edges c (snapshotOf state c d updatedAt).removedFactIds
    (nodesOf state c d updatedAt)

theorem plain_of_edge {state : State} (h : Keyed state) {c k : String} {e : GraphEdge}
    (he : state.edges[k]? = some e) (hc : e.corpusId = c) : Plain c :=
  hc ▸ (h.edges k e he).2

theorem corpus_of_removesEdge {c : String} {ids facts : List String} {e : GraphEdge}
    (h : removesEdge c ids facts e = true) : e.corpusId = c := by
  rw [removesEdge, Bool.or_eq_true, atRemovedNode, Bool.and_eq_true, Bool.and_eq_true] at h
  rcases h with h | h
  · simpa using h.1
  · simpa using h.1

theorem plain_of_orphan {state : State} (h : Keyed state) {c d updatedAt : String}
    (hne : orphans state c d updatedAt ≠ []) : Plain c := by
  obtain ⟨id, hid⟩ := List.exists_mem_of_ne_nil _ hne
  obtain ⟨⟨k, e, he, hr, -⟩, -⟩ := mem_candidatesOf.mp (mem_orphansOf.mp hid).1
  exact plain_of_edge h he (corpus_of_removesEdge hr)

theorem finalPass_eq (state : State) (c d updatedAt : String) :
    finalPass state c d updatedAt
      = (orphans state c d updatedAt).foldl (orphanStep c) (nodesOf state c d updatedAt) :=
  edgePass_snd _ _ _ _

theorem finalPass_tracks {state : State} (h : Keyed state) (c d updatedAt : String) :
    Tracks state c (finalPass state c d updatedAt) := by
  rw [finalPass_eq]
  exact foldl_orphanStep_tracks h (plain_of_orphan h) (nodesOf_tracks h c d updatedAt)

theorem orphan_removed {state : State} {c d updatedAt id : String}
    (hid : id ∈ orphans state c d updatedAt) :
    (finalPass state c d updatedAt).nodes[key c id]? = none := by
  rw [finalPass_eq]
  exact (foldl_orphanStep _ _).2.1 id hid

theorem apply_nodes (mem : Memory) (c d updatedAt : String) :
    (applyMemoryDeleteDocument mem c d updatedAt).memory.state.nodes
      = (finalPass mem.state c d updatedAt).nodes := rfl

theorem apply_edges {mem : Memory} {c d updatedAt k : String} {e : GraphEdge} :
    (applyMemoryDeleteDocument mem c d updatedAt).memory.state.edges[k]? = some e ↔
      mem.state.edges[k]? = some e
        ∧ removesEdge c (nodesOf mem.state c d updatedAt).removedNodeIds
            (snapshotOf mem.state c d updatedAt).removedFactIds e = false
        ∧ atRemovedNode c (finalPass mem.state c d updatedAt).removedNodeIds e = false :=
  edgePass_fst

/-- What becomes of a vector. -/
def revised (state : State) (c d updatedAt : String) : VectorRecord → Option VectorRecord :=
  reviseVector c d (finalPass state c d updatedAt).rekey
    (finalPass state c d updatedAt).removedNodeIds

theorem apply_vectors (mem : Memory) (c d updatedAt k : String) :
    (applyMemoryDeleteDocument mem c d updatedAt).memory.state.vectors[k]?
      = (mem.state.vectors[k]?).bind (revised mem.state c d updatedAt) :=
  Std.ExtTreeMap.getElem?_filterMap'

theorem foldl_erase_getElem? {α : Type} (ks : List String) (m : Map α) (k : String) :
    (ks.foldl (fun values k => values.erase k) m)[k]? = if k ∈ ks then none else m[k]? := by
  induction ks generalizing m with
  | nil => simp
  | cons i ks ih =>
    rw [List.foldl_cons, ih]
    by_cases hk : k ∈ ks
    · simp [hk]
    · rw [if_neg hk]
      by_cases hi : i = k
      · subst hi
        rw [Map.getElem?_erase_self, if_pos List.mem_cons_self]
      · rw [Map.getElem?_erase_ne _ hi, if_neg]
        simp [Ne.symm hi, hk]

/-- The node of a corpus and id is gone. -/
def NodeGone (before after : State) (c id : String) : Prop :=
  ∃ n, before.nodes[key c id]? = some n ∧ after.nodes[key c id]? = none

/-- An edge that mentions an entity, or has it occur with another, in a state. -/
def Supported (state : State) (c id : String) : Prop :=
  ∃ (k : String) (e : GraphEdge), state.edges[k]? = some e ∧ supports c id e = true

/-- A delete in one corpus leaves the graph and the vectors closed. -/
structure Closed (before after : Memory) (c : String) : Prop where
  nodes_of_others : ∀ (k : String) n, before.state.nodes[k]? = some n → n.corpusId ≠ c →
    after.state.nodes[k]? = some n
  edges_of_others : ∀ (k : String) e, before.state.edges[k]? = some e → e.corpusId ≠ c →
    after.state.edges[k]? = some e
  vectors_of_others : ∀ (k : String) v, before.state.vectors[k]? = some v → v.corpusId ≠ c →
    after.state.vectors[k]? = some v
  passages_of_others : ∀ (k : String) p, before.state.passages[k]? = some p → p.corpusId ≠ c →
    after.state.passages[k]? = some p
  snapshots_of_others : ∀ (k : String), k ≠ c → after.state.snapshots[k]? = before.state.snapshots[k]?
  edges : ∀ (k : String) e, before.state.edges[k]? = some e → e.corpusId = c →
    (∀ id ∈ endpoints e, (before.state.nodes[key c id]?).isSome) →
    after.state.edges[k]? = none ∨ ∀ id ∈ endpoints e, (after.state.nodes[key c id]?).isSome
  vectors : ∀ (k : String) v, before.state.vectors[k]? = some v → v.corpusId = c →
    NodeGone before.state after.state c v.id → after.state.vectors[k]? = none
  values : ∀ (k : String), after.vectorValues[k]? =
    if (before.state.vectors[k]?).isSome ∧ after.state.vectors[k]? = none then none
    else before.vectorValues[k]?

theorem removed_of_gone {state : State} {c : String} {pass : NodePass} (h : Tracks state c pass)
    {k : String} {n : GraphNode} (hn : state.nodes[k]? = some n) (hid : n.nodeId ∉ pass.removedNodeIds) :
    (pass.nodes[k]?).isSome := by
  rcases hm : pass.nodes[k]? with _ | m
  · exact absurd (h.complete k n hn hm) hid
  · rfl

theorem atRemovedNode_iff {c : String} {ids : List String} {e : GraphEdge} (hc : e.corpusId = c) :
    atRemovedNode c ids e = true ↔ ∃ id ∈ endpoints e, id ∈ ids := by
  simp [atRemovedNode, hc, endpoints]

theorem removedNodeIds_cases {state : State} {c d updatedAt id : String}
    (h : id ∈ (finalPass state c d updatedAt).removedNodeIds) :
    id ∈ (nodesOf state c d updatedAt).removedNodeIds ∨ id ∈ orphans state c d updatedAt := by
  rw [finalPass_eq] at h
  exact (foldl_orphanStep _ _).2.2.1 id h

/-- What is no longer an edge was taken by one of the two passes. -/
theorem edge_lost {mem : Memory} {c d updatedAt k : String} {e : GraphEdge}
    (he : mem.state.edges[k]? = some e)
    (hlost : (applyMemoryDeleteDocument mem c d updatedAt).memory.state.edges[k]? = none) :
    removesEdge c (nodesOf mem.state c d updatedAt).removedNodeIds
        (snapshotOf mem.state c d updatedAt).removedFactIds e = true
      ∨ atRemovedNode c (finalPass mem.state c d updatedAt).removedNodeIds e = true := by
  by_contra hkept
  obtain ⟨h1, h2⟩ := not_or.mp hkept
  rw [Bool.not_eq_true] at h1 h2
  cases (apply_edges.mpr ⟨he, h1, h2⟩).symm.trans hlost

/-- An entity of the graph is not among the ids taken before the edges. -/
theorem entity_not_taken {state : State} (h : Keyed state) {c d updatedAt id : String}
    {n : GraphNode} (hn : state.nodes[key c id]? = some n) (hlayer : n.layer = "entity") :
    id ∉ (nodesOf state c d updatedAt).removedNodeIds := by
  intro hmem
  obtain ⟨k, m, hm, rfl, rfl, hnone⟩ := (nodesOf_tracks h c d updatedAt).sound id hmem
  rw [(h.nodes k m hm).1, nodesOf_entity h hn hlayer] at hnone
  cases hnone

theorem delete_document_closed {mem : Memory} (h : Keyed mem.state) (c d updatedAt : String) :
    Closed mem (applyMemoryDeleteDocument mem c d updatedAt).memory c := by
  have htracks := finalPass_tracks h c d updatedAt
  refine {
    nodes_of_others := ?_
    edges_of_others := ?_
    vectors_of_others := ?_
    passages_of_others := ?_
    snapshots_of_others := ?_
    edges := ?_
    vectors := ?_
    values := ?_ }
  · intro k n hn hne
    exact htracks.others k n hn hne
  · intro k e he hne
    refine apply_edges.mpr ⟨he, ?_, ?_⟩
    · simp [removesEdge, atRemovedNode, hne]
    · simp [atRemovedNode, hne]
  · intro k v hv hne
    rw [apply_vectors, hv, Option.bind_some, revised, reviseVector, if_pos (by simpa using hne)]
  · intro k p hp hne
    exact Map.filter_eq_some.mpr ⟨hp, by simp [hne]⟩
  · intro k hk
    change (if (mem.state.snapshots[c]?).isSome then
      mem.state.snapshots.insert c (snapshotOf mem.state c d updatedAt).snapshot
      else mem.state.snapshots)[k]? = mem.state.snapshots[k]?
    split
    · exact Map.getElem?_insert_ne _ (Ne.symm hk) _
    · rfl
  · intro k e he hc hends
    rcases hafter : (applyMemoryDeleteDocument mem c d updatedAt).memory.state.edges[k]? with _ | e'
    · exact .inl rfl
    · right
      obtain ⟨he', -, hremoved⟩ := apply_edges.mp hafter
      obtain rfl := Option.some.inj (he.symm.trans he')
      intro id hid
      obtain ⟨n, hn⟩ := Option.isSome_iff_exists.mp (hends id hid)
      refine removed_of_gone htracks hn ?_
      intro hmem
      rw [(h.node_of_key (plain_of_edge h he hc) hn).2] at hmem
      rw [(atRemovedNode_iff hc).mpr ⟨id, hid, hmem⟩] at hremoved
      cases hremoved
  · rintro k v hv hc ⟨n, hn, hnone⟩
    have hplain : Plain c := hc ▸ (h.vectors k v hv).2
    have hmem := htracks.complete _ n hn hnone
    rw [(h.node_of_key hplain hn).2] at hmem
    rw [apply_vectors, hv, Option.bind_some, revised, reviseVector, if_neg (by simp [hc]),
      if_pos (by simpa using hmem)]
  · intro k
    change (((mem.state.vectors.filter fun _ v => (revised mem.state c d updatedAt v).isNone).keys.foldl
      (fun values k => values.erase k) mem.vectorValues)[k]?) = _
    rw [foldl_erase_getElem?, apply_vectors]
    congr 1
    rw [Std.ExtTreeMap.mem_keys, Map.mem_iff]
    simp only [Map.filter_eq_some, eq_iff_iff]
    constructor
    · rintro ⟨v, hv, hnone⟩
      rw [hv]
      exact ⟨rfl, Option.isNone_iff_eq_none.mp hnone⟩
    · rintro ⟨hsome, hnone⟩
      obtain ⟨v, hv⟩ := Option.isSome_iff_exists.mp hsome
      rw [hv, Option.bind_some] at hnone
      exact ⟨v, hv, by rw [hnone]; rfl⟩

/-- An entity with an `entity:` id that loses an edge, other than one to an entity that goes too, is
removed exactly when nothing mentions it any more. -/
theorem entity_removed_iff {mem : Memory} (h : Keyed mem.state) {c d updatedAt id k : String}
    {n : GraphNode} {e : GraphEdge} (hn : mem.state.nodes[key c id]? = some n)
    (hlayer : n.layer = "entity") (hpre : (stripPrefix id "entity:").isSome)
    (he : mem.state.edges[k]? = some e) (hc : e.corpusId = c) (hend : id ∈ endpoints e)
    (hlost : (applyMemoryDeleteDocument mem c d updatedAt).memory.state.edges[k]? = none)
    (hother : ∀ o ∈ endpoints e, o ≠ id → ¬ ∃ m, mem.state.nodes[key c o]? = some m
      ∧ m.layer = "entity" ∧ (finalPass mem.state c d updatedAt).nodes[key c o]? = none) :
    (finalPass mem.state c d updatedAt).nodes[key c id]? = none
      ↔ ¬ Supported (applyMemoryDeleteDocument mem c d updatedAt).memory.state c id := by
  have hplain := plain_of_edge h he hc
  have hnid := (h.node_of_key hplain hn).2
  have htracks := finalPass_tracks h c d updatedAt
  constructor
  · rintro hgone ⟨k', s, hs, hsup⟩
    obtain ⟨-, -, hremoved⟩ := apply_edges.mp hs
    have hmem := htracks.complete _ n hn hgone
    rw [hnid] at hmem
    rw [supports, Bool.and_eq_true, Bool.and_eq_true] at hsup
    rw [(atRemovedNode_iff (by simpa using hsup.1.1)).mpr
      ⟨id, List.contains_iff_mem.mp hsup.2, hmem⟩] at hremoved
    cases hremoved
  · intro hunsupported
    by_contra hkept
    have hpass : (nodesOf mem.state c d updatedAt).nodes[key c id]? = some n :=
      nodesOf_entity h hn hlayer
    have hnotTaken : id ∉ (nodesOf mem.state c d updatedAt).removedNodeIds :=
      entity_not_taken h hn hlayer
    by_cases hfirst : removesEdge c (nodesOf mem.state c d updatedAt).removedNodeIds
        (snapshotOf mem.state c d updatedAt).removedFactIds e = true
    · -- the entity is a candidate, so an edge that the first pass keeps supports it
      have hcandidate : id ∈ candidatesOf mem.state.edges c
          (snapshotOf mem.state c d updatedAt).removedFactIds (nodesOf mem.state c d updatedAt) :=
        mem_candidatesOf.mpr ⟨⟨k, e, he, hfirst, hend⟩, hpre, hnotTaken, n, hpass, hlayer⟩
      have hnotOrphan : id ∉ orphans mem.state c d updatedAt :=
        fun horphan => hkept (orphan_removed horphan)
      obtain ⟨k', s, hs, hkeptFirst, hsup⟩ : ∃ (k' : String) (s : GraphEdge),
          mem.state.edges[k']? = some s
            ∧ removesEdge c (nodesOf mem.state c d updatedAt).removedNodeIds
                (snapshotOf mem.state c d updatedAt).removedFactIds s = false
            ∧ supports c id s = true := by
        by_contra hnone
        refine hnotOrphan (mem_orphansOf.mpr ⟨hcandidate, ?_⟩)
        intro k' s hs hr
        by_contra hsup
        exact hnone ⟨k', s, hs, hr, by simpa using hsup⟩
      -- and that edge stays: its other end would be an orphan that it supports
      refine hunsupported ⟨k', s, apply_edges.mpr ⟨hs, hkeptFirst, ?_⟩, hsup⟩
      by_contra hremoved
      rw [Bool.not_eq_false] at hremoved
      have hsup' := hsup
      rw [supports, Bool.and_eq_true, Bool.and_eq_true] at hsup'
      have hsc : s.corpusId = c := by simpa using hsup'.1.1
      obtain ⟨o, ho, hor⟩ := (atRemovedNode_iff hsc).mp hremoved
      rcases removedNodeIds_cases hor with htaken | horphan
      · rw [removesEdge, (atRemovedNode_iff hsc).mpr ⟨o, ho, htaken⟩] at hkeptFirst
        cases hkeptFirst
      · have hunsup := (mem_orphansOf.mp horphan).2 k' s hs hkeptFirst
        rw [supports, hsup'.1.1, hsup'.1.2, List.contains_iff_mem.mpr ho] at hunsup
        cases hunsup
    · -- the edge went with an orphan, which is neither this entity nor its other end
      obtain ⟨o, ho, hor⟩ :=
        (atRemovedNode_iff hc).mp ((edge_lost he hlost).resolve_left hfirst)
      by_cases hoid : o = id
      · subst hoid
        rcases removedNodeIds_cases hor with htaken | horphan
        · exact hnotTaken htaken
        · exact hkept (orphan_removed horphan)
      · rcases removedNodeIds_cases hor with htaken | horphan
        · refine hfirst ?_
          rw [removesEdge, (atRemovedNode_iff hc).mpr ⟨o, ho, htaken⟩, Bool.true_or]
        · obtain ⟨-, -, -, m, hm, hmlayer⟩ := mem_candidatesOf.mp (mem_orphansOf.mp horphan).1
          obtain ⟨m', hm', -, -, hlayer'⟩ := (nodesOf_tracks h c d updatedAt).origin _ m hm
          exact hother o ho hoid ⟨m', hm', hlayer'.trans hmlayer, orphan_removed horphan⟩

/-- One passage of a document, and one entity that only it mentions. -/
def mentionEdge (entity : String) : GraphEdge :=
  ⟨"m", "c", entity, "passage:p", "entity_mention", ⟨⟨0⟩, by decide⟩, none⟩

def mentionMemory (entity : String) : Memory where
  state := { State.default with
    nodes := ((∅ : Map GraphNode).insert (key "c" entity)
        ⟨entity, "c", "entity", .obj [], "E"⟩).insert (key "c" "passage:p")
      ⟨"passage:p", "c", "passage", .obj [("metadata", .obj [("documentId", .str "d")])], "P"⟩
    edges := (∅ : Map GraphEdge).insert (key "c" "m") (mentionEdge entity) }
  vectorValues := ∅

theorem mentionMemory_keyed (entity : String) : Keyed (mentionMemory entity).state := by
  have hplain : Plain "c" := by
    unfold Plain
    decide
  refine ⟨?_, ?_, ?_, ?_, ?_⟩
  · intro k n h
    simp only [mentionMemory, getElem?_insert_ite] at h
    split at h
    · next hk =>
      cases h
      exact ⟨hk, hplain⟩
    · split at h
      · next hk =>
        cases h
        exact ⟨hk, hplain⟩
      · simp at h
  · intro k e h
    by_cases hk : key "c" "m" = k
    · subst hk
      rw [show (mentionMemory entity).state.edges[key "c" "m"]? = some (mentionEdge entity) from
        Map.getElem?_insert_self _ _ _] at h
      cases h
      exact ⟨rfl, hplain⟩
    · rw [show (mentionMemory entity).state.edges[k]? = (∅ : Map GraphEdge)[k]? from
        Map.getElem?_insert_ne _ hk _] at h
      simp at h
  · intro k v h
    simp [mentionMemory, State.default] at h
  · intro k p h
    simp [mentionMemory, State.default] at h
  · intro k v h
    simp [mentionMemory, State.default] at h

end DeleteDocument

end AiraGraphdb.Native
