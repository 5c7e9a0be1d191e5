import AiraGraphdb.Native.Projection
import AiraGraphdb.Native.VectorSearch
import AiraGraphdb.Native.Journal

/-! # Reads through the key lists

The reads that go through key lists build them when they are out of date, and the order of a
corpus's pages with them. Handlers only say that the lists are out of date. Along every run what is
kept is what would be built anew, so that a read never shows an old state. -/

namespace AiraGraphdb.Native

open Schemes Schemes.Json

/-- The tables that the key lists are built from. -/
structure SameTables (a b : State) : Prop where
  nodes : b.nodes = a.nodes
  edges : b.edges = a.edges
  vectors : b.vectors = a.vectors
  passages : b.passages = a.passages

/-! ### Deletes that change nothing -/

namespace DeleteDocument

/-- The changes of nodes that are counted. -/
def DeleteCounts.nodes (c : DeleteCounts) : ℕ :=
  c.removedPassageNodes + c.removedFactNodes + c.removedEntityNodes + c.removedOtherNodes +
    c.prunedSharedNodes + c.prunedOntologyNodes + c.removedOntologyNodes

/-- A pass that has counted no change has made none. -/
def Unchanged (nodes : Map GraphNode) (pass : NodePass) : Prop :=
  pass.counts.nodes = 0 → pass.nodes = nodes

theorem nodes_removeNode (c : DeleteCounts) (layer : String) :
    (c.removeNode layer).nodes = c.nodes + 1 := by
  rw [DeleteCounts.removeNode]
  split_ifs <;> simp only [DeleteCounts.nodes] <;> omega

theorem Unchanged.fateStep {nodes : Map GraphNode} {pass : NodePass} (h : Unchanged nodes pass)
    (documentId updatedAt : String) (removedPassageIds : List String) (s : SnapshotPass)
    (p : String × NodeFate) :
    Unchanged nodes (fateStep documentId updatedAt removedPassageIds s pass p) := by
  rw [DeleteDocument.fateStep]
  rcases pass.nodes[p.1]? with _ | node
  · exact h
  · dsimp only
    cases finalFate s.removedFactIds node p.2 with
    | prune =>
      intro hzero
      simp only [DeleteCounts.nodes] at hzero
      omega
    | remove =>
      intro hzero
      rw [nodes_removeNode] at hzero
      omega

theorem Unchanged.ontologyStep {nodes : Map GraphNode} {pass : NodePass} (h : Unchanged nodes pass)
    (documentId updatedAt : String) (s : SnapshotPass) (k : String) :
    Unchanged nodes (ontologyStep documentId updatedAt s pass k) := by
  rw [DeleteDocument.ontologyStep]
  rcases pass.nodes[k]? with _ | node
  · exact h
  · dsimp only
    rcases firstString (ontologyRef documentId updatedAt s node) "sourceDocumentIds" with _ | first
    · intro hzero
      simp only [DeleteCounts.nodes] at hzero
      omega
    · intro hzero
      simp only [DeleteCounts.nodes] at hzero
      omega

theorem Unchanged.orphanStep {nodes : Map GraphNode} {pass : NodePass} (h : Unchanged nodes pass)
    (corpusId nodeId : String) : Unchanged nodes (orphanStep corpusId pass nodeId) := by
  rw [DeleteDocument.orphanStep]
  rcases pass.nodes[key corpusId nodeId]? with _ | node
  · exact h
  · intro hzero
    simp only [DeleteCounts.nodes] at hzero
    omega

/-- The pass over the nodes of a snapshot whose own counts say nothing of nodes. -/
theorem unchanged_nodePass {state : State} {corpusId documentId updatedAt : String} {sc : Scan}
    {s : SnapshotPass} :
    Unchanged state.nodes (nodePass state corpusId documentId updatedAt sc s) := by
  rw [nodePass]
  refine foldl_keeps (P := Unchanged state.nodes) ?_ fun pass k _ h => h.ontologyStep _ _ _ _
  refine foldl_keeps (P := Unchanged state.nodes) ?_ fun pass p _ h => h.fateStep _ _ _ _ _
  intro _
  rfl

theorem Unchanged.edgePass {nodes : Map GraphNode} {pass : NodePass} (h : Unchanged nodes pass)
    (edges : Map GraphEdge) (corpusId : String) (removedFactIds : List String) :
    Unchanged nodes (edgePass edges corpusId removedFactIds pass).2 := by
  rw [DeleteDocument.edgePass]
  dsimp only
  split
  · exact h
  · exact foldl_keeps (P := Unchanged nodes) h fun pass nodeId _ h => h.orphanStep _ _

/-- The edges that stay are a part of the edges. -/
theorem edgePass_edges (edges : Map GraphEdge) (corpusId : String) (removedFactIds : List String)
    (pass : NodePass) : ∃ keeps : String → GraphEdge → Bool,
      (edgePass edges corpusId removedFactIds pass).1 = edges.filter keeps := by
  rw [edgePass]
  dsimp only
  split
  · exact ⟨_, rfl⟩
  · exact ⟨_, Map.filter_filter _ _ _⟩

/-- A vector that is neither removed nor filed under another document stays as it is. -/
theorem reviseVector_eq_self {corpusId documentId : String} {rekey : Map String}
    {removedNodeIds : List String} {v : VectorRecord}
    (hkept : (reviseVector corpusId documentId rekey removedNodeIds v).isNone = false)
    (hsame : rekeysVector corpusId documentId rekey removedNodeIds v = false) :
    reviseVector corpusId documentId rekey removedNodeIds v = some v := by
  rw [reviseVector] at hkept ⊢
  by_cases hcorpus : (v.corpusId != corpusId) = true
  · rw [if_pos hcorpus]
  rw [if_neg hcorpus] at hkept ⊢
  by_cases hremoved : removedNodeIds.contains v.id = true
  · rw [if_pos hremoved] at hkept
    cases hkept
  rw [if_neg hremoved] at hkept ⊢
  by_cases hdocument : (metadataString v "documentId" != some documentId) = true
  · rw [if_pos hdocument]
  rw [if_neg hdocument] at hkept
  rcases hrekey : rekey[v.id]? with _ | first
  · rw [hrekey] at hkept
    cases hkept
  · have hrekeys : rekeysVector corpusId documentId rekey removedNodeIds v = true := by
      simp only [rekeysVector, hrekey, Option.isSome_some, Bool.and_true, Bool.and_eq_true,
        Bool.not_eq_true']
      refine ⟨⟨?_, by simpa using hremoved⟩, ?_⟩
      · simpa using hcorpus
      · simpa using hdocument
    rw [hrekeys] at hsame
    cases hsame

/-- When nothing is counted, the edges that stay, the revised vectors and the passages that stay are
all of them. -/
theorem tables_of_total {state : State} {corpusId documentId : String}
    {result : Map GraphEdge × NodePass} (hnodes : Unchanged state.nodes result.2)
    (hedges : ∃ keeps : String → GraphEdge → Bool, result.1 = state.edges.filter keeps)
    (h : DeleteCounts.total { result.2.counts with
      removedEdges := state.edges.size - result.1.size
      removedVectors := (state.vectors.filter fun _ v => (reviseVector corpusId documentId
        result.2.rekey result.2.removedNodeIds v).isNone).keys.length
      rekeyedVectors := (state.vectors.filter fun _ v =>
        rekeysVector corpusId documentId result.2.rekey result.2.removedNodeIds v).size
      removedLexicalPassages := state.passages.size - (state.passages.filter fun _ p =>
        !(p.corpusId == corpusId && p.documentId == documentId)).size } = 0) :
    result.2.nodes = state.nodes ∧ result.1 = state.edges
      ∧ (state.vectors.filterMap fun _ v =>
          reviseVector corpusId documentId result.2.rekey result.2.removedNodeIds v) = state.vectors
      ∧ (state.passages.filter fun _ p =>
          !(p.corpusId == corpusId && p.documentId == documentId)) = state.passages := by
  simp only [DeleteCounts.total] at h
  refine ⟨?_, ?_, ?_, Map.filter_eq_of_size (by omega)⟩
  · refine hnodes ?_
    rw [DeleteCounts.nodes]
    omega
  · obtain ⟨keeps, hkeeps⟩ := hedges
    rw [hkeeps] at h ⊢
    exact Map.filter_eq_of_size (by omega)
  · refine Map.filterMap_eq_self ?_
    intro k v hv
    have hremoved : (state.vectors.filter fun _ v => (reviseVector corpusId documentId
        result.2.rekey result.2.removedNodeIds v).isNone).keys = [] :=
      List.length_eq_zero_iff.mp (by omega)
    have hrekeyed : (state.vectors.filter fun _ v => rekeysVector corpusId documentId
        result.2.rekey result.2.removedNodeIds v).size = 0 := by omega
    refine reviseVector_eq_self ?_ ?_
    · by_contra hnone
      have hmem : k ∈ (state.vectors.filter fun _ v => (reviseVector corpusId documentId
          result.2.rekey result.2.removedNodeIds v).isNone).keys := by
        rw [Std.ExtTreeMap.mem_keys, Map.mem_iff]
        exact ⟨v, Map.filter_eq_some.mpr ⟨hv, by simpa using hnone⟩⟩
      rw [hremoved] at hmem
      cases hmem
    · by_contra hsome
      have hmem : k ∈ state.vectors.filter fun _ v => rekeysVector corpusId documentId
          result.2.rekey result.2.removedNodeIds v :=
        Map.mem_iff.mpr ⟨v, Map.filter_eq_some.mpr ⟨hv, by simpa using hsome⟩⟩
      rw [Std.ExtTreeMap.eq_empty_iff_size_eq_zero.mpr hrekeyed] at hmem
      simp at hmem

/-- A delete that leaves the key lists alone leaves the tables alone. -/
theorem sameTables_of_quiet {mem : Memory} {corpusId documentId updatedAt : String}
    (h : (applyMemoryDeleteDocument mem corpusId documentId updatedAt).cacheDirty = false) :
    SameTables mem.state
      (applyMemoryDeleteDocument mem corpusId documentId updatedAt).memory.state := by
  obtain ⟨hnodes, hedges, hvectors, hpassages⟩ := tables_of_total
    (unchanged_nodePass.edgePass _ _ _) (edgePass_edges _ _ _ _) (bne_eq_false_iff_eq.mp h)
  exact ⟨hnodes, hedges, hvectors, hpassages⟩

end DeleteDocument

/-! ### What a mutation leaves of the key lists -/

/-- A mutation that leaves the key lists alone leaves the tables alone. -/
theorem applyMutation_tables [Externals] {mem : Memory} {req : RpcRequest} {applied : Applied}
    (h : applyMutation mem req = .ok applied) (hquiet : applied.cacheDirty = false) :
    SameTables mem.state applied.memory.state := by
  rw [applyMutation] at h
  split at h
  · obtain ⟨_, -, rfl⟩ := map_ok.mp h
    cases hquiet
  · obtain ⟨_, -, rfl⟩ := map_ok.mp h
    cases hquiet
  · cases h
    cases hquiet
  · cases h
    cases hquiet
  · cases h
    cases hquiet
  · cases h
    cases hquiet
  · obtain ⟨_, -, rfl⟩ := map_ok.mp h
    cases hquiet
  · cases h
    cases hquiet
  · obtain ⟨_, -, rfl⟩ := map_ok.mp h
    cases hquiet
  · obtain ⟨mem', hm, rfl⟩ := map_ok.mp h
    obtain ⟨_, _, -, -, rfl⟩ := memorySave_ok hm
    exact ⟨rfl, rfl, rfl, rfl⟩
  · obtain ⟨result, hr, h⟩ := bind_ok.mp h
    cases h
    rcases activateFacts_ok hr with heq | ⟨_, _, _, _, _, _, -, -, -, -, heq⟩
    · rw [heq]
      exact ⟨rfl, rfl, rfl, rfl⟩
    · rw [heq]
      exact ⟨rfl, rfl, rfl, rfl⟩
  · obtain ⟨_, -, h⟩ := bind_ok.mp h
    obtain ⟨_, -, h⟩ := bind_ok.mp h
    obtain ⟨_, -, h⟩ := bind_ok.mp h
    obtain ⟨_, -, h⟩ := bind_ok.mp h
    cases h
    exact DeleteDocument.sameTables_of_quiet hquiet
  · obtain ⟨mem', hm, rfl⟩ := map_ok.mp h
    obtain ⟨_, _, -, rfl⟩ := memorySaveCheckpoint_ok hm
    exact ⟨rfl, rfl, rfl, rfl⟩
  · obtain ⟨_, -, rfl⟩ := map_ok.mp h
    cases hquiet
  · cases h
    cases hquiet
  · cases h

/-! ### Key lists that are up to date -/

section Caches

variable [Runtime]

/-- The bucket of the vector under a key. -/
def vectorBucket (state : State) (k : String) : Option String :=
  (state.vectors[k]?).map fun v => corpusNamespaceKey v.corpusId v.namespace

/-- Tables with the same entries, except that a vector may have another record in the same bucket. -/
structure KeyedAlike (a b : State) : Prop where
  nodes : b.nodes = a.nodes
  edges : b.edges = a.edges
  passages : b.passages = a.passages
  vectors : ∀ k, vectorBucket b k = vectorBucket a k

omit [Runtime] in
theorem SameTables.keyed {a b : State} (h : SameTables a b) : KeyedAlike a b :=
  ⟨h.nodes, h.edges, h.passages, fun k => by rw [vectorBucket, vectorBucket, h.vectors]⟩

/-- The key lists of a state; those of the vectors may be in another order than a new list. -/
structure Caches.Current (c : Caches) (state : State) : Prop where
  nodes : c.nodeKeysByCorpus = (buildCaches state).nodeKeysByCorpus
  edges : c.edgeKeysByCorpus = (buildCaches state).edgeKeysByCorpus
  adjacent : c.adjacentEdgeKeysByNode = (buildCaches state).adjacentEdgeKeysByNode
  passages : c.passageKeysByCorpus = (buildCaches state).passageKeysByCorpus
  vectors : ∀ name : String, (((c.vectorKeysByCorpusNamespace[name]?).getD []).Perm
    (((buildCaches state).vectorKeysByCorpusNamespace[name]?).getD []))

theorem current_buildCaches (state : State) : (buildCaches state).Current state :=
  ⟨rfl, rfl, rfl, rfl, fun _ => .rfl⟩

/-- The keys of a bucket of vectors. -/
theorem vectorKeys_built (state : State) (name : String) :
    ((buildCaches state).vectorKeysByCorpusNamespace[name]?).getD []
      = (Runtime.keyOrder state.vectors).filter fun k => vectorBucket state k == some name := by
  have h := foldl_bucket state.vectors (fun v => corpusNamespaceKey v.corpusId v.namespace) name
    (Runtime.keyOrder state.vectors) ∅
  rw [show ((∅ : Map (List String))[name]?).getD [] = [] by simp, List.nil_append] at h
  refine h.trans (List.filter_congr ?_)
  intro k _
  rw [vectorBucket]
  rcases state.vectors[k]? with _ | v
  · rfl
  · rfl

omit [Runtime] in
theorem mem_keys_of_keyed {a b : State} (h : KeyedAlike a b) (k : String) :
    k ∈ b.vectors.keys ↔ k ∈ a.vectors.keys := by
  have hk := congrArg Option.isSome (h.vectors k)
  rw [vectorBucket, vectorBucket, Option.isSome_map, Option.isSome_map] at hk
  rw [Std.ExtTreeMap.mem_keys, Std.ExtTreeMap.mem_keys, Std.ExtTreeMap.mem_iff_isSome_getElem?,
    Std.ExtTreeMap.mem_iff_isSome_getElem?, hk]

theorem keyOrder_keyed {a b : State} (h : KeyedAlike a b) :
    (Runtime.keyOrder a.vectors).Perm (Runtime.keyOrder b.vectors) := by
  have hkeys : a.vectors.keys.Perm b.vectors.keys := by
    refine (List.perm_ext_iff_of_nodup Std.ExtTreeMap.nodup_keys Std.ExtTreeMap.nodup_keys).mpr ?_
    intro k
    exact (mem_keys_of_keyed h k).symm
  exact ((Runtime.keyOrder_perm _).trans hkeys).trans (Runtime.keyOrder_perm _).symm

/-- The step: lists of tables that look alike stay up to date. -/
theorem Caches.Current.keyed {c : Caches} {a b : State} (h : c.Current a) (hab : KeyedAlike a b) :
    c.Current b := by
  have hnodes : (buildCaches b).nodeKeysByCorpus = (buildCaches a).nodeKeysByCorpus := by
    rw [buildCaches, buildCaches, hab.nodes]
  have hedges : (buildCaches b).edgeKeysByCorpus = (buildCaches a).edgeKeysByCorpus := by
    rw [buildCaches, buildCaches, hab.edges]
  have hadjacent : (buildCaches b).adjacentEdgeKeysByNode
      = (buildCaches a).adjacentEdgeKeysByNode := by
    rw [buildCaches, buildCaches, hab.edges]
  have hpassages : (buildCaches b).passageKeysByCorpus = (buildCaches a).passageKeysByCorpus := by
    rw [buildCaches, buildCaches, hab.passages]
  refine ⟨h.nodes.trans hnodes.symm, h.edges.trans hedges.symm, h.adjacent.trans hadjacent.symm,
    h.passages.trans hpassages.symm, ?_⟩
  intro name
  refine (h.vectors name).trans ?_
  rw [vectorKeys_built, vectorKeys_built]
  simp only [hab.vectors]
  exact (keyOrder_keyed hab).filter _

/-- What a server keeps is up to date. -/
def Server.CachesCurrent (s : Server) : Prop := ∀ c, s.caches = some c → c.Current s.state

theorem Server.CachesCurrent.ensure {s : Server} (h : s.CachesCurrent) :
    (ensureCache s).Current s.state := by
  rw [ensureCache]
  rcases hc : s.caches with _ | c
  · exact current_buildCaches s.state
  · exact h c hc

/-! ### Reads of an up-to-date server -/

/-- The server whose key lists are out of date: its next read builds them anew. -/
def Server.outdated (s : Server) : Server := { s with caches := none }

theorem ensureCache_outdated (s : Server) : ensureCache s.outdated = buildCaches s.state := rfl

/-- The hits of a search do not depend on the order of the keys. -/
theorem vectorSearchCandidates_perm (mem : Memory) {keys keys' : List String}
    (h : keys.Perm keys') (query : List F64) (threshold : Option Finite64) (topK : ℕ) :
    vectorSearchCandidates mem keys query threshold topK
      = vectorSearchCandidates mem keys' query threshold topK := by
  have hscored := (h.filterMap (scoreVector mem query)).filter fun hit =>
    threshold.all fun minimum => Runtime.ge hit.score.1 minimum.1
  rw [vectorSearchCandidates, vectorSearchCandidates]
  rw [VectorSearch.mergeSort_before, VectorSearch.mergeSort_before]
  exact congrArg (List.take topK) (TopK.ranking_eq_of_perm VectorSearch.compareScored hscored
    fun a _ b _ => Std.LawfulEqCmp.eq_of_compare)

/-- The keys a vector search goes through. -/
def vectorSearchKeys (s : Server) (params : Value) : List String :=
  ((ensureCache s).vectorKeysByCorpusNamespace[corpusNamespaceKey (paramStr params "corpusId")
    (paramStr params "namespace")]?).getD []

/-- The passages a lexical search goes through. -/
def lexicalSearchPassages (s : Server) (params : Value) : List Passage :=
  bucket (ensureCache s).passageKeysByCorpus s.state.passages (paramStr params "corpusId")

variable [Externals] {s : Server}

theorem vectorSearch_outdated (h : s.CachesCurrent) (params : Value) :
    vectorSearch s params = vectorSearch s.outdated params := by
  have hkeys := h.ensure.vectors
    (corpusNamespaceKey (paramStr params "corpusId") (paramStr params "namespace"))
  have hhits := fun query threshold topK =>
    vectorSearchCandidates_perm s.toMemory hkeys query threshold topK
  rw [vectorSearch, vectorSearch, ensureCache_outdated]
  dsimp only
  simp only [hhits]
  rfl

/-- A read through the key lists is what it would be through lists built anew. -/
theorem modelledRead_outdated (h : s.CachesCurrent) (req : RpcRequest) :
    modelledRead s req = modelledRead s.outdated req := by
  have hcurrent := h.ensure
  rw [modelledRead, modelledRead]
  split
  · rfl
  · rw [getNodes, getNodes, hcurrent.nodes, ensureCache_outdated]
    rfl
  · rw [getEdges, getEdges, hcurrent.edges, ensureCache_outdated]
    rfl
  · rw [getAdjacent, getAdjacent, hcurrent.adjacent, ensureCache_outdated]
    rfl
  · rw [vectorSearch_outdated h]
  · rfl
  · rw [projectionGetTransitions, projectionGetTransitions, transitionEdges, transitionEdges,
      hcurrent.edges, ensureCache_outdated]
    rfl
  · rw [projectionGetDanglingNodes, projectionGetDanglingNodes, hcurrent.edges, hcurrent.nodes,
      ensureCache_outdated]
    rfl
  · rw [projectionGetNodeCount, projectionGetNodeCount, hcurrent.nodes, ensureCache_outdated]
  · rw [lexicalSearch, lexicalSearch, hcurrent.passages, ensureCache_outdated]
    rfl
  · rfl

/-! ### What a turn leaves of the key lists -/

/-- The lists are dropped; or they are kept or built, and the tables look alike. -/
def CachesAfter (s t : Server) : Prop :=
  t.caches = none ∨
    (t.caches = s.caches ∨ t.caches = some (ensureCache s)) ∧ KeyedAlike s.state t.state

omit [Externals] in
theorem Server.CachesCurrent.after {t : Server} (h : s.CachesCurrent) (ht : CachesAfter s t) :
    t.CachesCurrent := by
  intro c hc
  rcases ht with hnone | ⟨hkept | hbuilt, halike⟩
  · cases hnone.symm.trans hc
  · exact (h c (hkept.symm.trans hc)).keyed halike
  · obtain rfl := Option.some.inj (hbuilt.symm.trans hc)
    exact h.ensure.keyed halike

omit [Externals] [Runtime] in
theorem keyedAlike_rfl (state : State) : KeyedAlike state state := ⟨rfl, rfl, rfl, fun _ => rfl⟩

omit [Externals] [Runtime] in
/-- A commit gives the vectors other references and leaves them where they are. -/
theorem keyedAlike_published (s : Server) (p : Publication) (nextGeneration : UInt64)
    (evidence : StoredCommitEvidence) (walInode : ℕ) :
    KeyedAlike s.state (s.published p nextGeneration evidence walInode).state := by
  refine ⟨rfl, rfl, rfl, ?_⟩
  intro k
  simp only [vectorBucket, Server.published, publishRefs, Std.ExtTreeMap.getElem?_map]
  rcases s.state.vectors[k]? with _ | v
  · rfl
  · rcases p.vectorRefs[k]? with _ | blobRef
    · rfl
    · rfl

variable {answer : Memory → RpcRequest → Result Value} {host : Host} {dir : Dir}

/-- A read and a look at the health leave the lists or build them. -/
theorem handleIncoming_caches {wireBytes : ℕ} {incoming : IncomingRpcRequest} {spec : MethodSpec}
    (hspec : methodSpec incoming.intoRpc.method = some spec)
    (hclass : spec.classification = .health ∨ spec.classification = .read) :
    (handleIncoming answer host dir s wireBytes incoming).server.fatal = true ∨
      (handleIncoming answer host dir s wireBytes incoming).server.caches = s.caches ∨
      (handleIncoming answer host dir s wireBytes incoming).server.caches = some (ensureCache s) := by
  have hmutating : isMutatingMethod incoming.intoRpc.method = false := by
    have hnamed := (methodSpecs_named spec (methodSpec_mem hspec).1).mutation
    rw [isMutatingMethod, hspec]
    rcases hclass with hc | hc
    · simpa [hc] using hnamed
    · simpa [hc] using hnamed
  have hread : (handleRead answer dir s incoming.intoRpc).server.caches = s.caches ∨
      (handleRead answer dir s incoming.intoRpc).server.caches = some (ensureCache s) := by
    rw [handleRead]
    split
    · exact .inl rfl
    · dsimp only
      split
      · exact .inr rfl
      · exact .inl rfl
  have hprepared : (handlePrepared answer host dir s incoming.intoRpc).server.caches = s.caches ∨
      (handlePrepared answer host dir s incoming.intoRpc).server.caches = some (ensureCache s) := by
    rw [handlePrepared]
    split
    · exact .inl rfl
    · rw [hspec]
      dsimp only
      rcases hclass with hc | hc
      · rw [hc]
        rcases s.transaction <;> exact .inl rfl
      · rw [hc]
        rcases s.transaction
        · exact hread
        · exact hread
        · exact hread
        · exact .inl rfl
  simp only [handleIncoming, hmutating]
  split
  · exact .inr (.inl rfl)
  · split
    · split
      · exact .inl rfl
      · exact .inr hprepared
    · rw [if_neg (by simp)]
      exact .inr hprepared

/-- The step: a turn that lets the process go on drops the lists, or it leaves the tables alike. -/
theorem cachesAfter_handleIncoming {wireBytes : ℕ} {incoming : IncomingRpcRequest}
    (hlive : (handleIncoming answer host dir s wireBytes incoming).server.fatal = false) :
    CachesAfter s (handleIncoming answer host dir s wireBytes incoming).server := by
  have hturn : Turn answer host dir s incoming.intoRpc
      (handleIncoming answer host dir s wireBytes incoming) := turn_handleIncoming wireBytes incoming
  have hread : ∀ spec, methodSpec incoming.intoRpc.method = some spec →
      spec.classification = .health ∨ spec.classification = .read →
      (handleIncoming answer host dir s wireBytes incoming).server.fatal = true ∨
        (handleIncoming answer host dir s wireBytes incoming).server.caches = s.caches ∨
        (handleIncoming answer host dir s wireBytes incoming).server.caches
          = some (ensureCache s) := fun _ => handleIncoming_caches
  generalize handleIncoming answer host dir s wireBytes incoming = o at *
  cases hturn with
  | stopped hfatal => cases hlive.symm.trans hfatal
  | refused => exact .inr ⟨.inl rfl, keyedAlike_rfl _⟩
  | answered caches result hspec hclass =>
    refine .inr ⟨?_, keyedAlike_rfl _⟩
    rcases hread _ hspec (hclass.imp id And.left) with hfatal | hcaches
    · cases hlive.symm.trans hfatal
    · exact hcaches
  | began => exact .inr ⟨.inl rfl, keyedAlike_rfl _⟩
  | appendStopped _ _ _ hfatal => cases hlive.symm.trans hfatal
  | @mutated canonical record applied _ _ happlied =>
    rcases hquiet : applied.cacheDirty with _ | _
    · refine .inr ⟨.inl ?_, (applyMutation_tables happlied hquiet).keyed⟩
      simp [Server.mutated, hquiet, Server.logged]
    · exact .inl (by simp [Server.mutated, hquiet])
  | prepared => exact .inr ⟨.inl rfl, keyedAlike_rfl _⟩
  | commitStopped _ _ hfatal => cases hlive.symm.trans hfatal
  | @committed evidence _ wal p =>
    exact .inr ⟨.inl rfl, keyedAlike_published s p (s.state.generation + 1)
      (.fromValidated evidence.commitEvidence) wal.inode⟩
  | discardStopped _ _ hfatal => cases hlive.symm.trans hfatal
  | discarded => exact .inr ⟨.inl rfl, keyedAlike_rfl _⟩

/-! ### Pages -/

/-- The checks that come before a page is put together: the corpus and the offset. -/
def pageParams (s : Server) (req : RpcRequest) : Result (String × UInt64) := do
  let params ← paramsObject req.params
  requireExactParams params ["corpusId", "generation", "offset"]
  let corpusId ← boundedRequiredString params "corpusId" maxIndexingCorpusIdBytes
  let offset ← match (lookupKey "offset" params).bind Value.asU64 with
    | some offset => .ok offset
    | none => clientError "offset must be a nonnegative integer"
  let pinned ← match lookupKey "generation" params with
    | some .null => .ok none
    | some value => match value.asU64 with
      | some generation => .ok (some generation)
      | none => clientError "generation must be null or a nonnegative integer"
    | none => .error (.panic "exact params include generation")
  if pinned.isNone ∧ offset ≠ 0 then clientError "generation may be null only at offset 0"
  if s.transaction ≠ .idle then
    clientError "projection pages require an idle committed generation"
  let committed := s.state.generation
  if pinned.any (· ≠ committed) then
    clientError ("projection page generation " ++ toString (pinned.getD 0).toNat ++
      " does not match committed generation " ++ toString committed.toNat)
  return (corpusId, offset)

/-- A request of a page is checked, and then its page is put together. -/
theorem projectionGetTransitionsPage_params (p : PagedServer) (req : RpcRequest) :
    projectionGetTransitionsPage p req = (pageParams p.server req).bind fun page =>
      projectionPage p req.id page.1 p.server.state.generation page.2 := by
  rw [projectionGetTransitionsPage, pageParams]
  rcases paramsObject req.params with e | params
  · rfl
  simp only [bind, Except.bind]
  rcases requireExactParams params ["corpusId", "generation", "offset"] with e | ⟨⟩
  · rfl
  dsimp only
  rcases boundedRequiredString params "corpusId" maxIndexingCorpusIdBytes with e | corpusId
  · rfl
  dsimp only
  rcases (lookupKey "offset" params).bind Value.asU64 with _ | offset
  · rfl
  dsimp only
  rcases lookupKey "generation" params with _ | generation
  · rfl
  cases generation with
  | null => split_ifs <;> rfl
  | num n =>
    dsimp only
    rcases (Value.num n).asU64 with _ | generation
    · rfl
    · dsimp only
      split_ifs <;> rfl
  | _ => rfl

/-- A page of a state, put together without the help of a server. -/
def pageOf (state : State) (requestId : UInt64) (corpusId : String) (generation offset : UInt64) :
    Result Value := do
  let keys := ((buildCaches state).edgeKeysByCorpus[corpusId]?).getD []
  let order ← pageOrder state.edges keys
  if order.length < offset.toNat ∨ (offset.toNat = order.length ∧ 0 < order.length) then
    clientError "offset is outside the projection"
  let total := UInt64.ofNat order.length
  let arrayLimit ← projectionPageArrayLimit requestId generation offset total
  let entries ← fillPage state.edges keys arrayLimit 2 [] (order.drop offset.toNat)
  let index := offset.toNat + entries.length
  let nextOffset := if index < order.length then numU64 (UInt64.ofNat index) else .null
  return pageValue generation offset nextOffset total entries

variable {p : PagedServer}

omit [Externals] in
/-- An up-to-date server has the order of its edges at hand, or refuses as they are too many. -/
theorem ensureProjectionOrder_cases (h : p.Current) (corpusId : String) :
    (∃ p' order, pageOrder p.server.state.edges
        (((buildCaches p.server.state).edgeKeysByCorpus[corpusId]?).getD []) = .ok order
      ∧ ensureProjectionOrder p corpusId = .ok p' ∧ Ordered p p' corpusId order) ∨
    ∃ failure, pageOrder p.server.state.edges
        (((buildCaches p.server.state).edgeKeysByCorpus[corpusId]?).getD []) = .error failure
      ∧ ensureProjectionOrder p corpusId = .error failure := by
  rcases horder : pageOrder p.server.state.edges
      (((buildCaches p.server.state).edgeKeysByCorpus[corpusId]?).getD []) with failure | order
  · refine .inr ⟨failure, rfl, ?_⟩
    have hcached := h.cached
    have hfound : p.cached.projectionOrderByCorpus[corpusId]? = none := by
      rcases hfound : p.cached.projectionOrderByCorpus[corpusId]? with _ | found
      · rfl
      · cases horder.symm.trans (hcached.orders (by simp [PagedServer.cached]) corpusId found hfound)
    rw [ensureProjectionOrder, hfound, hcached.edgeKeys]
    have hstate : p.cached.server.state = p.server.state := rfl
    rw [hstate]
    rcases hkeys : (buildCaches p.server.state).edgeKeysByCorpus[corpusId]? with _ | keys
    · rw [hkeys] at horder
      cases horder
    · rw [hkeys, Option.getD_some] at horder
      simp only [Option.isSome_none, Bool.false_eq_true, if_false, horder]
      rfl
  · obtain ⟨p', hensure, hordered⟩ := ensureProjectionOrder_ok h horder
    exact .inl ⟨p', order, rfl, hensure, hordered⟩

/-- A page of an up-to-date server is the page of its state. -/
theorem projectionPage_pageOf (h : p.Current) (requestId : UInt64) (corpusId : String)
    (generation offset : UInt64) :
    (projectionPage p requestId corpusId generation offset).map Prod.snd
      = pageOf p.server.state requestId corpusId generation offset := by
  rw [projectionPage, pageOf]
  rcases ensureProjectionOrder_cases h corpusId with
    ⟨p', order, horder, hensure, hordered⟩ | ⟨failure, horder, hensure⟩
  · simp only [horder, hensure, bind, Except.bind, hordered.order, hordered.state,
      hordered.current.edgeKeys]
    split_ifs
    · rfl
    rcases projectionPageArrayLimit requestId generation offset (UInt64.ofNat order.length)
      with failure | limit
    · rfl
    dsimp only
    rcases fillPage p.server.state.edges
      (((buildCaches p.server.state).edgeKeysByCorpus[corpusId]?).getD []) limit 2 []
      (order.drop offset.toNat) with failure | entries
    · rfl
    · rfl
  · simp only [horder, hensure, bind, Except.bind]
    rfl

/-- The read of a page: what is left of the key lists and their orders, and the answer. -/
def readPage (p : PagedServer) (req : RpcRequest) : PagedServer × Result Value :=
  match pageParams p.server req with
  | .error failure => (p, .error failure)
  | .ok page => match ensureProjectionOrder p page.1 with
    | .error failure => (p.cached, .error failure)
    | .ok p' => (p', (projectionPage p req.id page.1 p.server.state.generation page.2).map Prod.snd)

theorem readPage_answer (p : PagedServer) (req : RpcRequest) :
    (readPage p req).2 = (projectionGetTransitionsPage p req).map Prod.snd := by
  rw [projectionGetTransitionsPage_params, readPage]
  rcases pageParams p.server req with failure | page
  · rfl
  dsimp only
  rcases hensure : ensureProjectionOrder p page.1 with failure | p'
  · simp only [Except.bind, projectionPage, hensure]
    rfl
  · rfl

theorem readPage_pageOf (h : p.Current) (req : RpcRequest) :
    (readPage p req).2 = (pageParams p.server req).bind fun page =>
      pageOf p.server.state req.id page.1 p.server.state.generation page.2 := by
  rw [readPage_answer, projectionGetTransitionsPage_params]
  rcases pageParams p.server req with failure | page
  · rfl
  · exact projectionPage_pageOf h req.id page.1 p.server.state.generation page.2

/-- The page server whose key lists are out of date. -/
def PagedServer.outdated (p : PagedServer) : PagedServer := { p with server := p.server.outdated }

omit [Externals] in
theorem current_outdated (p : PagedServer) : p.outdated.Current := current_of_none rfl

/-- A page is what it would be through lists and an order built anew. -/
theorem readPage_outdated (h : p.Current) (req : RpcRequest) :
    (readPage p req).2 = (readPage p.outdated req).2 := by
  rw [readPage_pageOf h, readPage_pageOf (current_outdated p)]
  rfl

/-- The step: the read of a page builds lists and orders that are up to date. -/
theorem PagedServer.Current.readPage (h : p.Current) (req : RpcRequest) :
    (readPage p req).1.Current := by
  rw [AiraGraphdb.Native.readPage]
  rcases pageParams p.server req with failure | page
  · exact h
  dsimp only
  rcases ensureProjectionOrder_cases h page.1 with
    ⟨p', order, -, hensure, hordered⟩ | ⟨failure, -, hensure⟩
  · rw [hensure]
    exact hordered.current
  · rw [hensure]
    exact h.cached

omit [Externals] in
theorem ensureProjectionOrder_server {p' : PagedServer} {corpusId : String}
    (h : ensureProjectionOrder p corpusId = .ok p') : p'.server = p.cached.server := by
  rw [ensureProjectionOrder] at h
  split at h
  · cases h
    rfl
  split at h
  · cases h
    rfl
  · obtain ⟨order, -, h⟩ := bind_ok.mp h
    cases h
    rfl

/-- The read of a page leaves the server, or builds its key lists. -/
theorem readPage_server (p : PagedServer) (req : RpcRequest) :
    (readPage p req).1.server = p.server ∨ (readPage p req).1.server = p.cached.server := by
  rw [readPage]
  rcases pageParams p.server req with failure | page
  · exact .inl rfl
  dsimp only
  rcases hensure : ensureProjectionOrder p page.1 with failure | p'
  · exact .inr rfl
  · exact .inr (ensureProjectionOrder_server hensure)

theorem cachesAfter_readPage (p : PagedServer) (req : RpcRequest) :
    CachesAfter p.server (readPage p req).1.server := by
  rcases readPage_server p req with hkept | hbuilt
  · rw [hkept]
    exact .inr ⟨.inl rfl, keyedAlike_rfl _⟩
  · rw [hbuilt]
    exact .inr ⟨.inr rfl, keyedAlike_rfl _⟩

/-! ### Runs -/

/-- The request of a page that gets to its handler. -/
def admittedPage (s : Server) (frame : Bytes) : Option RpcRequest :=
  match fromSlice IncomingRpcRequest.read frame with
  | none => none
  | some incoming =>
    if incoming.method = "projection_get_transitions_page"
      ∧ frame.length ≤ maxIndexingRequestBytes
      ∧ incoming.progressProtocolVersion = none
      ∧ s.transaction.pending.isNone
      ∧ (validateIndexingRequestSize incoming.intoRpc).isOk then some incoming.intoRpc
    else none

/-- The answers with that of a page among them. -/
def withPages (answer : Memory → RpcRequest → Result Value) (p : PagedServer) (mem : Memory)
    (req : RpcRequest) : Result Value :=
  if req.method = "projection_get_transitions_page" then (readPage p req).2 else answer mem req

/-- The orders go when the key lists are built anew. -/
def PagedServer.over (p : PagedServer) (t : Server) : PagedServer where
  server := t
  projectionOrderByCorpus :=
    if p.server.caches.isNone && t.caches.isSome then ∅ else p.projectionOrderByCorpus

/-- The server with its page orders and the directory take one line after another. -/
def pagedStep (answer : Memory → RpcRequest → Result Value) (c : PagedServer × Dir)
    (input : Host × Bytes) : Option ((PagedServer × Dir) × Option RpcResponse) :=
  (storeStep (withPages answer c.1) (c.1.server, c.2) input).map fun after =>
    ((match admittedPage c.1.server input.2 with
      | some req => (readPage c.1 req).1
      | none => c.1.over after.1.1, after.1.2), after.2)

omit [Externals] in
theorem PagedServer.Current.over {t : Server} (h : p.Current) (ht : CachesAfter p.server t) :
    (p.over t).Current := by
  rcases ht with hnone | ⟨hcaches, halike⟩
  · exact current_of_none hnone
  have hbuilt : (buildCaches t.state).edgeKeysByCorpus
      = (buildCaches p.server.state).edgeKeysByCorpus := by
    rw [buildCaches, buildCaches, halike.edges]
  refine ⟨?_, ?_⟩
  · intro caches hc
    rw [PagedServer.over] at hc ⊢
    dsimp only at hc ⊢
    rw [hbuilt]
    rcases hcaches with hkept | hensured
    · exact h.keys caches (hkept.symm.trans hc)
    · obtain rfl := Option.some.inj (hensured.symm.trans hc)
      exact h.cached.keys _ rfl
  · intro hne corpusId order horder
    rw [PagedServer.over] at hne horder ⊢
    dsimp only at hne horder ⊢
    rw [hbuilt, halike.edges]
    have hsome : t.caches.isSome = true := Option.isSome_iff_ne_none.mpr hne
    rw [hsome, Bool.and_true] at horder
    rcases hc : p.server.caches with _ | caches
    · simp [hc] at horder
    · rw [hc] at horder
      exact h.orders (by simp [hc]) corpusId order horder

/-- The handler of a page gets to its read. -/
theorem handlePrepared_page {p : PagedServer} {req : RpcRequest}
    (hmethod : req.method = "projection_get_transitions_page")
    (hpending : p.server.transaction.pending = none)
    (hsize : (validateIndexingRequestSize req).isOk = true) :
    handlePrepared (withPages answer p) host dir p.server req
      = ⟨dir, p.server, (readPage p req).2⟩ := by
  have hspec : methodSpec "projection_get_transitions_page"
      = some ⟨"projection_get_transitions_page", .read, false, .boundedIndexing⟩ := by rfl
  have hread : handleRead (withPages answer p) dir p.server req
      = ⟨dir, p.server, (readPage p req).2⟩ := by
    rcases hvalid : validateIndexingRequestSize req with failure | ⟨⟩
    · rw [hvalid] at hsize
      cases hsize
    · simp only [handleRead, hvalid, ite_self, usesCaches, modelledRead, withPages, hmethod]
      rfl
  rw [handlePrepared, hmethod, if_neg (by decide), hspec]
  dsimp only
  cases htransaction : p.server.transaction with
  | recoveryPending => simp [htransaction, TransactionState.pending] at hpending
  | _ => exact hread

/-- A page that is admitted is answered by its read, and changes nothing but the key lists. -/
theorem pagedStep_page {c : PagedServer × Dir} {input : Host × Bytes} {req : RpcRequest}
    {after : (PagedServer × Dir) × Option RpcResponse} (hpage : admittedPage c.1.server input.2 = some req)
    (h : pagedStep answer c input = some after) :
    after.1 = ((readPage c.1 req).1, c.2) ∧
      (after.2 = none ∨ after.2 = some ⟨req.id, (readPage c.1 req).2⟩) := by
  obtain ⟨⟨⟨t, dir'⟩, response⟩, hstep, rfl⟩ := Option.map_eq_some_iff.mp h
  rw [hpage]
  dsimp only
  obtain ⟨-, ⟨hkept, hnone | hparse⟩ | ⟨incoming, o, hparse, rfl, hd, hresponse⟩⟩ :=
    storeStep_handled hstep
  · obtain ⟨-, rfl⟩ := Prod.mk.inj hkept
    exact ⟨rfl, .inl hnone⟩
  · rw [admittedPage, hparse] at hpage
    cases hpage
  · simp only [admittedPage, hparse] at hpage
    split_ifs at hpage with hadmitted
    obtain rfl := Option.some.inj hpage
    obtain ⟨hmethod, hbytes, hversion, hpending, hsize⟩ := hadmitted
    have hreq : incoming.intoRpc.method = "projection_get_transitions_page" := hmethod
    have hhandled : handleIncoming (withPages answer c.1) input.1 c.2 c.1.server input.2.length
        incoming = ⟨c.2, c.1.server, (readPage c.1 incoming.intoRpc).2⟩ := by
      simp only [handleIncoming, hversion]
      rw [if_neg (fun hlong => absurd hbytes (by omega)), if_neg (fun hmut => absurd hmut.1 (by rw [hreq]; decide))]
      exact handlePrepared_page hreq (by simpa using hpending) hsize
    rw [hhandled] at hd hresponse
    obtain ⟨-, rfl⟩ := Prod.mk.inj hd
    exact ⟨rfl, .inr hresponse⟩

/-- A server with its pages that is up to date. -/
structure UpToDate (p : PagedServer) : Prop where
  caches : p.server.CachesCurrent
  pages : p.Current

/-- The step: a line that lets the process go on keeps the server up to date. -/
theorem UpToDate.step {c : PagedServer × Dir} {input : Host × Bytes}
    {after : (PagedServer × Dir) × Option RpcResponse} (h : UpToDate c.1)
    (hstep : pagedStep answer c input = some after) (hlive : after.1.1.server.fatal = false) :
    UpToDate after.1.1 := by
  obtain ⟨⟨⟨t, dir'⟩, response⟩, hstore, rfl⟩ := Option.map_eq_some_iff.mp hstep
  rcases hpage : admittedPage c.1.server input.2 with _ | req
  · simp only [hpage] at hlive ⊢
    have hafter : CachesAfter c.1.server t := by
      obtain ⟨-, ⟨hkept, -⟩ | ⟨incoming, o, -, rfl, hd, -⟩⟩ := storeStep_handled hstore
      · obtain ⟨rfl, -⟩ := Prod.mk.inj hkept
        exact .inr ⟨.inl rfl, keyedAlike_rfl _⟩
      · obtain ⟨rfl, -⟩ := Prod.mk.inj hd
        exact cachesAfter_handleIncoming hlive
    exact ⟨h.caches.after hafter, h.pages.over hafter⟩
  · exact ⟨h.caches.after (cachesAfter_readPage c.1 req), h.pages.readPage req⟩

theorem withPages_outdated (h : p.Current) (mem : Memory) (req : RpcRequest) :
    withPages answer p mem req = withPages answer p.outdated mem req := by
  rw [withPages, withPages, readPage_outdated h]

/-- A read is answered as it would be by the server whose key lists are out of date. -/
theorem read_answer_outdated (h : UpToDate p) {wireBytes : ℕ} {incoming : IncomingRpcRequest}
    {spec : MethodSpec} (hspec : methodSpec incoming.method = some spec)
    (hclass : spec.classification = .read) :
    (handleIncoming (withPages answer p) host dir p.server wireBytes incoming).result
      = (handleIncoming (withPages answer p.outdated) host dir p.outdated.server wireBytes
          incoming).result := by
  have hmutating : isMutatingMethod incoming.intoRpc.method = false := by
    have hnamed := (methodSpecs_named spec (methodSpec_mem hspec).1).mutation
    rw [show incoming.intoRpc.method = incoming.method from rfl, isMutatingMethod, hspec]
    simpa [hclass] using hnamed
  have hread : (handleRead (withPages answer p) dir p.server incoming.intoRpc).result
      = (handleRead (withPages answer p.outdated) dir p.outdated.server incoming.intoRpc).result := by
    rw [handleRead, handleRead]
    split
    · rfl
    · dsimp only
      rw [modelledRead_outdated h.caches, withPages_outdated h.pages]
      rfl
  have hprepared : (handlePrepared (withPages answer p) host dir p.server incoming.intoRpc).result
      = (handlePrepared (withPages answer p.outdated) host dir p.outdated.server
          incoming.intoRpc).result := by
    have htransaction : p.outdated.server.transaction = p.server.transaction := rfl
    have hspec' : methodSpec incoming.intoRpc.method = some spec := hspec
    rw [handlePrepared, handlePrepared, hspec', htransaction]
    split
    · rfl
    · dsimp only
      rw [hclass]
      rcases p.server.transaction
      · exact hread
      · exact hread
      · exact hread
      · rfl
  have htransaction : p.outdated.server.transaction = p.server.transaction := rfl
  simp only [handleIncoming, hmutating, htransaction]
  split
  · rfl
  · split
    · split
      · rfl
      · exact hprepared
    · rw [if_neg (by simp), if_neg (by simp)]
      exact hprepared

/-- What a server reads is what key lists and page orders built anew would give. -/
structure ReadsFresh (answer : Memory → RpcRequest → Result Value) (p : PagedServer) : Prop where
  lists : p.server.CachesCurrent
  orders : p.Current
  reads : ∀ req, modelledRead p.server req = modelledRead p.server.outdated req
  candidates : ∀ params,
    (vectorSearchKeys p.server params).Perm (vectorSearchKeys p.server.outdated params)
  passages : ∀ params,
    lexicalSearchPassages p.server params = lexicalSearchPassages p.server.outdated params
  pages : ∀ req, (projectionGetTransitionsPage p req).map Prod.snd
    = (pageParams p.server req).bind fun page =>
      pageOf p.server.state req.id page.1 p.server.state.generation page.2
  answers : ∀ host dir wireBytes incoming spec, methodSpec incoming.method = some spec →
    spec.classification = .read →
    (handleIncoming (withPages answer p) host dir p.server wireBytes incoming).result
      = (handleIncoming (withPages answer p.outdated) host dir p.outdated.server wireBytes
          incoming).result

theorem UpToDate.fresh (h : UpToDate p) : ReadsFresh answer p where
  lists := h.caches
  orders := h.pages
  reads := modelledRead_outdated h.caches
  candidates := fun _ => h.caches.ensure.vectors _
  passages := by
    intro params
    rw [lexicalSearchPassages, lexicalSearchPassages, h.caches.ensure.passages,
      ensureCache_outdated]
    rfl
  pages := by
    intro req
    rw [← readPage_answer, readPage_pageOf h.pages]
  answers := fun _ _ _ _ _ hspec hclass => read_answer_outdated h hspec hclass

omit [Runtime] in
/-- A start has no key lists. -/
theorem caches_start {dbStem : String} {dir after : Dir} {s : Server}
    (h : start dbStem dir = .ok (after, s)) : s.caches = none := by
  obtain ⟨s', hopen, h⟩ := bind_ok.mp h
  obtain ⟨⟨effects, t⟩, hreplay, h⟩ := bind_ok.mp h
  cases h
  have hnone : s'.caches = none := by
    obtain ⟨_, -, hopen⟩ := bind_ok.mp hopen
    obtain ⟨_, -, hopen⟩ := bind_ok.mp hopen
    obtain ⟨_, -, hopen⟩ := bind_ok.mp hopen
    cases hopen
    rfl
  rcases replayWal_cases hreplay with ⟨-, _, _, rfl⟩ | ⟨-, _, _, _, _, _, _, _, rfl⟩
  · exact hnone
  · exact hnone

/-- The run lemma: a server is up to date as long as its process lives. -/
theorem upToDate_run {c₀ c : PagedServer × Dir} {h : List ((Host × Bytes) × Option RpcResponse)}
    (h₀ : UpToDate c₀.1) (run : Trace (pagedStep answer) c₀ h c) :
    c.1.server.fatal = false → UpToDate c.1 := by
  refine run.invariant (P := fun _ c => c.1.server.fatal = false → UpToDate c.1) ?_ ?_
  · intro _
    exact h₀
  · intro h c input response d ih hstep hlive
    have hbefore : c.1.server.fatal = false := by
      obtain ⟨_, hstore, -⟩ := Option.map_eq_some_iff.mp hstep
      exact (storeStep_handled hstore).1
    exact (ih hbefore).step hstep hlive

/-- In every run from every start the reads give what key lists and page orders built anew from the
tables would give. -/
theorem cached_reads_fresh {dbStem : String} {dir : Dir} {c₀ c : PagedServer × Dir}
    {h : List ((Host × Bytes) × Option RpcResponse)}
    (hstart : start dbStem dir = .ok (c₀.2, c₀.1.server)) (run : Trace (pagedStep answer) c₀ h c)
    (hlive : c.1.server.fatal = false) : ReadsFresh answer c.1 := by
  have hnone := caches_start hstart
  have h₀ : UpToDate c₀.1 := by
    refine ⟨?_, current_of_none hnone⟩
    intro caches hc
    cases hnone.symm.trans hc
  exact (upToDate_run h₀ run hlive).fresh

end Caches

attribute [local instance] Concrete.externals Concrete.runtime

/-- The request for the nodes of a corpus, as a line. -/
def nodesLine : Bytes :=
  (Value.obj [("id", numU64 3), ("method", .str "get_nodes"),
    ("params", .obj [("corpusId", .str "c")])]).print floats

/-- A begin, a read that builds the key lists, and a mutation. -/
def readRun : List (Host × Bytes) :=
  [(Concrete.host, Concrete.beginLine), (Concrete.host, nodesLine),
    (Concrete.host, Concrete.idleMutation.value.print floats), (Concrete.host, nodesLine)]

/-- A new store after these lines, and before them. -/
def readRunEnds : Except String ((PagedServer × Dir) × (PagedServer × Dir)) := do
  let opened ← start "a" .empty
  let c ← ofOption (steps (pagedStep Concrete.answer) (⟨opened.2, ∅⟩, opened.1) readRun) "stopped"
  return ((⟨opened.2, ∅⟩, opened.1), c)

theorem cached_reads_fresh_run :
    ∃ (c₀ c : PagedServer × Dir) (h : List ((Host × Bytes) × Option RpcResponse)),
      start "a" .empty = .ok (c₀.2, c₀.1.server) ∧ Trace (pagedStep Concrete.answer) c₀ h c
        ∧ h.map Prod.fst = readRun ∧ c.1.server.caches.isSome = true
        ∧ ReadsFresh Concrete.answer c.1 := by
  have hrun : readRunEnds.toOption.any (fun r =>
      r.2.1.server.caches.isSome && !r.2.1.server.fatal) = true := by
    decide +kernel
  rcases hends : readRunEnds with e | ⟨c₀, c⟩
  · rw [hends] at hrun
    cases hrun
  rw [hends, Except.toOption, Option.any_some, Bool.and_eq_true, Bool.not_eq_true'] at hrun
  obtain ⟨opened, hstart, hends⟩ := bind_ok.mp hends
  obtain ⟨d, hsteps, hends⟩ := bind_ok.mp hends
  cases hends
  obtain ⟨h, hinputs, run⟩ := Trace.nil.of_steps (ofOption_ok.mp hsteps)
  exact ⟨(⟨opened.2, ∅⟩, opened.1), c, h, hstart, run, hinputs, hrun.1,
    cached_reads_fresh hstart run hrun.2⟩

end AiraGraphdb.Native
