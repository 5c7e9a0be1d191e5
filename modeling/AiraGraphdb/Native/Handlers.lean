import AiraGraphdb.Native.Turn
import AiraGraphdb.Schemes.Except

/-! # What the handlers of the mutations leave

One lemma for each fallible handler says what it has done when it succeeds. None of them touches
what a commit publishes: the generation, the descriptor of the blob and the evidence. -/

namespace AiraGraphdb.Native

open Schemes Schemes.Json

theorem expect_ok {α : Type} {x : Option α} {message : String} {a : α} :
    expect x message = .ok a ↔ x = some a := by
  rcases x with _ | b <;> simp [expect]

/-! ### Shapes -/

/-- A node that hydrates a marker of the request: its reference is a stored schema. -/
structure Hydrates (snapshots : Map Value) (marker : Value) (node : GraphNode) : Prop where
  corpusId : (marker.get "corpusId").bind Value.asStr = some node.corpusId
  schema : ∃ schemaId, schemaForHydration snapshots node.corpusId schemaId = .ok node.ref

theorem get_of_asObject {v : Value} {ms : Object} (h : v.asObject = some ms) (k : String) :
    v.get k = lookupKey k ms := by
  cases v with
  | obj ns =>
    cases h
    rfl
  | _ => simp [Value.asObject] at h

theorem hydratedSchemaNodes_ok {snapshots : Map Value} {params : Value} {nodes : List GraphNode}
    (h : hydratedSchemaNodes snapshots params = .ok nodes) :
    ∀ node ∈ nodes, ∃ marker ∈ paramItems params "schemaNodeRefs",
      Hydrates snapshots marker node := by
  intro node hnode
  rw [hydratedSchemaNodes] at h
  split at h
  · cases h
    cases hnode
  · rename_i markers hmarkers
    obtain ⟨marker, hm, h⟩ := exists_of_mapM_ok h hnode
    refine ⟨marker, by rwa [paramItems, hmarkers], ?_⟩
    simp only [bind_ok, expect_ok, Option.bind_eq_some_iff] at h
    obtain ⟨ms, hms, corpusId, hc, schemaId, hs, nodeId, hn, schema, hschema, label, hl, h⟩ := h
    cases h
    refine ⟨?_, schemaId, ?_⟩
    · rw [get_of_asObject hms, Option.bind_eq_some_iff]
      exact hc
    · rcases hf : schemaForHydration snapshots corpusId schemaId with e | v
      · rw [hf] at hschema
        cases hschema
      · rw [hf] at hschema
        cases hschema
        rfl

/-- The nodes of a request, then the hydrated ones. -/
theorem upsertNodes_ok [Externals] {mem mem' : Memory} {params : Value}
    (h : upsertNodes mem params = .ok mem') :
    ∃ parsed hydrated : List GraphNode,
      mem' = { mem with state := { mem.state with
        nodes := (parsed ++ hydrated).foldl insertNode mem.state.nodes } } ∧
      (∀ node ∈ parsed, ∃ item ∈ paramItems params "nodes",
        fromValue GraphNode.read item = some node) ∧
      ∀ node ∈ hydrated, ∃ marker ∈ paramItems params "schemaNodeRefs",
        Hydrates mem.state.snapshots marker node := by
  rw [upsertNodes] at h
  obtain ⟨_, -, h⟩ := bind_ok.mp h
  obtain ⟨hydrated, hh, h⟩ := bind_ok.mp h
  obtain ⟨parsed, hp, h⟩ := bind_ok.mp h
  cases h
  refine ⟨parsed, hydrated, rfl, ?_, hydratedSchemaNodes_ok hh⟩
  intro node hnode
  obtain ⟨item, hitem, h⟩ := exists_of_mapM_ok hp hnode
  refine ⟨item, hitem, ?_⟩
  split at h
  · rename_i hread
    cases h
    exact hread
  · cases h

def insertEdge (edges : Map GraphEdge) (e : GraphEdge) : Map GraphEdge :=
  edges.insert (key e.corpusId e.edgeId) e

theorem upsertEdges_ok [Externals] {mem mem' : Memory} {params : Value}
    (h : upsertEdges mem params = .ok mem') :
    ∃ parsed : List GraphEdge,
      mem' = { mem with state := { mem.state with
        edges := parsed.foldl insertEdge mem.state.edges } } ∧
      ∀ edge ∈ parsed, ∃ item ∈ paramItems params "edges",
        fromValue GraphEdge.read item = some edge := by
  rw [upsertEdges] at h
  obtain ⟨parsed, hp, h⟩ := bind_ok.mp h
  cases h
  refine ⟨parsed, rfl, ?_⟩
  intro edge hedge
  obtain ⟨item, hitem, h⟩ := exists_of_mapM_ok hp hedge
  refine ⟨item, hitem, ?_⟩
  split at h
  · rename_i hread
    cases h
    exact hread
  · cases h

theorem vectorUpsert_ok [Externals] {mem mem' : Memory} {params : Value}
    (h : vectorUpsert mem params = .ok mem') :
    ∃ records : List VectorRecord, mem' = records.foldl insertVector mem ∧
      ∀ record ∈ records, ∃ item ∈ paramItems params "records",
        fromValue VectorRecord.read item = some record := by
  rw [vectorUpsert] at h
  obtain ⟨records, hr, h⟩ := bind_ok.mp h
  cases h
  refine ⟨records, rfl, ?_⟩
  intro record hrecord
  obtain ⟨item, hitem, h⟩ := exists_of_mapM_ok hr hrecord
  refine ⟨item, hitem, ?_⟩
  split at h
  · rename_i hread
    cases h
    exact hread
  · cases h

def insertPassage (corpusId : String) (passages : Map Passage) (p : Passage) : Map Passage :=
  passages.insert (key corpusId p.passageId) p

theorem lexicalPassage_ok {corpusId : String} {item : Value} {p : Passage}
    (h : lexicalPassage corpusId item = .ok p) : p.corpusId = corpusId := by
  rw [lexicalPassage] at h
  split at h
  · dsimp only at h
    split at h
    · cases h
      rfl
    · cases h
  · cases h

theorem lexicalIndexPassages_ok {mem mem' : Memory} {params : Value}
    (h : lexicalIndexPassages mem params = .ok mem') :
    ∃ items : List Passage,
      mem' = { mem with state := { mem.state with
        passages := items.foldl (insertPassage (paramStr params "corpusId")) mem.state.passages } } ∧
      ∀ p ∈ items, p.corpusId = paramStr params "corpusId" := by
  rw [lexicalIndexPassages] at h
  obtain ⟨items, hi, h⟩ := bind_ok.mp h
  cases h
  refine ⟨items, rfl, ?_⟩
  intro p hp
  obtain ⟨item, -, h⟩ := exists_of_mapM_ok hi hp
  exact lexicalPassage_ok h

/-- A mutation of one snapshot. -/
def withSnapshot (mem : Memory) (corpusId : String) (snapshot : Value) : Memory :=
  { mem with state := { mem.state with
    snapshots := mem.state.snapshots.insert corpusId snapshot } }

theorem memoryUpsert_ok {mem mem' : Memory} {params : Value}
    (h : memoryUpsert mem params = .ok mem') :
    ∃ corpusId snapshot, (params.get "corpusId").bind Value.asStr = some corpusId ∧
      upsertedSnapshot mem params corpusId = .ok snapshot ∧
      mem' = withSnapshot mem corpusId snapshot := by
  rw [memoryUpsert] at h
  split at h
  · rename_i corpusId hc
    obtain ⟨_, hok, h⟩ := bind_ok.mp h
    cases hok
    obtain ⟨snapshot, hs, h⟩ := bind_ok.mp h
    cases h
    exact ⟨corpusId, snapshot, hc, hs, rfl⟩
  · cases h

theorem memorySave_ok {mem mem' : Memory} {params : Value} (h : memorySave mem params = .ok mem') :
    ∃ corpusId snapshot, params.get "snapshot" = some snapshot ∧
      (snapshot.get "corpusId").bind Value.asStr = some corpusId ∧
      mem' = withSnapshot mem corpusId snapshot := by
  rw [memorySave] at h
  rcases hs : params.get "snapshot" with _ | snapshot
  · rw [hs] at h
    cases h
  · rw [hs] at h
    dsimp only [Option.getD_some] at h
    split at h
    · rename_i corpusId hc
      cases h
      exact ⟨corpusId, snapshot, rfl, hc, rfl⟩
    · cases h

theorem memorySaveCheckpoint_ok {mem mem' : Memory} {params : Value}
    (h : memorySaveCheckpoint mem params = .ok mem') :
    ∃ jobId checkpoint, params.get "checkpoint" = some checkpoint ∧
      mem' = { mem with state := { mem.state with
        checkpoints := mem.state.checkpoints.insert jobId checkpoint } } := by
  rw [memorySaveCheckpoint] at h
  rcases hc : params.get "checkpoint" with _ | checkpoint
  · rw [hc] at h
    cases h
  · rw [hc] at h
    dsimp only [Option.getD_some] at h
    split at h
    · rename_i jobId hj
      cases h
      exact ⟨jobId, checkpoint, rfl, rfl⟩
    · cases h

/-- The facts of a snapshot after an activation. -/
theorem activateFacts_ok {mem : Memory} {params : Value} {result : Memory × ℕ}
    (h : activateFacts mem params = .ok result) : result.1 = mem ∨
    ∃ corpusId snapshot facts schemaIds updatedAt activated,
      (params.get "corpusId").bind Value.asStr = some corpusId ∧
      mem.state.snapshots[corpusId]? = some snapshot ∧
      (snapshot.get "facts").bind Value.asArray = some facts ∧
      facts.mapM (activateFact schemaIds updatedAt) = .ok activated ∧
      result.1 = withSnapshot mem corpusId
        (snapshot.set "facts" (.arr (activated.map (·.1)))) := by
  rw [activateFacts] at h
  obtain ⟨object, ho, h⟩ := bind_ok.mp h
  obtain ⟨corpusId, hc, h⟩ := bind_ok.mp h
  obtain ⟨schemaIds, -, h⟩ := bind_ok.mp h
  obtain ⟨updatedAt, -, h⟩ := bind_ok.mp h
  obtain ⟨_, -, h⟩ := bind_ok.mp h
  split at h
  · cases h
    exact .inl rfl
  rename_i snapshot hs
  split at h
  · cases h
    exact .inl rfl
  rename_i facts hf
  obtain ⟨activated, ha, h⟩ := bind_ok.mp h
  cases h
  refine .inr ⟨corpusId, snapshot, facts, schemaIds, updatedAt, activated, ?_, hs, hf, ha, rfl⟩
  have hobj : params.asObject = some object := by
    rw [paramsObject] at ho
    split at ho
    · rename_i heq
      cases ho
      exact heq
    · cases ho
  rw [get_of_asObject hobj]
  rw [requiredString] at hc
  obtain ⟨found, hfound, hc⟩ := bind_ok.mp hc
  split at hc
  · cases hc
    rw [optionalString] at hfound
    split at hfound
    · cases hfound
    · rename_i value hv
      split at hfound
      · rename_i str hstr
        cases hfound
        rw [hv, Option.bind_some, hstr]
      · cases hfound
  · cases hc

/-! ### What a commit publishes -/

/-- The same generation, published as the same blob under the same evidence. -/
structure SameCommit (a b : State) : Prop where
  generation : b.generation = a.generation
  vectorBlob : b.vectorBlob = a.vectorBlob
  commitEvidence : b.commitEvidence = a.commitEvidence

theorem SameCommit.refl (a : State) : SameCommit a a := ⟨rfl, rfl, rfl⟩

theorem SameCommit.trans {a b c : State} (h : SameCommit a b) (h' : SameCommit b c) :
    SameCommit a c :=
  ⟨h'.generation.trans h.generation, h'.vectorBlob.trans h.vectorBlob,
    h'.commitEvidence.trans h.commitEvidence⟩

theorem sameCommit_deleteNodes (mem : Memory) (params : Value) :
    SameCommit mem.state (deleteNodes mem params).1.state := by
  rw [deleteNodes]
  refine foldl_keeps (P := fun acc : Memory × ℕ => SameCommit mem.state acc.1.state) (.refl _) ?_
  intro acc _ _ h
  exact h.trans ⟨rfl, rfl, rfl⟩

theorem sameCommit_deleteEdges (mem : Memory) (params : Value) :
    SameCommit mem.state (deleteEdges mem params).1.state := by
  rw [deleteEdges]
  refine foldl_keeps (P := fun acc : Memory × ℕ => SameCommit mem.state acc.1.state) (.refl _) ?_
  intro acc _ _ h
  exact h.trans ⟨rfl, rfl, rfl⟩

theorem sameCommit_insertVectors (mem : Memory) (records : List VectorRecord) :
    SameCommit mem.state (records.foldl insertVector mem).state := by
  refine foldl_keeps (P := fun m : Memory => SameCommit mem.state m.state) (.refl _) ?_
  intro m _ _ h
  exact h.trans ⟨rfl, rfl, rfl⟩

/-- No mutation touches what a commit publishes. -/
theorem applyMutation_sameCommit [Externals] {mem : Memory} {req : RpcRequest} {applied : Applied}
    (h : applyMutation mem req = .ok applied) : SameCommit mem.state applied.memory.state := by
  rw [applyMutation] at h
  split at h
  · obtain ⟨mem', hm, rfl⟩ := map_ok.mp h
    obtain ⟨_, _, rfl, -, -⟩ := upsertNodes_ok hm
    exact ⟨rfl, rfl, rfl⟩
  · obtain ⟨mem', hm, rfl⟩ := map_ok.mp h
    obtain ⟨_, rfl, -⟩ := upsertEdges_ok hm
    exact ⟨rfl, rfl, rfl⟩
  · cases h
    exact sameCommit_deleteNodes mem req.params
  · cases h
    exact sameCommit_deleteEdges mem req.params
  · cases h
    exact ⟨rfl, rfl, rfl⟩
  · cases h
    exact ⟨rfl, rfl, rfl⟩
  · obtain ⟨mem', hm, rfl⟩ := map_ok.mp h
    obtain ⟨records, rfl, -⟩ := vectorUpsert_ok hm
    exact sameCommit_insertVectors mem records
  · cases h
    exact ⟨rfl, rfl, rfl⟩
  · obtain ⟨mem', hm, rfl⟩ := map_ok.mp h
    obtain ⟨_, _, -, -, rfl⟩ := memoryUpsert_ok hm
    exact ⟨rfl, rfl, rfl⟩
  · obtain ⟨mem', hm, rfl⟩ := map_ok.mp h
    obtain ⟨_, _, -, -, rfl⟩ := memorySave_ok hm
    exact ⟨rfl, rfl, rfl⟩
  · obtain ⟨result, hr, h⟩ := bind_ok.mp h
    cases h
    rcases activateFacts_ok hr with heq | ⟨_, _, _, _, _, _, -, -, -, -, heq⟩
    · rw [heq]
      exact .refl _
    · rw [heq]
      exact ⟨rfl, rfl, rfl⟩
  · obtain ⟨_, -, h⟩ := bind_ok.mp h
    obtain ⟨_, -, h⟩ := bind_ok.mp h
    obtain ⟨_, -, h⟩ := bind_ok.mp h
    obtain ⟨_, -, h⟩ := bind_ok.mp h
    cases h
    exact ⟨rfl, rfl, rfl⟩
  · obtain ⟨mem', hm, rfl⟩ := map_ok.mp h
    obtain ⟨_, _, -, rfl⟩ := memorySaveCheckpoint_ok hm
    exact ⟨rfl, rfl, rfl⟩
  · obtain ⟨mem', hm, rfl⟩ := map_ok.mp h
    obtain ⟨_, rfl, -⟩ := lexicalIndexPassages_ok hm
    exact ⟨rfl, rfl, rfl⟩
  · cases h
    exact ⟨rfl, rfl, rfl⟩
  · cases h

end AiraGraphdb.Native
