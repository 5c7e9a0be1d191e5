import AiraGraphdb.Native.Server

/-! # The reads of the native store

Most reads go through lists of keys, one list for each corpus, node or namespace, which are built
from the maps when a read first needs them after a change. A hash table hands out its entries in an
order of its own; what a read sorts by decides how much of that order a client can see. -/

namespace AiraGraphdb.Native

open Schemes Schemes.Json

/-- What the reads take from elsewhere: the order of a hash table's entries, arithmetic on doubles,
and how often the words of a query occur in a text. -/
class Runtime where
  keyOrder : {α : Type} → Map α → List String
  keyOrder_perm : ∀ {α : Type} (m : Map α), (keyOrder m).Perm m.keys
  cosine : List F64 → List F64 → Finite64
  ge : F64 → F64 → Bool
  tokenScore : String → String → ℕ

section Reads

variable [Externals] [Runtime]

/-! ### Caches -/

/-- The keys of a map under the buckets of their entries, a bucket in the order of the table. -/
def bucketKeys {α : Type} (m : Map α) (buckets : String → α → List String) : Map (List String) :=
  (Runtime.keyOrder m).foldl (fun groups k => match m[k]? with
    | some v => (buckets k v).foldl (fun groups b =>
        groups.insert b ((groups[b]?).getD [] ++ [k])) groups
    | none => groups) ∅

/-- An edge is adjacent to both of its ends. -/
def adjacentBuckets (edge : GraphEdge) : List String :=
  nodeKey edge.corpusId edge.sourceNodeId ::
    if edge.sourceNodeId ≠ edge.targetNodeId then [nodeKey edge.corpusId edge.targetNodeId] else []

def buildCaches (state : State) : Caches where
  nodeKeysByCorpus := bucketKeys state.nodes fun _ n => [n.corpusId]
  edgeKeysByCorpus := bucketKeys state.edges fun _ e => [e.corpusId]
  adjacentEdgeKeysByNode := bucketKeys state.edges fun _ e => adjacentBuckets e
  vectorKeysByCorpusNamespace :=
    bucketKeys state.vectors fun _ v => [corpusNamespaceKey v.corpusId v.namespace]
  passageKeysByCorpus := bucketKeys state.passages fun _ p => [p.corpusId]

def ensureCache (s : Server) : Caches := s.caches.getD (buildCaches s.state)

/-- The entries of one bucket. -/
def bucket {α : Type} (keys : Map (List String)) (m : Map α) (name : String) : List α :=
  ((keys[name]?).getD []).filterMap fun k => m[k]?

/-- Rows in the order of a string of theirs, those with the same string as they came. -/
def sortBy {α : Type} (f : α → String) (xs : List α) : List α :=
  xs.mergeSort fun a b => decide (f a ≤ f b)

/-! ### Graph -/

def getNode (s : Server) (params : Value) : Value :=
  match s.state.nodes[key (paramStr params "corpusId") (paramStr params "nodeId")]? with
  | some node => node.value
  | none => .null

/-- A string parameter that is there restricts the answer. -/
def matchesParam (params : Value) (name : String) (s : String) : Bool :=
  ((params.get name).bind Value.asStr).all (· == s)

def getNodes (s : Server) (params : Value) : Value :=
  let nodes := bucket (ensureCache s).nodeKeysByCorpus s.state.nodes (paramStr params "corpusId")
  .arr ((sortBy GraphNode.nodeId (nodes.filter fun n => matchesParam params "layer" n.layer)).map
    GraphNode.value)

def getEdges (s : Server) (params : Value) : Value :=
  let edges := bucket (ensureCache s).edgeKeysByCorpus s.state.edges (paramStr params "corpusId")
  .arr ((sortBy GraphEdge.edgeId (edges.filter fun e =>
    matchesParam params "sourceNodeId" e.sourceNodeId)).map GraphEdge.value)

def getAdjacent (s : Server) (params : Value) : Value :=
  let edges := bucket (ensureCache s).adjacentEdgeKeysByNode s.state.edges
    (nodeKey (paramStr params "corpusId") (paramStr params "nodeId"))
  .arr ((sortBy GraphEdge.edgeId edges).map GraphEdge.value)

def transitionValue (e : GraphEdge) : Value :=
  .obj [("sourceNodeId", .str e.sourceNodeId), ("targetNodeId", .str e.targetNodeId),
    ("weight", .num (.float e.weight))]

/-- The edges of a corpus as transitions, in the order of their sources. -/
def transitionEdges (s : Server) (params : Value) : List GraphEdge :=
  sortBy GraphEdge.sourceNodeId
    (bucket (ensureCache s).edgeKeysByCorpus s.state.edges (paramStr params "corpusId"))

def projectionGetTransitions (s : Server) (params : Value) : Value :=
  .arr ((transitionEdges s params).map transitionValue)

/-- The nodes of a corpus that no edge of it leaves. -/
def projectionGetDanglingNodes (s : Server) (params : Value) : Value :=
  let edges := bucket (ensureCache s).edgeKeysByCorpus s.state.edges (paramStr params "corpusId")
  let nodes := bucket (ensureCache s).nodeKeysByCorpus s.state.nodes (paramStr params "corpusId")
  let dangling := nodes.filter fun n => !edges.any fun e => e.sourceNodeId == n.nodeId
  .arr ((sortBy id (dangling.map GraphNode.nodeId)).map .str)

/-- The number of keys in the list of a corpus. -/
def projectionGetNodeCount (s : Server) (params : Value) : Value :=
  numU64 (UInt64.ofNat
    (((ensureCache s).nodeKeysByCorpus[paramStr params "corpusId"]?).getD []).length)

/-! ### Vectors -/

def maxVectorSearchTopK : ℕ := 10000

/-- The order of all doubles: by sign, then by magnitude, not-a-numbers at the ends. -/
def totalOrder (x : F64) : ℤ :=
  if x.bits.toNat < 2 ^ 63 then x.bits.toNat else -(x.bits.toNat - 2 ^ 63 : ℤ) - 1

structure ScoredVector where
  key : String
  score : Finite64

/-- A higher score comes first, then the smaller key. -/
def ScoredVector.before (a b : ScoredVector) : Bool :=
  decide (totalOrder b.score.1 < totalOrder a.score.1) ||
    (decide (totalOrder a.score.1 = totalOrder b.score.1) && decide (a.key ≤ b.key))

/-- The score of a key; its values are looked up under the key its record spells. -/
def scoreVector (mem : Memory) (query : List F64) (k : String) : Option ScoredVector :=
  (mem.state.vectors[k]?).map fun record =>
    ⟨k, match mem.vectorValues[key record.corpusId record.id]? with
      | some values => Runtime.cosine query values
      | none => ⟨F64.zero, F64.isFinite_zero⟩⟩

def vectorSearchCandidates (mem : Memory) (keys : List String) (query : List F64)
    (threshold : Option Finite64) (topK : ℕ) : List ScoredVector :=
  let scored := (keys.filterMap (scoreVector mem query)).filter fun hit =>
    threshold.all fun minimum => Runtime.ge hit.score.1 minimum.1
  (scored.mergeSort ScoredVector.before).take topK

def hitValue (hit : ScoredVector) (vector : VectorRecord) : Value :=
  .obj [("id", .str vector.id), ("metadata", vector.metadata), ("score", .num (.float hit.score))]

def searchTopK (params : Value) : Result ℕ := do
  let topK ← match params.get "topK" with
    | none => .ok 10
    | some value => match value.asU64 with
      | some n => .ok n.toNat
      | none => clientError "topK must be a positive integer"
  if topK = 0 ∨ maxVectorSearchTopK < topK then
    clientError ("topK must be in [1, " ++ toString maxVectorSearchTopK ++ "]")
  return topK

def queryVector (params : Value) : Result (List F64) := do
  let values ← match (params.get "queryVector").bind Value.asArray with
    | some values => .ok values
    | none => clientError "queryVector must be an array"
  if values.isEmpty ∨ maxVectorDimensions < values.length then
    clientError ("queryVector dimensions must be in [1, " ++ toString maxVectorDimensions ++ "]")
  values.mapM fun value => match value.asF64 Externals.ofInt with
    | some x => .ok x.1
    | none => clientError "queryVector must contain only finite numbers"

def vectorSearch (s : Server) (params : Value) : Result Value := do
  let topK ← searchTopK params
  let threshold := (params.get "threshold").bind (Value.asF64 Externals.ofInt)
  let query ← queryVector params
  let keys := ((ensureCache s).vectorKeysByCorpusNamespace[corpusNamespaceKey
    (paramStr params "corpusId") (paramStr params "namespace")]?).getD []
  let hits := vectorSearchCandidates s.toMemory keys query threshold topK
  return .arr (hits.filterMap fun hit => (s.state.vectors[hit.key]?).map (hitValue hit))

/-! ### Passages and snapshots -/

/-- More occurrences first, then the smaller id. -/
def passageBefore (a b : ℕ × Passage) : Bool :=
  decide (b.1 < a.1) || (decide (a.1 = b.1) && decide (a.2.passageId ≤ b.2.passageId))

def lexicalSearch (s : Server) (params : Value) : Value :=
  let topK := (((params.get "topK").bind Value.asU64).map UInt64.toNat).getD 10
  let passages := bucket (ensureCache s).passageKeysByCorpus s.state.passages
    (paramStr params "corpusId")
  let scored := (passages.map fun p => (Runtime.tokenScore p.text (paramStr params "query"), p)).filter
    fun p => decide (0 < p.1)
  .arr (((scored.mergeSort passageBefore).take topK).map fun p =>
    .obj [("passageId", .str p.2.passageId), ("score", .num (.float (Externals.ofInt p.1)))])

def memoryLoad (s : Server) (params : Value) : Value :=
  let corpusId := paramStr params "corpusId"
  (s.state.snapshots[corpusId]?).getD (.obj [("corpusId", .str corpusId), ("exportedAt", .str ""),
    ("facts", .arr []), ("passages", .arr []), ("schemaVersion", numU64 1), ("schemas", .arr [])])

/-! ### Answers -/

/-- The reads that are modelled; others have no answer here. -/
def modelledRead (s : Server) (req : RpcRequest) : Option (Result Value) :=
  match req.method with
  | "get_node" => some (.ok (getNode s req.params))
  | "get_nodes" => some (.ok (getNodes s req.params))
  | "get_edges" => some (.ok (getEdges s req.params))
  | "get_adjacent" => some (.ok (getAdjacent s req.params))
  | "vector_search" => some (vectorSearch s req.params)
  | "memory_load" => some (.ok (memoryLoad s req.params))
  | "projection_get_transitions" => some (.ok (projectionGetTransitions s req.params))
  | "projection_get_dangling_nodes" => some (.ok (projectionGetDanglingNodes s req.params))
  | "projection_get_node_count" => some (.ok (projectionGetNodeCount s req.params))
  | "lexical_search" => some (.ok (lexicalSearch s req.params))
  | _ => none

/-- The reads that go through the key lists; a vector search gets to them when its parameters pass. -/
def usesCaches (req : RpcRequest) : Bool :=
  match req.method with
  | "get_nodes" | "get_edges" | "get_adjacent" | "projection_get_transitions"
  | "projection_get_dangling_nodes" | "projection_get_node_count" | "lexical_search" => true
  | "vector_search" => (searchTopK req.params).isOk && (queryVector req.params).isOk
  | _ => false

end Reads

end AiraGraphdb.Native
