import AiraGraphdb.Native.Bounded.Materialize
import AiraGraphdb.Native.Bounded.Sort

/-! # PPR over the edges of a corpus

The edges are collected and sorted; their endpoints, sorted, are the nodes. Degrees, offsets and
cursors lay the edges out by their source, and the iteration moves the scores along them. -/

namespace AiraGraphdb.Native.Bounded

open Schemes Schemes.Json

/-- What is read of an edge. -/
structure Arc where
  source : String
  target : String
  weight : Finite64
  deriving DecidableEq

def arcOf (edge : GraphEdge) : Arc := ⟨edge.sourceNodeId, edge.targetNodeId, edge.weight⟩

def compareArcs (left right : Arc) : Ordering :=
  (Utf16.cmp left.source right.source).then
    ((Utf16.cmp left.target right.target).then (F64.totalCmp left.weight.1 right.weight.1))

/-- `starts_with` on texts. -/
def hasPrefix (s pat : String) : Bool := Text.startsWith s.toList pat.toList

def requiredStr (value : Value) (name : String) : Run String := orBlank (getStr value name) .client

def requiredU64 (value : Value) (name : String) : Run ℕ := orBlank (getU64 value name) .client

def requiredF64 (value : Value) (name : String) : Run F64 := orBlank (getF64 value name) .client

/-! ### The graph -/

def collectEdges (corpusId : String) (edges : List (String × GraphEdge)) : Run (List Arc) :=
  edges.foldlM (fun kept entry => do
    accountGraphScanUnit
    return if entry.2.corpusId = corpusId then kept ++ [arcOf entry.2] else kept) []

/-- An endpoint that is seen for the first time. -/
def discoverEndpoint (nodeIds : List String) (nodeId : String) : Run (List String) :=
  if nodeId ∈ nodeIds then return nodeIds
  else do
    count .nodesInitialized .resource
    accountGraphScanUnit
    return nodeIds ++ [nodeId]

def discoverArc (nodeIds : List String) (arc : Arc) : Run (List String) := do
  let nodeIds ← discoverEndpoint nodeIds arc.source
  let nodeIds ← discoverEndpoint nodeIds arc.target
  count .edgesVisited .resource
  accountGraphScanUnit
  return nodeIds

/-- The sorted edges and the sorted endpoints of a corpus. -/
def pprGraph (edges : List (String × GraphEdge)) (corpusId : String) (graphNodes graphEdges : ℕ) :
    Run (List String × List Arc) := do
  -- the buffers for the endpoint ids, the node ids and the edges
  beforeAllocation
  beforeAllocation
  beforeAllocation
  beforeAllocation
  beforeAllocation
  beforeAllocation
  let arcs ← collectEdges corpusId edges
  require (arcs.length = graphEdges) .integrity
  let arcs ← canonicalCountedSort compareArcs arcs
  let nodeIds ← arcs.foldlM discoverArc []
  let nodeIds ← canonicalCountedSort Utf16.cmp nodeIds
  require (nodeIds.length = graphNodes) .integrity
  let m ← get
  require (m.work.nodesInitialized = graphNodes ∧ m.work.edgesVisited = graphEdges) .integrity
  return (nodeIds, arcs)

/-! ### The layout -/

section

variable {R : Type} [Arithmetic R]

open Arithmetic

def indexNodes (nodeIds : List String) : Run (Map ℕ) := do
  beforeAllocation
  beforeAllocation
  nodeIds.zipIdx.foldlM (fun index entry => do
    require (entry.1 ∉ index) .integrity
    accountGraphScanUnit
    return index.insert entry.1 entry.2) ∅

structure Degrees (R : Type) where
  out : List ℕ
  into : List ℕ
  weightSums : List R

def countDegrees (index : Map ℕ) (degrees : Degrees R) (arc : Arc) : Run (Degrees R) := do
  let weight : R := ofF64 arc.weight.1
  require (isFinite weight = true ∧ lt weight zero = false) .integrity
  let source ← orFail index[arc.source]? .integrity
  let target ← orFail index[arc.target]? .integrity
  let out ← orFail (checkedAdd (degrees.out.getD source 0) 1) .resource
  let weightSum := add (degrees.weightSums.getD source zero) weight
  require (isFinite weightSum = true) .integrity
  let into ← orFail (checkedAdd (degrees.into.getD target 0) 1) .integrity
  accountGraphScanUnit
  return ⟨degrees.out.set source out, degrees.into.set target into,
    degrees.weightSums.set source weightSum⟩

/-- An edge goes where the cursor of its source points. -/
def placeArc (index : Map ℕ) (placed : List ℕ × List (ℕ × R)) (arc : Arc) :
    Run (List ℕ × List (ℕ × R)) := do
  let source ← orFail index[arc.source]? .integrity
  let target ← orFail index[arc.target]? .integrity
  let position := placed.1.getD source 0
  require (position < placed.2.length) .integrity
  let next ← orFail (checkedAdd position 1) .resource
  accountGraphScanUnit
  return (placed.1.set source next, placed.2.set position (target, ofF64 arc.weight.1))

/-- The edges laid out by their source. -/
structure Csr (R : Type) where
  index : Map ℕ
  degrees : Degrees R
  offsets : List ℕ
  adjacency : List (ℕ × R)

/-- The offsets are the sums of the degrees so far. -/
def pprLayout (nodeIds : List String) (arcs : List Arc) : Run (Csr R) := do
  let index ← indexNodes nodeIds
  let out ← buildCountedGraphVec nodeIds.length fun _ => 0
  let into ← buildCountedGraphVec nodeIds.length fun _ => 0
  let weightSums ← buildCountedGraphVec nodeIds.length fun _ => (zero : R)
  let degrees ← arcs.foldlM (countDegrees index) ⟨out, into, weightSums⟩
  let offsets ← buildCountedGraphVec (nodeIds.length + 1) fun node => (degrees.out.take node).sum
  require (degrees.out.sum = arcs.length) .integrity
  let cursors ← buildCountedGraphVec nodeIds.length fun node => offsets.getD node 0
  let adjacency ← buildCountedGraphVec arcs.length fun _ => (0, (zero : R))
  let (cursors, adjacency) ← arcs.foldlM (placeArc index) (cursors, adjacency)
  forM cursors.zipIdx fun cursor => do
    require (cursor.1 = offsets.getD (cursor.2 + 1) 0) .integrity
    accountGraphScanUnit
  return ⟨index, degrees, offsets, adjacency⟩

/-! ### Damping and teleport -/

def hubDamping (nodeIds : List String) (degrees : Degrees R) (threshold node : ℕ) : R :=
  let total := degrees.out.getD node 0 + degrees.into.getD node 0
  if hasPrefix (nodeIds.getD node "") "schema:" ∧ threshold < total then
    div one (log2 (ofNat (total + 2)))
  else one

def readSeed (seed : Value) : Run (String × F64) := do
  let nodeId ← requiredStr seed "nodeId"
  let score ← requiredF64 seed "score"
  return (nodeId, score)

def sortSeeds (seeds : List (String × F64)) : List (String × F64) :=
  seeds.mergeSort fun left right => (Utf16.cmp left.1 right.1).isLE

/-- The scores of the seeds that are nodes, and their sum. -/
def placeSeed (index : Map ℕ) (placed : List R × R) (seed : String × F64) : List R × R :=
  match index[seed.1]? with
  | some node => (placed.1.set node (ofF64 seed.2), add placed.2 (ofF64 seed.2))
  | none => placed

/-- Every value changed, one unit each. -/
def mapCounted (f : R → R) (values : List R) : Run (List R) :=
  values.foldlM (fun done value => do
    accountGraphScanUnit
    return done ++ [f value]) []

def pprTeleport (plan : Value) (index : Map ℕ) (nodes : ℕ) : Run (List R) := do
  let teleport ← buildCountedGraphVec nodes fun _ => (zero : R)
  let seeds ← orFail (getArray plan "seeds") .client
  let seeds ← seeds.mapM readSeed
  let (teleport, teleportSum) := (sortSeeds seeds).foldl (placeSeed index) (teleport, zero)
  if lt zero teleportSum then mapCounted (fun value => div value teleportSum) teleport
  else mapCounted (fun _ => div one (ofNat nodes)) teleport

/-! ### The iteration -/

/-- What the iterations read. -/
structure PprInput (R : Type) where
  nodes : ℕ
  csr : Csr R
  damping : List R
  teleport : List R
  teleportProbability : R
  epsilon : R

def outgoing (csr : Csr R) (source : ℕ) : List (ℕ × R) :=
  (csr.adjacency.take (csr.offsets.getD (source + 1) 0)).drop (csr.offsets.getD source 0)

/-- The share of a source's score that an edge carries. -/
def share (input : PprInput R) (scores : List R) (source : ℕ) (total : R) (target : ℕ) (weight : R) :
    R :=
  mul (mul (mul (sub one input.teleportProbability) (scores.getD source zero)) (div weight total))
    (input.damping.getD target zero)

def distribute (input : PprInput R) (scores next : List R) (source : ℕ) : Run (List R) := do
  accountGraphScanUnit
  let arcs := outgoing input.csr source
  if arcs = [] then return next
  else
    let total := input.csr.degrees.weightSums.getD source zero
    require (isFinite total = true ∧ le total zero = false) .integrity
    arcs.foldlM (fun next arc => do
      accountGraphScanUnit
      return next.set arc.1 (add (next.getD arc.1 zero)
        (share input scores source total arc.1 arc.2))) next

/-- One more iteration: the next scores, and how far they are from the last ones. -/
def pprIteration (input : PprInput R) (scores : List R) : Run (List R × R) := do
  let next ← buildCountedGraphVec input.nodes fun _ => (zero : R)
  let next ← (List.range input.nodes).foldlM (distribute input scores) next
  let next ← (next.zip input.teleport).foldlM (fun done pair => do
    accountGraphScanUnit
    return done ++ [add pair.1 (mul input.teleportProbability pair.2)]) []
  let l1Delta ← (next.zip scores).foldlM (fun l1Delta pair => do
    require (isFinite pair.1 = true) .integrity
    accountGraphScanUnit
    return add l1Delta (Arithmetic.abs (sub pair.1 pair.2))) (zero : R)
  require (isFinite l1Delta = true) .integrity
  return (next, l1Delta)

structure PprScores (R : Type) where
  scores : List R
  iterations : ℕ
  converged : Bool
  l1Delta : R

/-- The iterations that are left, after so many. -/
def pprIterate (input : PprInput R) (iteration : ℕ) (scores : List R) (l1Delta : R) :
    ℕ → Run (PprScores R)
  | 0 => return ⟨scores, iteration, false, l1Delta⟩
  | left + 1 => do
    let (next, l1Delta) ← pprIteration input scores
    setIterations (iteration + 1)
    if lt l1Delta input.epsilon then return ⟨next, iteration + 1, true, l1Delta⟩
    else pprIterate input (iteration + 1) next l1Delta left

/-- The nodes with their scores. -/
def pprScores (edges : List (String × GraphEdge)) (corpusId : String) (plan : Value)
    (graphNodes graphEdges : ℕ) : Run (List String × PprScores R) := do
  let (nodeIds, arcs) ← pprGraph edges corpusId graphNodes graphEdges
  let csr : Csr R ← pprLayout nodeIds arcs
  let threshold ← requiredU64 plan "hubDegreeThreshold"
  let damping ← buildCountedGraphVec nodeIds.length (hubDamping nodeIds csr.degrees threshold)
  let teleport ← pprTeleport plan csr.index nodeIds.length
  let teleportProbability ← requiredF64 plan "teleportProbability"
  let epsilon ← requiredF64 plan "convergenceEpsilon"
  let iterations ← requiredU64 plan "maxIterations"
  let scores ← buildCountedGraphVec teleport.length fun node => teleport.getD node zero
  let scored ← pprIterate ⟨nodeIds.length, csr, damping, teleport, ofF64 teleportProbability,
    ofF64 epsilon⟩ 0 scores zero iterations
  return (nodeIds, scored)

/-! ### The result -/

structure RankedNode (R : Type) where
  nodeId : String
  score : R
  rank : ℕ
  object : Value

structure PprResult (R : Type) where
  rankedPassages : List (RankedNode R)
  rankedFacts : List (RankedNode R)
  iterations : ℕ
  converged : Bool
  l1Delta : R

def RankedNode.value (object : String) (node : RankedNode R) : Value :=
  (((Value.obj []).set "nodeId" (.str node.nodeId)).set "score" (toJson node.score)).set "rank"
    (numU64 (UInt64.ofNat node.rank)) |>.set object node.object

def PprResult.value (result : PprResult R) : Value :=
  .obj [("converged", .bool result.converged), ("iterations", numU64 (UInt64.ofNat result.iterations)),
    ("l1Delta", toJson result.l1Delta),
    ("rankedFacts", .arr (result.rankedFacts.map (RankedNode.value "fact"))),
    ("rankedPassages", .arr (result.rankedPassages.map (RankedNode.value "passage")))]

/-- A node is offered to the ranking of its kind. -/
def rankNodeScore (passageLimit factLimit : ℕ)
    (kept : List (RankedItem R Unit) × List (RankedItem R Unit)) (node : String × R) :
    List (RankedItem R Unit) × List (RankedItem R Unit) :=
  if hasPrefix node.1 "passage:" then
    (retainBoundedRanked kept.1 node.1 node.2 () passageLimit, kept.2)
  else if hasPrefix node.1 "fact:" then
    (kept.1, retainBoundedRanked kept.2 node.1 node.2 () factLimit)
  else kept

variable [Externals]

def materializeRanked (state : State) (catalog : Catalog) (corpusId sectionName text : String)
    (retained : List (RankedItem R Unit)) : Run (List (RankedNode R)) :=
  (finishBoundedRanking retained).zipIdx.mapM fun entry => do
    let itemId ← orFail (Text.stripPrefix entry.1.id.toList text.toList) .integrity
    let object ← Proc.ofExcept
      (boundedSnapshotItem state catalog corpusId sectionName (String.ofList itemId))
    let object ← materializeDomainObject object
    return ⟨entry.1.id, entry.1.score, entry.2 + 1, object⟩

def pprRank (state : State) (catalog : Catalog) (corpusId : String) (plan : Value)
    (nodeIds : List String) (scored : PprScores R) : Run (PprResult R) := do
  let passageLimit ← requiredU64 plan "passageLimit"
  let factLimit ← requiredU64 plan "entityLimit"
  let passages ← boundedRankHeap
  let facts ← boundedRankHeap
  let (passages, facts) ← (nodeIds.zip scored.scores).foldlM (fun kept node => do
    accountGraphScanUnit
    return rankNodeScore passageLimit factLimit kept node) (passages, facts)
  let rankedPassages ← materializeRanked state catalog corpusId "passages" "passage:" passages
  let rankedFacts ← materializeRanked state catalog corpusId "facts" "fact:" facts
  return ⟨rankedPassages, rankedFacts, scored.iterations, scored.converged, scored.l1Delta⟩

/-- The answer for a corpus without edges. -/
def emptyPpr : PprResult R := ⟨[], [], 0, true, zero⟩

/-- What is bounded before any work is done. -/
def pprAdmission (params : Value) (graphNodes graphEdges : ℕ) : Run Unit := do
  let usage ← orBlank (ResourceUsage.forRequest pprMaterialize params) .resource
  let usage := { usage with graphNodes := graphNodes, graphEdges := graphEdges }
  let _ ← orBlank (guard usage.check) .resource
  let combinedLimit ← orBlank (checkedAdd usage.returnedPassages usage.returnedFacts) .client
  let _ ← orBlank (AllocationInput.check {
    seedEntries := usage.seeds
    resultEntries := combinedLimit
    pprScoreEntries := graphNodes
    pprNodeEntries := graphNodes
    pprEdgeEntries := graphEdges
    heapEntries := combinedLimit
    retainedObjectEntries := combinedLimit
    responseBufferBytes := maxResponseFrameBytes }) .resource
  beforeAllocation

/-- Everything but the last check of the work. -/
def pprBody (state : State) (walk : Walk state) (catalog : Catalog) (params : Value) :
    Run (PprResult R) := do
  let corpusId ← requiredStr params "corpusId"
  let plan ← orBlank (params.get "plan") .client
  let graphNodes := catalog.endpointCountsByCorpus[corpusId]?.getD 0
  let graphEdges := catalog.edgeCountsByCorpus[corpusId]?.getD 0
  pprAdmission params graphNodes graphEdges
  if graphNodes = 0 then return emptyPpr
  else
    let (nodeIds, scored) ← pprScores walk.edges corpusId plan graphNodes graphEdges
    pprRank state catalog corpusId plan nodeIds scored

/-- The answer for an empty graph is given before any work, which has nothing to check. -/
def executePpr (state : State) (walk : Walk state) (catalog : Catalog) (params : Value) :
    Run (PprResult R) := do
  let result ← pprBody state walk catalog params
  checkWork
  return result

end

end AiraGraphdb.Native.Bounded
