import AiraGraphdb.Native.Mutations

/-! # Deleting a document

`memory_delete_document` takes a document out of everything it contributes to: the snapshot of its
corpus, the graph, the vectors and the passages. What is shared with another document is pruned
instead of removed. Every step is total: its shapes were checked before the request was logged. -/

namespace AiraGraphdb.Native

open Schemes Schemes.Json

namespace DeleteDocument

structure DeleteCounts where
  removedPassages : ℕ := 0
  removedFacts : ℕ := 0
  prunedSharedFacts : ℕ := 0
  prunedSchemas : ℕ := 0
  schemaFrequencyAdjusted : ℕ := 0
  removedPassageNodes : ℕ := 0
  removedFactNodes : ℕ := 0
  removedEntityNodes : ℕ := 0
  removedOtherNodes : ℕ := 0
  prunedSharedNodes : ℕ := 0
  prunedOntologyNodes : ℕ := 0
  removedOntologyNodes : ℕ := 0
  removedEdges : ℕ := 0
  removedVectors : ℕ := 0
  rekeyedVectors : ℕ := 0
  removedLexicalPassages : ℕ := 0

def DeleteCounts.total (c : DeleteCounts) : ℕ :=
  c.removedPassages + c.removedFacts + c.prunedSharedFacts + c.prunedSchemas +
    c.schemaFrequencyAdjusted + c.removedPassageNodes + c.removedFactNodes +
    c.removedEntityNodes + c.removedOtherNodes + c.prunedSharedNodes + c.prunedOntologyNodes +
    c.removedOntologyNodes + c.removedEdges + c.removedVectors + c.rekeyedVectors +
    c.removedLexicalPassages

/-! ### String arrays -/

/-- The strings of a kind taken out of an array member, which is otherwise left as it is. -/
def pruneStrings (value : Value) (field : String) (remove : String → Bool) : Value :=
  value.modify field fun array => array.mapItems fun items =>
    items.filter fun item => !item.asStr.any remove

def pruneString (value : Value) (field needle : String) : Value :=
  pruneStrings value field (· == needle)

def pruneIds (value : Value) (field : String) (ids : List String) : Value :=
  pruneStrings value field fun id => ids.contains id

/-- The items of an array member, none when it is no array. -/
def itemsOf (value : Value) (field : String) : List Value :=
  ((value.get field).bind Value.asArray).getD []

/-- All of the passages of a fact, of which there are some, are removed. -/
def losesAllPassages (value : Value) (field : String) (removed : List String) : Bool :=
  !(itemsOf value field).isEmpty &&
    (itemsOf value field).all fun item => item.asStr.any fun id => removed.contains id

/-- The time of the update, only where there was one before. -/
def stampExistingUpdatedAt (value : Value) (updatedAt : String) : Value :=
  value.modify "updatedAt" fun _ => .str updatedAt

def stringArrayContains (value : Value) (field needle : String) : Bool :=
  (itemsOf value field).any fun item => item.asStr == some needle

def firstString (value : Value) (field : String) : Option String :=
  (itemsOf value field).findSome? Value.asStr

/-! ### Ids -/

def stripPrefix (s pre : String) : Option String :=
  if pre.toList.isPrefixOf s.toList then some (String.ofList (s.toList.drop pre.toList.length))
  else none

/-- The fact that a co-occurrence edge is about. -/
def cooccurrenceFactId (edge : GraphEdge) : Option String := do
  if edge.relation ≠ "entity_cooccurrence" then none
  let head ← stripPrefix edge.sourceNodeId "entity:"
  let tail ← stripPrefix edge.targetNodeId "entity:"
  let rest ← stripPrefix edge.edgeId "entity-cooccur:"
  let rest ← stripPrefix rest head
  let rest ← stripPrefix rest ":"
  let rest ← stripPrefix rest tail
  stripPrefix rest ":"

/-- A string member of a node's reference. -/
def refString (node : GraphNode) (field : String) : Option String :=
  (node.ref.get field).bind Value.asStr

def schemaIdOfNode (node : GraphNode) : Option String :=
  (refString node "schemaId").or (stripPrefix node.nodeId "schema:")

def passageIdOfNode (node : GraphNode) : String :=
  ((refString node "passageId").or (stripPrefix node.nodeId "passage:")).getD node.nodeId

def factIdOfNode (node : GraphNode) : String :=
  ((refString node "factId").or (stripPrefix node.nodeId "fact:")).getD node.nodeId

def metadataString (vector : VectorRecord) (field : String) : Option String :=
  (vector.metadata.get field).bind Value.asStr

def isOntologyVector (vector : VectorRecord) : Bool :=
  vector.namespace == "schema" || metadataString vector "layer" == some "ontology"

/-- A passage of the snapshot that belongs to the document. -/
def ownsPassage (documentId : String) (passage : Value) : Bool :=
  ((passage.get "metadata").bind fun m => m.get "documentId").bind Value.asStr == some documentId

def passageIds (passages : List Value) : List String :=
  passages.filterMap fun passage => (passage.get "passageId").bind Value.asStr

/-! ### The scan of the graph -/

/-- What becomes of a node outside the ontology that names the document. -/
inductive NodeFate where
  | remove
  | prune
  deriving DecidableEq

def namesDocument (documentId : String) (node : GraphNode) : Bool :=
  (docIdsFromRef node.ref).any (· == documentId)

def nodeFate (corpusId documentId : String) (node : GraphNode) : Option NodeFate :=
  if node.corpusId != corpusId || node.layer == "ontology" || node.layer == "entity" then none
  else match (node.ref.get "sourceDocumentIds").bind Value.asArray with
    | some ids =>
      if !ids.any fun id => id.asStr == some documentId then none
      else if ids.any fun id => id.asStr.any (· != documentId) then some .prune
      else some .remove
    | none => if namesDocument documentId node then some .remove else none

/-- A shared fact that keeps none of its passages is removed like one that is not shared. -/
def fateOfFact (removedPassageIds : List String) (node : GraphNode) (fate : NodeFate) : NodeFate :=
  if node.layer == "fact" && fate == .prune &&
    losesAllPassages node.ref "passageIds" removedPassageIds then .remove else fate

/-- An ontology node of the corpus that names the document. -/
def namedOntologyNode (corpusId documentId : String) (node : GraphNode) : Bool :=
  node.corpusId == corpusId && node.layer == "ontology" && namesDocument documentId node

/-- What the scan finds. -/
structure Scan where
  fates : Map NodeFate
  removedPassageIds : List String
  removedFactIds : List String
  neededSchemaIds : List String

def scan (state : State) (corpusId documentId : String) : Scan :=
  let first := state.nodes.filterMap fun _ node => nodeFate corpusId documentId node
  let snapshotPassages := match state.snapshots[corpusId]? with
    | some snapshot => (itemsOf snapshot "passages").filter (ownsPassage documentId)
    | none => []
  let nodePassages := (state.nodes.filter fun _ node =>
    nodeFate corpusId documentId node == some .remove && node.layer == "passage").toList.map
      fun p => passageIdOfNode p.2
  let removedPassageIds := nodePassages ++ passageIds snapshotPassages
  let fates := first.filterMap fun k fate => (state.nodes[k]?).map fun node =>
    fateOfFact removedPassageIds node fate
  { fates := fates
    removedPassageIds := removedPassageIds
    removedFactIds := (state.nodes.filter fun k node =>
      node.layer == "fact" && fates[k]? == some .remove).toList.map fun p => factIdOfNode p.2
    neededSchemaIds :=
      (state.nodes.filter fun _ node => namedOntologyNode corpusId documentId node).toList.filterMap
        (fun p => schemaIdOfNode p.2) ++
      (state.vectors.filter fun _ v => v.corpusId == corpusId && isOntologyVector v &&
        metadataString v "documentId" == some documentId).toList.filterMap
          (fun p => stripPrefix p.2.id "schema:") }

/-! ### The snapshot -/

/-- Where the pass over the facts stands. -/
structure FactPass where
  kept : List Value
  schemaIds : List String
  removedFactIds : List String
  /-- The shared facts after the delete, by their ids. -/
  factPost : Map Value
  prunedSharedFacts : ℕ

def factStep (documentId updatedAt : String) (removedPassageIds : List String) (pass : FactPass)
    (fact : Value) : FactPass :=
  if !stringArrayContains fact "sourceDocumentIds" documentId then
    { pass with kept := pass.kept ++ [fact] }
  else
    let fact := pruneString fact "sourceDocumentIds" documentId
    let schemaIds := pass.schemaIds ++ ((fact.get "schemaId").bind Value.asStr).toList
    let factId := (fact.get "factId").bind Value.asStr
    if (firstString fact "sourceDocumentIds").isSome &&
        !losesAllPassages fact "passageIds" removedPassageIds then
      let fact := stampExistingUpdatedAt (pruneIds fact "passageIds" removedPassageIds) updatedAt
      { pass with
        kept := pass.kept ++ [fact]
        schemaIds := schemaIds
        factPost := match factId with
          | some id => pass.factPost.insert id fact
          | none => pass.factPost
        prunedSharedFacts := pass.prunedSharedFacts + 1 }
    else { pass with
      schemaIds := schemaIds
      removedFactIds := pass.removedFactIds ++ factId.toList }

/-- A number of the canonical range. -/
def safe (value : Value) (field : String) : Option UInt64 :=
  ((value.get field).bind Value.asU64).filter fun n => decide (n.toNat ≤ jsonSafeIntegerMax)

/-- The document and its removed facts dropped from a schema, its frequency down by one. -/
def pruneSchemaValue (documentId updatedAt : String) (removedFactIds : List String)
    (schema : Value) : Value × Bool :=
  let schema := pruneIds (pruneString schema "sourceDocumentIds" documentId) "factIds"
    removedFactIds
  match safe schema "frequency" with
  | none => (schema.set "updatedAt" (.str updatedAt), false)
  | some frequency =>
    let next := if frequency = 0 then 0 else frequency - 1
    let schema := schema.set "frequency" (numU64 next)
    let schema := match safe schema "stabilizationThreshold" with
      | some threshold =>
        schema.set "state" (.str (if threshold ≤ next then "stable" else "pending"))
      | none => schema
    (schema.set "updatedAt" (.str updatedAt), true)

/-- Where the pass over the schemas stands. -/
structure SchemaPass where
  schemas : List Value
  /-- The affected and the needed schemas after the delete, by their ids. -/
  schemaPost : Map Value
  prunedSchemas : ℕ
  adjusted : ℕ

def schemaAffected (documentId : String) (removedFactIds factSchemaIds : List String)
    (schema : Value) (schemaId : String) : Bool :=
  stringArrayContains schema "sourceDocumentIds" documentId ||
    ((itemsOf schema "factIds").any fun id => id.asStr.any fun id => removedFactIds.contains id) ||
    factSchemaIds.contains schemaId

def schemaStep (documentId updatedAt : String)
    (removedFactIds factSchemaIds neededSchemaIds : List String) (pass : SchemaPass)
    (schema : Value) : SchemaPass :=
  match (schema.get "schemaId").bind Value.asStr with
  | none => { pass with schemas := pass.schemas ++ [schema] }
  | some schemaId =>
    if schemaAffected documentId removedFactIds factSchemaIds schema schemaId then
      let pruned := pruneSchemaValue documentId updatedAt removedFactIds schema
      { schemas := pass.schemas ++ [pruned.1]
        schemaPost := pass.schemaPost.insert schemaId pruned.1
        prunedSchemas := pass.prunedSchemas + 1
        adjusted := pass.adjusted + if pruned.2 then 1 else 0 }
    else { pass with
      schemas := pass.schemas ++ [schema]
      schemaPost := if neededSchemaIds.contains schemaId then
        pass.schemaPost.insert schemaId schema else pass.schemaPost }

/-- A section of the snapshot replaced, when it is there. -/
def setSection (snapshot : Value) (sect : String) (items : List Value) : Value :=
  snapshot.modify sect fun value => value.mapItems fun _ => items

/-- What the delete does to the snapshot and what the graph has to know of it. -/
structure SnapshotPass where
  snapshot : Value
  removedFactIds : List String
  factPost : Map Value
  schemaPost : Map Value
  counts : DeleteCounts

def snapshotPass (documentId updatedAt : String) (s : Scan) (snapshot : Value) : SnapshotPass :=
  let passages := itemsOf snapshot "passages"
  let keptPassages := passages.filter fun p => !ownsPassage documentId p
  let facts := itemsOf snapshot "facts"
  let factPass := facts.foldl (factStep documentId updatedAt s.removedPassageIds)
    ⟨[], [], s.removedFactIds, ∅, 0⟩
  let schemaPass := (itemsOf snapshot "schemas").foldl
    (schemaStep documentId updatedAt factPass.removedFactIds factPass.schemaIds s.neededSchemaIds)
    ⟨[], ∅, 0, 0⟩
  { snapshot := setSection (setSection (setSection snapshot "passages" keptPassages) "facts"
      factPass.kept) "schemas" schemaPass.schemas
    removedFactIds := factPass.removedFactIds
    factPost := factPass.factPost
    schemaPost := schemaPass.schemaPost
    counts := {
      removedPassages := passages.length - keptPassages.length
      removedFacts := facts.length - factPass.kept.length
      prunedSharedFacts := factPass.prunedSharedFacts
      prunedSchemas := schemaPass.prunedSchemas
      schemaFrequencyAdjusted := schemaPass.adjusted } }

/-! ### The graph -/

/-- Where the pass over the nodes stands; `rekey` names the document that a surviving vector is to
be filed under. -/
structure NodePass where
  nodes : Map GraphNode
  rekey : Map String
  removedNodeIds : List String
  counts : DeleteCounts

/-- A node counted under its layer. -/
def DeleteCounts.removeNode (c : DeleteCounts) (layer : String) : DeleteCounts :=
  if layer = "passage" then { c with removedPassageNodes := c.removedPassageNodes + 1 }
  else if layer = "fact" then { c with removedFactNodes := c.removedFactNodes + 1 }
  else { c with removedOtherNodes := c.removedOtherNodes + 1 }

/-- The reference of a shared node after the delete. -/
def prunedRef (documentId updatedAt : String) (removedPassageIds : List String)
    (factPost : Map Value) (node : GraphNode) : Value :=
  match (refString node "factId").bind fun id => factPost[id]? with
  | some post =>
    if node.layer = "fact" then post
    else stampExistingUpdatedAt (pruneIds (pruneString node.ref "sourceDocumentIds" documentId)
      "passageIds" removedPassageIds) updatedAt
  | none => stampExistingUpdatedAt (pruneIds (pruneString node.ref "sourceDocumentIds" documentId)
      "passageIds" removedPassageIds) updatedAt

/-- The fate of a fact node whose fact went with the snapshot is to be removed. -/
def finalFate (removedFactIds : List String) (node : GraphNode) (fate : NodeFate) : NodeFate :=
  if fate = .prune ∧ node.layer = "fact" ∧
    (refString node "factId").any fun id => removedFactIds.contains id then .remove else fate

def insertFirst (rekey : Map String) (nodeId : String) (ref : Value) : Map String :=
  match firstString ref "sourceDocumentIds" with
  | some first => rekey.insert nodeId first
  | none => rekey

def fateStep (documentId updatedAt : String) (removedPassageIds : List String) (s : SnapshotPass)
    (pass : NodePass) (p : String × NodeFate) : NodePass :=
  match pass.nodes[p.1]? with
  | none => pass
  | some node => match finalFate s.removedFactIds node p.2 with
    | .prune =>
      let ref := prunedRef documentId updatedAt removedPassageIds s.factPost node
      { pass with
        nodes := pass.nodes.insert p.1 { node with ref := ref }
        rekey := insertFirst pass.rekey node.nodeId ref
        counts := { pass.counts with prunedSharedNodes := pass.counts.prunedSharedNodes + 1 } }
    | .remove =>
      { pass with
        nodes := pass.nodes.erase p.1
        removedNodeIds := pass.removedNodeIds ++ [node.nodeId]
        counts := pass.counts.removeNode node.layer }

/-- The ontology nodes that name the document or mirror a schema of the snapshot pass. -/
def isOntologyTarget (corpusId documentId : String) (schemaPost : Map Value) (k : String)
    (node : GraphNode) : Bool :=
  namedOntologyNode corpusId documentId node || (node.layer == "ontology" &&
    schemaPost.keys.any fun schemaId => key corpusId ("schema:" ++ schemaId) == k)

/-- The reference of an ontology node after the delete: its schema's, or its own pruned. -/
def ontologyRef (documentId updatedAt : String) (s : SnapshotPass) (node : GraphNode) : Value :=
  match (schemaIdOfNode node).bind fun id => s.schemaPost[id]? with
  | some post => post
  | none => stampExistingUpdatedAt (pruneIds (pruneString node.ref "sourceDocumentIds" documentId)
      "factIds" s.removedFactIds) updatedAt

/-- An ontology node without a document left is removed. -/
def ontologyStep (documentId updatedAt : String) (s : SnapshotPass) (pass : NodePass)
    (k : String) : NodePass :=
  match pass.nodes[k]? with
  | none => pass
  | some node =>
    let ref := ontologyRef documentId updatedAt s node
    match firstString ref "sourceDocumentIds" with
    | some first =>
      { pass with
        nodes := pass.nodes.insert k { node with ref := ref }
        rekey := pass.rekey.insert node.nodeId first
        counts := { pass.counts with
          prunedOntologyNodes := pass.counts.prunedOntologyNodes + 1 } }
    | none =>
      { nodes := pass.nodes.erase k
        rekey := pass.rekey.erase node.nodeId
        removedNodeIds := pass.removedNodeIds ++ [node.nodeId]
        counts := { pass.counts with
          removedOntologyNodes := pass.counts.removedOntologyNodes + 1 } }

/-- Surviving schema vectors are filed under the first document of their schema. -/
def schemaRekey (schemaPost : Map Value) : Map String :=
  schemaPost.toList.foldl (fun rekey p => insertFirst rekey ("schema:" ++ p.1) p.2) ∅

def nodePass (state : State) (corpusId documentId updatedAt : String) (sc : Scan)
    (s : SnapshotPass) : NodePass :=
  let ontologyKeys := (state.nodes.filter
    (isOntologyTarget corpusId documentId s.schemaPost)).keys
  let pass := sc.fates.toList.foldl (fateStep documentId updatedAt sc.removedPassageIds s)
    ⟨state.nodes, schemaRekey s.schemaPost, [], s.counts⟩
  ontologyKeys.foldl (ontologyStep documentId updatedAt s) pass

/-! ### Edges and entities -/

/-- An edge of the corpus at a removed node. -/
def atRemovedNode (corpusId : String) (removedNodeIds : List String) (edge : GraphEdge) : Bool :=
  edge.corpusId == corpusId && (removedNodeIds.contains edge.sourceNodeId ||
    removedNodeIds.contains edge.targetNodeId)

def removesEdge (corpusId : String) (removedNodeIds removedFactIds : List String)
    (edge : GraphEdge) : Bool :=
  atRemovedNode corpusId removedNodeIds edge || (edge.corpusId == corpusId &&
    (cooccurrenceFactId edge).any fun id => removedFactIds.contains id)

def endpoints (edge : GraphEdge) : List String := [edge.sourceNodeId, edge.targetNodeId]

/-- The entity ends of removed edges. -/
def entityCandidates (corpusId : String) (nodes : Map GraphNode) (removedNodeIds : List String)
    (removedEdges : Map GraphEdge) : List String :=
  (removedEdges.toList.flatMap fun p => endpoints p.2).filter fun nodeId =>
    (stripPrefix nodeId "entity:").isSome && !removedNodeIds.contains nodeId &&
      (nodes[key corpusId nodeId]?).any fun node => node.layer == "entity"

/-- An edge that keeps an entity. -/
def supports (corpusId nodeId : String) (edge : GraphEdge) : Bool :=
  edge.corpusId == corpusId &&
    (edge.relation == "entity_mention" || edge.relation == "entity_cooccurrence") &&
    (endpoints edge).contains nodeId

def orphanStep (corpusId : String) (pass : NodePass) (nodeId : String) : NodePass :=
  match pass.nodes[key corpusId nodeId]? with
  | none => pass
  | some _ =>
    { pass with
      nodes := pass.nodes.erase (key corpusId nodeId)
      removedNodeIds := pass.removedNodeIds ++ [nodeId]
      counts := { pass.counts with removedEntityNodes := pass.counts.removedEntityNodes + 1 } }

/-- The edges that go, and with them the entities that nothing mentions any more. -/
def edgePass (edges : Map GraphEdge) (corpusId : String) (removedFactIds : List String)
    (pass : NodePass) : Map GraphEdge × NodePass :=
  let removes := removesEdge corpusId pass.removedNodeIds removedFactIds
  let kept := edges.filter fun _ edge => !removes edge
  let candidates := entityCandidates corpusId pass.nodes pass.removedNodeIds
    (edges.filter fun _ edge => removes edge)
  if candidates.isEmpty then (kept, pass)
  else
    let orphans := candidates.filter fun nodeId =>
      !kept.toList.any fun p => supports corpusId nodeId p.2
    let pass := orphans.foldl (orphanStep corpusId) pass
    (kept.filter fun _ edge => !atRemovedNode corpusId pass.removedNodeIds edge, pass)

/-! ### Vectors -/

/-- A vector after the delete: kept, filed under another document, or gone. -/
def reviseVector (corpusId documentId : String) (rekey : Map String)
    (removedNodeIds : List String) (vector : VectorRecord) : Option VectorRecord :=
  if vector.corpusId != corpusId then some vector
  else if removedNodeIds.contains vector.id then none
  else if metadataString vector "documentId" != some documentId then some vector
  else (rekey[vector.id]?).map fun first =>
    { vector with metadata := vector.metadata.set "documentId" (.str first) }

/-- A vector that is filed under another document. -/
def rekeysVector (corpusId documentId : String) (rekey : Map String)
    (removedNodeIds : List String) (vector : VectorRecord) : Bool :=
  vector.corpusId == corpusId && !removedNodeIds.contains vector.id &&
    metadataString vector "documentId" == some documentId && (rekey[vector.id]?).isSome

/-! ### The whole -/

/-- What the document leaves when its corpus has no snapshot. -/
def noSnapshot (s : Scan) : SnapshotPass := ⟨.null, s.removedFactIds, ∅, ∅, {}⟩

def count (n : ℕ) : Value := numU64 (UInt64.ofNat n)

def answer (corpusId documentId : String) (c : DeleteCounts) : Value :=
  .obj [("corpusId", .str corpusId), ("documentId", .str documentId),
    ("noop", .bool (c.total == 0)), ("prunedOntologyNodes", count c.prunedOntologyNodes),
    ("prunedSchemas", count c.prunedSchemas), ("prunedSharedFacts", count c.prunedSharedFacts),
    ("prunedSharedNodes", count c.prunedSharedNodes), ("rekeyedVectors", count c.rekeyedVectors),
    ("removedEdges", count c.removedEdges), ("removedEntityNodes", count c.removedEntityNodes),
    ("removedFactNodes", count c.removedFactNodes), ("removedFacts", count c.removedFacts),
    ("removedLexicalPassages", count c.removedLexicalPassages),
    ("removedOntologyNodes", count c.removedOntologyNodes),
    ("removedOtherNodes", count c.removedOtherNodes),
    ("removedPassageNodes", count c.removedPassageNodes),
    ("removedPassages", count c.removedPassages), ("removedVectors", count c.removedVectors),
    ("schemaFrequencyAdjusted", count c.schemaFrequencyAdjusted)]

def applyMemoryDeleteDocument (mem : Memory) (corpusId documentId updatedAt : String) : Applied :=
  let state := mem.state
  let sc := scan state corpusId documentId
  let s := match state.snapshots[corpusId]? with
    | some snapshot => snapshotPass documentId updatedAt sc snapshot
    | none => noSnapshot sc
  let snapshots := if (state.snapshots[corpusId]?).isSome then
    state.snapshots.insert corpusId s.snapshot else state.snapshots
  let edgesAndNodes := edgePass state.edges corpusId s.removedFactIds
    (nodePass state corpusId documentId updatedAt sc s)
  let pass := edgesAndNodes.2
  let revise := reviseVector corpusId documentId pass.rekey pass.removedNodeIds
  let removedVectorKeys := (state.vectors.filter fun _ v => (revise v).isNone).keys
  let passages := state.passages.filter fun _ p =>
    !(p.corpusId == corpusId && p.documentId == documentId)
  let counts := { pass.counts with
    removedEdges := state.edges.size - edgesAndNodes.1.size
    removedVectors := removedVectorKeys.length
    rekeyedVectors := (state.vectors.filter fun _ v =>
      rekeysVector corpusId documentId pass.rekey pass.removedNodeIds v).size
    removedLexicalPassages := state.passages.size - passages.size }
  { memory := {
      state := { state with
        nodes := pass.nodes
        edges := edgesAndNodes.1
        vectors := state.vectors.filterMap fun _ v => revise v
        passages := passages
        snapshots := snapshots }
      vectorValues := removedVectorKeys.foldl (fun values k => values.erase k) mem.vectorValues }
    cacheDirty := counts.total != 0
    result := answer corpusId documentId counts }

end DeleteDocument

/-! ### Every mutation -/

section Apply

variable [Externals]

/-- A mutation that answers nothing. -/
def Applied.plain (memory : Memory) : Applied := ⟨memory, true, .null⟩

/-- A mutation that answers how many it removed. -/
def Applied.counted (p : Memory × ℕ) : Applied := ⟨p.1, true, numU64 (UInt64.ofNat p.2)⟩

/-- A mutation that the keys of the reads do not depend on. -/
def Applied.quiet (memory : Memory) : Applied := ⟨memory, false, .null⟩

/-- The snapshot of the corpus has facts to go through. -/
def storesFacts (mem : Memory) (params : Value) : Bool :=
  ((mem.state.snapshots[paramStr params "corpusId"]?).bind fun snapshot =>
    (snapshot.get "facts").bind Value.asArray).isSome

/-- What a validated mutation does. Validation leaves no handler a way to fail after its first
change. -/
def applyMutation (mem : Memory) (req : RpcRequest) : Result Applied :=
  match req.method with
  | "upsert_nodes" => (upsertNodes mem req.params).map .plain
  | "upsert_edges" => (upsertEdges mem req.params).map .plain
  | "delete_nodes" => .ok (.counted (deleteNodes mem req.params))
  | "delete_edges" => .ok (.counted (deleteEdges mem req.params))
  | "delete_by_document" =>
    let after := deleteByDocument mem req.params
    .ok ⟨after, true, deletedCounts mem.state after.state⟩
  | "delete_by_corpus" =>
    let after := deleteByCorpus mem req.params
    .ok ⟨after, true, deletedCounts mem.state after.state⟩
  | "vector_upsert" => (vectorUpsert mem req.params).map .plain
  | "vector_delete_by_document" => .ok (.plain (vectorDeleteByDocument mem req.params))
  | "memory_upsert" => (memoryUpsert mem req.params).map .plain
  | "memory_save" => (memorySave mem req.params).map .quiet
  | "memory_activate_facts_by_schema_ids" => do
    let activated ← activateFacts mem req.params
    return ⟨activated.1, storesFacts mem req.params,
      .obj [("activated", numU64 (UInt64.ofNat activated.2))]⟩
  | "memory_delete_document" => do
    let params ← paramsObject req.params
    let corpusId ← requiredString params "corpusId"
    let documentId ← requiredString params "documentId"
    let updatedAt ← requiredString params "updatedAt"
    return DeleteDocument.applyMemoryDeleteDocument mem corpusId documentId updatedAt
  | "memory_save_checkpoint" => (memorySaveCheckpoint mem req.params).map .quiet
  | "lexical_index_passages" => (lexicalIndexPassages mem req.params).map .plain
  | "lexical_delete_by_document" => .ok (.plain (lexicalDeleteByDocument mem req.params))
  | method => .error (.app (unsupportedMethodError method))

end Apply

end AiraGraphdb.Native
