import AiraGraphdb.Native.Blob
import AiraGraphdb.Native.Snapshot

/-! # The mutations of the native store

What a mutation may read and change is the `Memory`: the maps of the state and the decoded vector
values. `validateMutationParams` is the whole of what is checked before a request is logged;
`applyMutation` is what it does once it is. -/

namespace AiraGraphdb.Native

open Schemes Schemes.Json

/-- The state and the values of its vectors. -/
structure Memory where
  state : State
  vectorValues : Map (List F64)

/-- What a mutation leaves: the memory, whether the key lists of the reads are out of date, and the
answer. -/
structure Applied where
  memory : Memory
  cacheDirty : Bool
  result : Value

/-! ### Keys and document ids -/

def key (corpusId id : String) : String := corpusId ++ ":" ++ id

def nodeKey (corpusId nodeId : String) : String := corpusId ++ ":" ++ nodeId

def corpusNamespaceKey (corpusId sp : String) : String := corpusId ++ ":" ++ sp

/-- A string parameter, empty when it is not there or no string. -/
def paramStr (params : Value) (name : String) : String :=
  ((params.get name).bind Value.asStr).getD ""

/-- An array parameter, empty when it is not there or no array. -/
def paramItems (params : Value) (name : String) : List Value :=
  ((params.get name).bind Value.asArray).getD []

/-- The documents a node's reference names. -/
def docIdsFromRef (value : Value) : List String :=
  match (value.get "sourceDocumentIds").bind Value.asArray with
  | some ids => ids.filterMap Value.asStr
  | none => (((value.get "metadata").bind fun m => m.get "documentId").bind Value.asStr).toList

/-- The document a vector belongs to, empty when its metadata names none. -/
def vectorDocument (vector : VectorRecord) : String :=
  ((vector.metadata.get "documentId").bind Value.asStr).getD ""

/-- The vectors without those of a kind, and their values with them. -/
def removeVectors (mem : Memory) (remove : VectorRecord → Bool) : Memory :=
  let removedVectorKeys := (mem.state.vectors.filter fun _ v => remove v).keys
  { state := { mem.state with vectors := mem.state.vectors.filter fun _ v => !remove v }
    vectorValues := removedVectorKeys.foldl (fun values k => values.erase k) mem.vectorValues }

section Mutations

variable [Externals]

/-! ### Validation -/

/-- Every item is read as a record. -/
def validateRecords {α : Type} (params : Object) (name : String) (d : Reader α)
    (label : String) (check : α → Result Unit) : Result Unit := do
  match ← optionalArray params name with
  | none => return ()
  | some items => checkAll (fun item => match fromValue d item with
      | some record => check record
      | none => clientError ("invalid " ++ label)) items

def validateVectorRecord (record : VectorRecord) : Result Unit :=
  if maxVectorDimensions < record.values.length then
    clientError ("vector dimensions must not exceed " ++ toString maxVectorDimensions)
  else if record.values.any fun value => !value.isFinite then
    clientError "vector values must be finite numbers"
  else .ok ()

/-- An item of a memory upsert; its id is what it is told apart by. -/
def validateUpsertItem (sect idKey : String) (item : Value) : Result String := do
  let object ← match item.asObject with
    | some object => .ok object
    | none => clientError (sect ++ " items must be objects")
  let id ← match (lookupKey idKey object).bind Value.asStr with
    | some id => .ok id
    | none => clientError ("missing " ++ sect ++ "." ++ idKey)
  if !isBounded id maxIndexingDomainIdBytes then
    clientError (sect ++ "." ++ idKey ++ " must contain between 1 and " ++
      toString maxIndexingDomainIdBytes ++ " bytes")
  return id

/-- The checks of an item that come after its id is known to be new. -/
def validateUpsertItemContent (corpusId sect : String) (item : Value) : Result Unit := do
  let object := item.asObject.getD []
  validateEmbeddedCorpus object corpusId sect
  if sect = "facts" then validateFactSchemaAndState object "facts item"

/-- The items of one section, in order. -/
def validateUpsertItems (corpusId sect idKey : String) (seen : List String) :
    List Value → Result Unit
  | [] => .ok ()
  | item :: items => do
    let id ← validateUpsertItem sect idKey item
    if id ∈ seen then
      clientError (sect ++ " must not contain duplicate " ++ idKey ++ " values")
    validateUpsertItemContent corpusId sect item
    validateUpsertItems corpusId sect idKey (seen ++ [id]) items

def validateUpsertSection (params : Object) (corpusId sect idKey : String) : Result Unit := do
  match ← optionalArray params sect with
  | none => return ()
  | some items =>
    if maxIndexingDeltaItemsPerSection < items.length then
      clientError (sect ++ " length must not exceed " ++
        toString maxIndexingDeltaItemsPerSection)
    validateUpsertItems corpusId sect idKey [] items

def validateMemoryUpsert (mem : Memory) (req : RpcRequest) (params : Object) : Result Unit := do
  validateIndexingRequestSize req
  rejectUnknownParams params
    ["corpusId", "passages", "facts", "schemas", "schemaMerges", "exportedAt"]
  let corpusId ← boundedRequiredString params "corpusId" maxIndexingCorpusIdBytes
  if (lookupKey "schemaMerges" params).isSome ∧ (lookupKey "schemas" params).isSome then
    clientError "schemas and schemaMerges are mutually exclusive"
  checkAll (fun s => validateUpsertSection params corpusId s.1 s.2) snapshotSections
  match lookupKey "exportedAt" params with
  | none => pure ()
  | some exportedAt =>
    match exportedAt.asStr with
    | some value =>
      if maxIndexingUpdatedAtBytes < value.utf8ByteSize then
        clientError ("exportedAt must contain at most " ++ toString maxIndexingUpdatedAtBytes ++
          " bytes")
    | none => clientError ("exportedAt must contain at most " ++
        toString maxIndexingUpdatedAtBytes ++ " bytes")
  validateStoredSnapshotForUpsert mem.state.snapshots corpusId
  match ← optionalArray params "schemaMerges" with
  | none => return ()
  | some intents => validateSchemaMergeIntents mem.state.snapshots corpusId intents

def validateActivateFacts (mem : Memory) (req : RpcRequest) (params : Object) : Result Unit := do
  validateIndexingRequestSize req
  requireExactParams params ["corpusId", "schemaIds", "updatedAt"]
  let corpusId ← boundedRequiredString params "corpusId" maxIndexingCorpusIdBytes
  let _ ← boundedUniqueIds params "schemaIds" maxIndexingSchemaIds false
  let _ ← boundedRequiredString params "updatedAt" maxIndexingUpdatedAtBytes
  validateStoredFactsForActivation mem.state.snapshots corpusId

def validateMemoryDeleteDocument (mem : Memory) (req : RpcRequest) (params : Object) :
    Result Unit := do
  validateIndexingRequestSize req
  requireExactParams params ["corpusId", "documentId", "updatedAt"]
  let corpusId ← boundedRequiredString params "corpusId" maxIndexingCorpusIdBytes
  let _ ← boundedRequiredString params "documentId" maxIndexingDomainIdBytes
  let _ ← boundedRequiredString params "updatedAt" maxIndexingUpdatedAtBytes
  validateStoredSnapshotForUpsert mem.state.snapshots corpusId

/-- An object parameter with a non-empty string that names it. -/
def validateNamedObject (params : Object) (name idKey : String) : Result Unit := do
  let value ← match lookupKey name params with
    | some value => .ok value
    | none => clientError ("missing " ++ name)
  let object ← match value.asObject with
    | some object => .ok object
    | none => clientError (name ++ " must be an object")
  match (lookupKey idKey object).bind Value.asStr with
  | some id =>
    if id.isEmpty then clientError (name ++ "." ++ idKey ++ " must not be empty") else return ()
  | none => clientError ("missing " ++ name ++ "." ++ idKey)

def validateLexicalPassage (item : Value) : Result Unit := do
  let object ← match item.asObject with
    | some object => .ok object
    | none => clientError "passages must contain objects"
  match (lookupKey "passageId" object).bind Value.asStr with
  | none => clientError "missing passageId"
  | some passageId => if passageId.isEmpty then clientError "passageId must not be empty"
  match ((lookupKey "metadata" object).bind Value.asObject).bind fun metadata =>
      (lookupKey "documentId" metadata).bind Value.asStr with
  | none => clientError "missing metadata.documentId"
  | some documentId =>
    if documentId.isEmpty then clientError "metadata.documentId must not be empty"
  match lookupKey "text" object with
  | none => return ()
  | some text => if text.asStr.isNone then clientError "passage text must be a string"

def validateLexicalIndexPassages (params : Object) : Result Unit := do
  let corpusId := (← optionalString params "corpusId").getD ""
  if corpusId.isEmpty then clientError "missing corpusId"
  match ← optionalArray params "passages" with
  | none => return ()
  | some items => checkAll validateLexicalPassage items

/-- A corpus and a document, each a string when it is there. -/
def validateCorpusDocument (params : Object) : Result Unit := do
  let _ ← optionalString params "corpusId"
  let _ ← optionalString params "documentId"

def validateMutationParams (mem : Memory) (req : RpcRequest) : Result Unit := do
  let params ← mutationParamsObject req.params
  match req.method with
  | "upsert_nodes" =>
    validateRecords params "nodes" GraphNode.read "node" fun _ => .ok ()
    validateSchemaNodeHydrations mem.state.snapshots params
  | "upsert_edges" => validateRecords params "edges" GraphEdge.read "edge" fun _ => .ok ()
  | "delete_nodes" =>
    let _ ← optionalString params "corpusId"
    validateStringArray params "nodeIds"
  | "delete_edges" =>
    let _ ← optionalString params "corpusId"
    validateStringArray params "edgeIds"
  | "delete_by_document" => validateCorpusDocument params
  | "delete_by_corpus" => let _ ← optionalString params "corpusId"
  | "vector_upsert" =>
    validateRecords params "records" VectorRecord.read "vector record" validateVectorRecord
  | "vector_delete_by_document" => validateCorpusDocument params
  | "memory_upsert" => validateMemoryUpsert mem req params
  | "memory_activate_facts_by_schema_ids" => validateActivateFacts mem req params
  | "memory_delete_document" => validateMemoryDeleteDocument mem req params
  | "memory_save" => validateNamedObject params "snapshot" "corpusId"
  | "memory_save_checkpoint" => validateNamedObject params "checkpoint" "jobId"
  | "lexical_index_passages" => validateLexicalIndexPassages params
  | "lexical_delete_by_document" => validateCorpusDocument params
  | "memory_save_file" =>
    clientError "memory_save_file must be canonicalized before validation"
  | method => clientError ("mutation method has no validator: " ++ method)

/-! ### The graph -/

/-- The nodes of a request's hydration markers, with the stored schema as their reference. -/
def hydratedSchemaNodes (snapshots : Map Value) (params : Value) : Result (List GraphNode) :=
  match (params.get "schemaNodeRefs").bind Value.asArray with
  | none => .ok []
  | some markers => markers.mapM fun marker => do
    let marker ← expect marker.asObject "schema hydration marker validated before WAL"
    let corpusId ← expect ((lookupKey "corpusId" marker).bind Value.asStr)
      "hydration corpus id validated before WAL"
    let schemaId ← expect ((lookupKey "schemaId" marker).bind Value.asStr)
      "hydration schema id validated before WAL"
    let nodeId ← expect ((lookupKey "nodeId" marker).bind Value.asStr)
      "hydration node id validated before WAL"
    let schema ← expect (schemaForHydration snapshots corpusId schemaId).toOption
      "hydration target validated before WAL"
    let label ← expect ((lookupKey "label" marker).bind Value.asStr)
      "hydration label validated before WAL"
    return ⟨nodeId, corpusId, "ontology", schema, label⟩

def insertNode (nodes : Map GraphNode) (node : GraphNode) : Map GraphNode :=
  nodes.insert (key node.corpusId node.nodeId) node

def upsertNodes (mem : Memory) (params : Value) : Result Memory := do
  let _ ← expect params.asObject "mutation params validated before WAL"
  let hydrated ← hydratedSchemaNodes mem.state.snapshots params
  let parsed ← (paramItems params "nodes").mapM fun node =>
    match fromValue GraphNode.read node with
    | some node => .ok node
    | none => clientError "invalid node"
  return { mem with state := { mem.state with
    nodes := (parsed ++ hydrated).foldl insertNode mem.state.nodes } }

def upsertEdges (mem : Memory) (params : Value) : Result Memory := do
  let parsed ← (paramItems params "edges").mapM fun edge =>
    match fromValue GraphEdge.read edge with
    | some edge => .ok edge
    | none => clientError "invalid edge"
  return { mem with state := { mem.state with
    edges := parsed.foldl (fun edges e => edges.insert (key e.corpusId e.edgeId) e)
      mem.state.edges } }

/-- An edge of the corpus with this end. -/
def touches (corpusId nodeId : String) (edge : GraphEdge) : Bool :=
  edge.corpusId == corpusId && (edge.sourceNodeId == nodeId || edge.targetNodeId == nodeId)

def deleteNodes (mem : Memory) (params : Value) : Memory × ℕ :=
  let corpusId := paramStr params "corpusId"
  let nodeIds := (paramItems params "nodeIds").filterMap Value.asStr
  nodeIds.foldl (fun (acc : Memory × ℕ) nodeId =>
    let nodes := acc.1.state.nodes
    ({ acc.1 with state := { acc.1.state with
        nodes := nodes.erase (key corpusId nodeId)
        edges := acc.1.state.edges.filter fun _ e => !touches corpusId nodeId e } },
      acc.2 + if (nodes[key corpusId nodeId]?).isSome then 1 else 0)) (mem, 0)

def deleteEdges (mem : Memory) (params : Value) : Memory × ℕ :=
  let corpusId := paramStr params "corpusId"
  let edgeIds := (paramItems params "edgeIds").filterMap Value.asStr
  edgeIds.foldl (fun (acc : Memory × ℕ) edgeId =>
    let edges := acc.1.state.edges
    ({ acc.1 with state := { acc.1.state with edges := edges.erase (key corpusId edgeId) } },
      acc.2 + if (edges[key corpusId edgeId]?).isSome then 1 else 0)) (mem, 0)

/-- What the two deletes by corpus and by document answer. -/
def deletedCounts (before after : State) : Value :=
  .obj [("deletedEdges", numU64 (UInt64.ofNat (before.edges.size - after.edges.size))),
    ("deletedNodes", numU64 (UInt64.ofNat (before.nodes.size - after.nodes.size)))]

def deleteByDocument (mem : Memory) (params : Value) : Memory :=
  let corpusId := paramStr params "corpusId"
  let documentId := paramStr params "documentId"
  let removable (node : GraphNode) : Bool :=
    node.corpusId == corpusId && (docIdsFromRef node.ref).any (· == documentId)
  let removedNodeIds := ((mem.state.nodes.filter fun _ n => removable n).toList).map (·.2.nodeId)
  let state := { mem.state with
    nodes := mem.state.nodes.filter fun _ n => !removable n
    edges := mem.state.edges.filter fun _ e => !(e.corpusId == corpusId &&
      (removedNodeIds.contains e.sourceNodeId || removedNodeIds.contains e.targetNodeId)) }
  let mem := removeVectors { mem with state := state } fun v =>
    v.corpusId == corpusId && vectorDocument v == documentId
  { mem with state := { mem.state with passages := mem.state.passages.filter fun _ p =>
    !(p.corpusId == corpusId && p.documentId == documentId) } }

def deleteByCorpus (mem : Memory) (params : Value) : Memory :=
  let corpusId := paramStr params "corpusId"
  let mem := removeVectors mem fun v => v.corpusId == corpusId
  { mem with state := { mem.state with
    nodes := mem.state.nodes.filter fun _ n => n.corpusId != corpusId
    edges := mem.state.edges.filter fun _ e => e.corpusId != corpusId
    passages := mem.state.passages.filter fun _ p => p.corpusId != corpusId
    snapshots := mem.state.snapshots.erase corpusId } }

/-! ### Vectors and passages -/

/-- A new record has its values in memory only, and no reference yet. -/
def insertVector (mem : Memory) (record : VectorRecord) : Memory :=
  let k := key record.corpusId record.id
  { state := { mem.state with
      vectors := mem.state.vectors.insert k { record with values := [], blobRef := none } }
    vectorValues := mem.vectorValues.insert k record.values }

def vectorUpsert (mem : Memory) (params : Value) : Result Memory := do
  let records ← (paramItems params "records").mapM fun record =>
    match fromValue VectorRecord.read record with
    | some record => .ok record
    | none => clientError "invalid vector record"
  return records.foldl insertVector mem

def vectorDeleteByDocument (mem : Memory) (params : Value) : Memory :=
  removeVectors mem fun v => v.corpusId == paramStr params "corpusId" &&
    vectorDocument v == paramStr params "documentId"

def lexicalPassage (corpusId : String) (passage : Value) : Result Passage := do
  let passageId ← match (passage.get "passageId").bind Value.asStr with
    | some passageId => .ok passageId
    | none => clientError "missing passageId"
  let documentId ← match ((passage.get "metadata").bind fun m => m.get "documentId").bind
      Value.asStr with
    | some documentId => .ok documentId
    | none => clientError "missing metadata.documentId"
  return ⟨passageId, corpusId, documentId, ((passage.get "text").bind Value.asStr).getD ""⟩

def lexicalIndexPassages (mem : Memory) (params : Value) : Result Memory := do
  let corpusId := paramStr params "corpusId"
  let items ← (paramItems params "passages").mapM (lexicalPassage corpusId)
  return { mem with state := { mem.state with
    passages := items.foldl (fun passages p => passages.insert (key corpusId p.passageId) p)
      mem.state.passages } }

def lexicalDeleteByDocument (mem : Memory) (params : Value) : Memory :=
  { mem with state := { mem.state with passages := mem.state.passages.filter fun _ p =>
    !(p.corpusId == paramStr params "corpusId" && p.documentId == paramStr params "documentId") } }

/-! ### Snapshots -/

/-- The last position of an id among the incoming items. -/
def incomingIndex (ids : List String) (id : String) : Option ℕ :=
  (ids.zipIdx.reverse.find? fun p => p.1 == id).map (·.2)

/-- A stored item, replaced by the incoming one of its id unless that one is already taken. -/
def replaceItem (ids : List String) (idKey : String) (item : Value)
    (incoming : List (Option Value)) : Value × List (Option Value) :=
  match ((item.get idKey).bind Value.asStr).bind (incomingIndex ids) with
  | none => (item, incoming)
  | some index => match incoming[index]? with
    | some (some replacement) => (replacement, incoming.set index none)
    | _ => (item, incoming)

/-- The stored items are gone through from the last to the first; what is not taken is appended. -/
def mergeSnapshotSection (existing incoming : List Value) (idKey : String) :
    Result (List Value) := do
  let ids ← incoming.mapM fun item => expect ((item.get idKey).bind Value.asStr)
    "validated memory upsert item has an ID"
  let merged := existing.foldr (fun item acc =>
    let replaced := replaceItem ids idKey item acc.2
    (replaced.1 :: acc.1, replaced.2)) (([] : List Value), incoming.map some)
  return merged.1 ++ merged.2.reduceOption

/-- Indexing an object panics when the key is not there. -/
def indexKey (object : Object) (k : String) : Result Value :=
  expect (lookupKey k object) "no entry found for key"

/-- Assigning under a key makes an object of a null and panics on any other value that is none. -/
def assignKey (v : Value) (k : String) (w : Value) : Result Value :=
  match v with
  | .obj ms => .ok (.obj (insertKey k w ms))
  | .null => .ok (.obj [(k, w)])
  | _ => .error (.panic "cannot access key in JSON value")

/-- An alias with the same three names. -/
def sameAlias (addition : Object) (stored : Value) : Result Bool := do
  if !(stored.index "label").beq (← indexKey addition "label") then return false
  if !(stored.index "language").beq (← indexKey addition "language") then return false
  return (stored.index "source").beq (← indexKey addition "source")

/-- The aliases with one added, unless the same is there already. -/
def addAlias (aliases : List Value) (addition : Value) : Result (List Value) := do
  let object ← expect addition.asObject "alias addition validated before WAL"
  if ← aliases.anyM (sameAlias object) then return aliases else return aliases ++ [addition]

/-- The items with those added that are not there yet. -/
def addMissing (items additions : List Value) : List Value :=
  additions.foldl (fun items addition =>
    if items.any (addition.beq ·) then items else items ++ [addition]) items

/-- A stored schema with an intent merged into it. -/
def mergeSchema (schema : Value) (intent : Object) : Result Value := do
  let object ← expect schema.asObject "merge target object validated before WAL"
  let old ← expect ((lookupKey "frequency" object).bind Value.asU64)
    "stored frequency validated before WAL"
  let delta ← expect ((lookupKey "frequencyDelta" intent).bind Value.asU64)
    "frequency delta validated before WAL"
  let frequency ← expect (if old.toNat + delta.toNat < 2 ^ 64 then some (old + delta) else none)
    "frequency overflow rejected before WAL"
  let object := insertKey "frequency" (numU64 frequency) object
  let object := insertKey "state" (← indexKey intent "desiredState") object
  let object := insertKey "stabilizationThreshold" (← indexKey intent "stabilizationThreshold") object
  let object := insertKey "updatedAt" (← indexKey intent "updatedAt") object
  let aliases ← expect ((lookupKey "aliases" object).bind Value.asArray)
    "stored aliases validated before WAL"
  let additions ← expect ((lookupKey "aliasAdditions" intent).bind Value.asArray)
    "alias additions validated before WAL"
  let aliases ← additions.foldlM addAlias aliases
  let object := insertKey "aliases" (.arr aliases) object
  let factIds ← expect ((lookupKey "factIds" object).bind Value.asArray)
    "stored factIds validated before WAL"
  let additions ← expect ((lookupKey "factIdAdditions" intent).bind Value.asArray)
    "fact ID additions validated before WAL"
  let object := insertKey "factIds" (.arr (addMissing factIds additions)) object
  let sources ← expect ((lookupKey "sourceDocumentIds" object).bind Value.asArray)
    "stored sourceDocumentIds validated before WAL"
  let contribution ← indexKey intent "contributionDocumentId"
  return .obj (insertKey "sourceDocumentIds" (.arr (addMissing sources [contribution])) object)

/-- The first schema of an id replaced by what it is merged to. -/
def mergeFirst (schemaId : String) (intent : Object) : List Value → Result (List Value)
  | [] => .error (.panic "merge target validated before WAL")
  | schema :: schemas => do
    if (schema.index "schemaId").asStr = some schemaId then
      return (← mergeSchema schema intent) :: schemas
    else return schema :: (← mergeFirst schemaId intent schemas)

def applyIntent (schemas : List Value) (intent : Value) : Result (List Value) := do
  let object ← expect intent.asObject "schema merge intent validated before WAL"
  if (← indexKey object "mode").asStr = some "create" then
    return schemas ++ [← indexKey object "schema"]
  else
    let schemaId ← expect ((lookupKey "schemaId" object).bind Value.asStr)
      "merge schema id validated before WAL"
    mergeFirst schemaId object schemas

def applySchemaMergeIntents (snapshot : Value) (intents : List Value) : Result Value := do
  let snapshot ← match (snapshot.get "schemas").bind Value.asArray with
    | some _ => .ok snapshot
    | none => assignKey snapshot "schemas" (.arr [])
  let schemas ← expect (snapshot.index "schemas").asArray "snapshot schemas prepared as an array"
  return snapshot.set "schemas" (.arr (← intents.foldlM applyIntent schemas))

/-- The snapshot of a corpus that has none. -/
def emptySnapshot (corpusId : String) : Value :=
  .obj [("corpusId", .str corpusId), ("facts", .arr []), ("passages", .arr []),
    ("schemaVersion", numU64 1), ("schemas", .arr [])]

/-- The incoming items of one section merged into it. -/
def upsertSection (params snapshot : Value) (s : String × String) : Result Value := do
  let incoming := paramItems params s.1
  if incoming.isEmpty then return snapshot
  match (snapshot.get s.1).bind Value.asArray with
  | some existing => return snapshot.set s.1 (.arr (← mergeSnapshotSection existing incoming s.2))
  | none => assignKey snapshot s.1 (.arr incoming)

/-- The snapshot that a memory upsert leaves. -/
def upsertedSnapshot (mem : Memory) (params : Value) (corpusId : String) : Result Value := do
  let snapshot := (mem.state.snapshots[corpusId]?).getD (emptySnapshot corpusId)
  let snapshot ← snapshotSections.foldlM (upsertSection params) snapshot
  let snapshot ← match (params.get "schemaMerges").bind Value.asArray with
    | some intents => applySchemaMergeIntents snapshot intents
    | none => .ok snapshot
  match params.get "exportedAt" with
  | some exportedAt => assignKey snapshot "exportedAt" exportedAt
  | none => .ok snapshot

def memoryUpsert (mem : Memory) (params : Value) : Result Memory := do
  let corpusId ← match (params.get "corpusId").bind Value.asStr with
    | some corpusId => .ok corpusId
    | none => clientError "missing corpusId"
  let snapshot ← upsertedSnapshot mem params corpusId
  return { mem with state := { mem.state with
    snapshots := mem.state.snapshots.insert corpusId snapshot } }

def memorySave (mem : Memory) (params : Value) : Result Memory := do
  let snapshot := (params.get "snapshot").getD (.obj [])
  let corpusId ← match (snapshot.get "corpusId").bind Value.asStr with
    | some corpusId => .ok corpusId
    | none => clientError "missing snapshot.corpusId"
  return { mem with state := { mem.state with
    snapshots := mem.state.snapshots.insert corpusId snapshot } }

def memorySaveCheckpoint (mem : Memory) (params : Value) : Result Memory := do
  let checkpoint := (params.get "checkpoint").getD (.obj [])
  let jobId ← match (checkpoint.get "jobId").bind Value.asStr with
    | some jobId => .ok jobId
    | none => clientError "missing checkpoint.jobId"
  return { mem with state := { mem.state with
    checkpoints := mem.state.checkpoints.insert jobId checkpoint } }

/-- An inactive fact of one of the schemas becomes active. -/
def activateFact (schemaIds : List String) (updatedAt : String) (fact : Value) :
    Result (Value × ℕ) := do
  let object ← expect fact.asObject "stored facts validated before mutation"
  let inactive := (lookupKey "state" object).bind Value.asStr = some "inactive"
  let named := ((lookupKey "schemaId" object).bind Value.asStr).any fun id => schemaIds.contains id
  if inactive && named then
    return ((fact.set "state" (.str "active")).set "updatedAt" (.str updatedAt), 1)
  else return (fact, 0)

def activateFacts (mem : Memory) (params : Value) : Result (Memory × ℕ) := do
  let object ← paramsObject params
  let corpusId ← requiredString object "corpusId"
  let schemaIds ← boundedUniqueIds object "schemaIds" maxIndexingSchemaIds false
  let updatedAt ← requiredString object "updatedAt"
  validateStoredFactsForActivation mem.state.snapshots corpusId
  match mem.state.snapshots[corpusId]? with
  | none => return (mem, 0)
  | some snapshot => match (snapshot.get "facts").bind Value.asArray with
    | none => return (mem, 0)
    | some facts =>
      let activated ← facts.mapM (activateFact schemaIds updatedAt)
      let snapshot := snapshot.set "facts" (.arr (activated.map (·.1)))
      return ({ mem with state := { mem.state with
          snapshots := mem.state.snapshots.insert corpusId snapshot } },
        (activated.map (·.2)).sum)

end Mutations

end AiraGraphdb.Native
