import AiraGraphdb.Native.Params

/-! # Stored snapshots

A corpus has one snapshot: an object with its corpus id and three sections of items. Before a
mutation is logged, what it will touch in the snapshot is checked: the sections, the items, the
schemas a merge or a hydration names. -/

namespace AiraGraphdb.Native

open Schemes Schemes.Json

/-- The sections of a snapshot and the key of their items' ids. -/
def snapshotSections : List (String × String) :=
  [("passages", "passageId"), ("facts", "factId"), ("schemas", "schemaId")]

inductive SchemaValidationContext where
  | admission
  | stored
  deriving DecidableEq

def validateEmbeddedCorpus (item : Object) (corpusId label : String) : Result Unit :=
  match lookupKey "corpusId" item with
  | none => .ok ()
  | some (.str embedded) =>
    if embedded = corpusId then .ok ()
    else clientError (label ++ ".corpusId does not match corpusId")
  | some _ => clientError (label ++ ".corpusId must be a string")

section Sections

variable (snapshots : Map Value)

def storedSnapshotSection (corpusId sect : String) : Result (Option (List Value)) :=
  match snapshots[corpusId]? with
  | none => .ok none
  | some snapshot => do
    let object ← match snapshot.asObject with
      | some object => .ok object
      | none => clientError "stored memory snapshot must be an object"
    match lookupKey "corpusId" object with
    | some (.str stored) =>
      if stored ≠ corpusId then
        clientError "stored memory snapshot corpusId does not match its key"
    | _ => clientError "stored memory snapshot has no string corpusId"
    match lookupKey sect object with
    | none => return none
    | some (.arr items) => return some items
    | some _ => clientError ("stored " ++ sect ++ " must be an array")

/-- The items of a section; a missing one has none. -/
def storedItems (corpusId sect : String) : Result (List Value) :=
  (storedSnapshotSection snapshots corpusId sect).map (·.getD [])

def validateStoredSectionItem (item : Value) (corpusId sect idKey : String) : Result Unit := do
  let object ← match item.asObject with
    | some object => .ok object
    | none => clientError ("stored " ++ sect ++ " must contain only objects")
  validateEmbeddedCorpus object corpusId ("stored " ++ sect)
  match (lookupKey idKey object).bind Value.asStr with
  | some id =>
    if isBounded id maxIndexingDomainIdBytes then return ()
    else clientError ("stored " ++ sect ++ " has no bounded string " ++ idKey)
  | none => clientError ("stored " ++ sect ++ " has no bounded string " ++ idKey)

def validateStoredSnapshotForUpsert (corpusId : String) : Result Unit :=
  checkAll (fun s => do
    let items ← storedItems snapshots corpusId s.1
    checkAll (fun item => validateStoredSectionItem item corpusId s.1 s.2) items) snapshotSections

/-! ### Facts -/

def validateFactSchemaAndState (object : Object) (label : String) : Result Unit :=
  checkAll (fun field => match (lookupKey field object).bind Value.asStr with
    | some value =>
      if isBounded value maxIndexingDomainIdBytes then .ok ()
      else clientError (label ++ " has no bounded string " ++ field)
    | none => clientError (label ++ " has no bounded string " ++ field)) ["schemaId", "state"]

def validateStoredFactItem (fact : Value) (corpusId : String) : Result Unit := do
  validateStoredSectionItem fact corpusId "facts" "factId"
  let object ← expect fact.asObject "stored fact object validated above"
  validateFactSchemaAndState object "stored fact"

def validateStoredFactsForActivation (corpusId : String) : Result Unit := do
  let facts ← storedItems snapshots corpusId "facts"
  checkAll (fun fact => validateStoredFactItem fact corpusId) facts

end Sections

/-! ### Schemas -/

section Schemas

variable [Externals]

def validateSchemaAlias (value : Value) (label : String) (context : SchemaValidationContext) :
    Result (String × String × String) := do
  let object ← match value.asObject with
    | some object => .ok object
    | none => clientError (label ++ " must be an object")
  if context = .admission then
    requireExactObjectKeys object ["label", "language", "source", "confidence", "isCanonical"] label
  let text ← boundedObjectString object "label" maxIndexingDomainIdBytes label
  let language ← boundedObjectString object "language" maxIndexingDomainIdBytes label
  if language ∉ ["en", "ja", "mixed", "unknown"] then
    clientError (label ++ ".language is unsupported")
  let source ← boundedObjectString object "source" maxIndexingDomainIdBytes label
  if source ∉ ["llm", "nlp", "dictionary", "thesaurus", "manual", "import"] then
    clientError (label ++ ".source is unsupported")
  if ((lookupKey "confidence" object).bind (Value.asF64 Externals.ofInt)).isNone then
    clientError (label ++ ".confidence must be finite")
  if ((lookupKey "isCanonical" object).bind Value.asBool).isNone then
    clientError (label ++ ".isCanonical must be boolean")
  return (text, language, source)

/-- A list of bounded identifiers inside a schema. -/
def validateSchemaIds (schema : Object) (label field : String) : Result Unit := do
  let values ← match (lookupKey field schema).bind Value.asArray with
    | some values => .ok values
    | none => clientError (label ++ "." ++ field ++ " must be an array")
  checkAll (fun item => match item.asStr with
    | some text =>
      if isBounded text maxIndexingDomainIdBytes then .ok ()
      else clientError (label ++ "." ++ field ++ " must contain bounded non-empty strings")
    | none => clientError (label ++ "." ++ field ++ " must contain bounded non-empty strings"))
    values

/-- The checks of a schema, whether a request brings it or the snapshot holds it. -/
def validateSchemaValue (value : Value) (corpusId label : String)
    (context : SchemaValidationContext) : Result Object := do
  let schema ← match value.asObject with
    | some object => .ok object
    | none => clientError (label ++ " must be an object")
  let embeddedCorpus ← boundedObjectString schema "corpusId" maxIndexingCorpusIdBytes label
  if embeddedCorpus ≠ corpusId then
    clientError (label ++ ".corpusId does not match corpusId")
  checkAll (fun field => do
      let _ ← boundedObjectString schema field maxIndexingDomainIdBytes label)
    ["schemaId", "headType", "relation", "tailType", "canonicalKey"]
  checkAll (fun field => do
      let _ ← boundedObjectString schema field maxIndexingUpdatedAtBytes label)
    ["createdAt", "updatedAt"]
  checkAll (fun field => do
      let _ ← safeU64Field schema field label)
    ["frequency", "stabilizationThreshold", "version"]
  match (lookupKey "state" schema).bind Value.asStr with
  | some state =>
    if state ∉ ["pending", "stable"] then
      clientError (label ++ ".state is unsupported")
  | none => clientError (label ++ ".state is unsupported")
  let aliases ← match (lookupKey "aliases" schema).bind Value.asArray with
    | some aliases => .ok aliases
    | none => clientError (label ++ ".aliases must be an array")
  checkAll (fun item => do
    let _ ← validateSchemaAlias item "schema alias" context) aliases
  checkAll (validateSchemaIds schema label) ["factIds", "sourceDocumentIds"]
  return schema

/-- The token a client has to show to merge into a stored schema: a digest of the whole value. -/
def schemaMergeToken (schema : Value) : String :=
  (sha256 (utf8 "aira-graphdb-schema-merge-token-v1" ++ [0] ++ schema.print floats)).hex

def validateMergeToken (value : Value) (label : String) : Result String :=
  match value.asStr with
  | some token =>
    if isLowerHexText token 32 then .ok token
    else clientError (label ++ ".expectedMergeToken must be lowercase SHA-256 hex")
  | none => clientError (label ++ ".expectedMergeToken must be lowercase SHA-256 hex")

/-! ### Merge intents -/

/-- What the shape of an intent is checked for: the schema it names, and how many aliases and fact
ids it adds. -/
structure IntentShape where
  schemaId : String
  aliasAdditions : ℕ
  factIdAdditions : ℕ

def validateCreateIntent (object : Object) (corpusId : String) : Result IntentShape := do
  requireExactObjectKeys object ["mode", "expectedAbsent", "schema"] "schema create"
  if ((lookupKey "expectedAbsent" object).bind Value.asBool) ≠ some true then
    clientError "schema create.expectedAbsent must be true"
  let schema ← match lookupKey "schema" object with
    | some schema => .ok schema
    | none => clientError "schema create.schema is missing"
  let schema ← validateSchemaValue schema corpusId "schema create" .admission
  let schemaId ← expect ((lookupKey "schemaId" schema).bind Value.asStr)
    "created schema id validated above"
  return ⟨schemaId, 0, 0⟩

def mergeIntentFields : List String :=
  ["mode", "schemaId", "expectedMergeToken", "contributionDocumentId", "frequencyDelta",
    "desiredState", "stabilizationThreshold", "updatedAt", "aliasAdditions", "factIdAdditions"]

/-- The two lists of additions are taken for arrays without a check that they are. -/
def validateMergeIntent (object : Object) : Result IntentShape := do
  requireExactObjectKeys object mergeIntentFields "schema merge"
  let schemaId ← boundedObjectString object "schemaId" maxIndexingDomainIdBytes "schema merge"
  let token ← expect (lookupKey "expectedMergeToken" object) "exact merge fields checked above"
  let _ ← validateMergeToken token "schema merge"
  let _ ← boundedObjectString object "contributionDocumentId" maxIndexingDomainIdBytes
    "schema merge"
  let _ ← safeU64Field object "frequencyDelta" "schema merge"
  let _ ← safeU64Field object "stabilizationThreshold" "schema merge"
  let _ ← boundedObjectString object "updatedAt" maxIndexingUpdatedAtBytes "schema merge"
  match (lookupKey "desiredState" object).bind Value.asStr with
  | some state =>
    if state ∉ ["pending", "stable"] then
      clientError "schema merge.desiredState is unsupported"
  | none => clientError "schema merge.desiredState is unsupported"
  let aliases ← expect ((lookupKey "aliasAdditions" object).bind Value.asArray)
    "exact merge fields checked above"
  let _ ← readUnique (fun item => validateSchemaAlias item "schema alias addition" .admission)
    "schema alias additions must be unique" [] aliases
  let factIds ← expect ((lookupKey "factIdAdditions" object).bind Value.asArray)
    "exact merge fields checked above"
  let _ ← readUnique (fun item => match item.asStr with
      | some id =>
        if isBounded id maxIndexingDomainIdBytes then .ok id
        else clientError "schema fact ID additions must be bounded and unique"
      | none => clientError "schema fact ID additions must be bounded and unique")
    "schema fact ID additions must be bounded and unique" [] factIds
  return ⟨schemaId, aliases.length, factIds.length⟩

def validateIntentShape (corpusId : String) (intent : Value) : Result IntentShape := do
  let object ← match intent.asObject with
    | some object => .ok object
    | none => clientError "schemaMerges items must be objects"
  match (lookupKey "mode" object).bind Value.asStr with
  | none => clientError "schemaMerges.mode must be a string"
  | some mode =>
    if mode = "create" then validateCreateIntent object corpusId
    else if mode = "merge" then validateMergeIntent object
    else clientError "schemaMerges.mode is unsupported"

/-- The shapes in order; no two intents name the same schema. -/
def validateIntentShapes (corpusId : String) (seen : List IntentShape) :
    List Value → Result (List IntentShape)
  | [] => .ok seen
  | intent :: intents => do
    let shape ← validateIntentShape corpusId intent
    if seen.any fun s => s.schemaId == shape.schemaId then
      clientError "schemaMerges must not contain duplicate schemaId values"
    validateIntentShapes corpusId (seen ++ [shape]) intents

/-- The stored schemas that the intents name. -/
def storedIntentSchemas (corpusId : String) (ids : List String) (found : List (String × Value)) :
    List Value → Result (List (String × Value))
  | [] => .ok found
  | schema :: schemas => do
    validateStoredSectionItem schema corpusId "schemas" "schemaId"
    let schemaId ← expect ((schema.get "schemaId").bind Value.asStr)
      "stored schema id validated above"
    if ids.contains schemaId then
      if (lookupKey schemaId found).isSome then
        clientError "stored schemas contain a duplicate requested schemaId"
      storedIntentSchemas corpusId ids (found ++ [(schemaId, schema)]) schemas
    else storedIntentSchemas corpusId ids found schemas

def intentMode (intent : Value) : Option String := (intent.get "mode").bind Value.asStr

/-- An intent against the schemas it finds. -/
def validateIntentTarget (corpusId : String) (stored : List (String × Value)) (intent : Value) :
    Result Unit := do
  if intentMode intent = some "create" then
    let schemaId ← expect ((intent.index "schema").index "schemaId").asStr
      "created schema id validated above"
    if (lookupKey schemaId stored).isSome then
      clientError "schema create expected absence"
    return ()
  let schemaId ← expect (intent.index "schemaId").asStr "merged schema id validated above"
  let schema ← match lookupKey schemaId stored with
    | some schema => .ok schema
    | none => clientError "schema merge target is absent"
  let current ← validateSchemaValue schema corpusId "stored schema" .stored
  let expected ← expect (intent.index "expectedMergeToken").asStr "merge token validated above"
  if schemaMergeToken schema ≠ expected then
    clientError "schema merge token is stale"
  let contribution ← expect (intent.index "contributionDocumentId").asStr
    "contribution document id validated above"
  let sources ← expect ((lookupKey "sourceDocumentIds" current).bind Value.asArray)
    "stored sourceDocumentIds validated above"
  let present := sources.any fun value => value.asStr == some contribution
  let frequencyDelta ← expect (intent.index "frequencyDelta").asU64
    "frequency delta validated above"
  if present ∧ frequencyDelta ≠ 0 then
    clientError "schema merge frequencyDelta must be zero for an existing contribution"
  if !present ∧ frequencyDelta = 0 then
    clientError "schema merge frequencyDelta must be positive for a new contribution"
  let frequency ← expect ((lookupKey "frequency" current).bind Value.asU64)
    "stored frequency validated above"
  if jsonSafeIntegerMax < frequency.toNat + frequencyDelta.toNat then
    clientError "schema merge frequency exceeds the safe integer range"

def validateSchemaMergeIntents (snapshots : Map Value) (corpusId : String)
    (intents : List Value) : Result Unit := do
  if intents.isEmpty ∨ maxCanonicalizationSchemas < intents.length then
    clientError ("schemaMerges length must be in [1, " ++
      toString maxCanonicalizationSchemas ++ "]")
  let shapes ← validateIntentShapes corpusId [] intents
  if maxSchemaAliasAdditions < (shapes.map (·.aliasAdditions)).sum then
    clientError ("schema alias additions must not exceed " ++
      toString maxSchemaAliasAdditions)
  if maxSchemaFactIdAdditions < (shapes.map (·.factIdAdditions)).sum then
    clientError ("schema fact ID additions must not exceed " ++
      toString maxSchemaFactIdAdditions)
  let schemas ← storedItems snapshots corpusId "schemas"
  let stored ← storedIntentSchemas corpusId (shapes.map (·.schemaId)) [] schemas
  checkAll (validateIntentTarget corpusId stored) intents

end Schemas

/-! ### Hydration -/

section Hydration

variable [Externals]

/-- The one stored schema of an id, among items that are all well formed. -/
def findSchema (corpusId schemaId : String) (found : Option Value) :
    List Value → Result (Option Value)
  | [] => .ok found
  | schema :: schemas => do
    validateStoredSectionItem schema corpusId "schemas" "schemaId"
    if (schema.get "schemaId").bind Value.asStr ≠ some schemaId then
      findSchema corpusId schemaId found schemas
    else if found.isSome then
      clientError "stored schemas contain a duplicate hydration target"
    else findSchema corpusId schemaId (some schema) schemas

def schemaForHydration (snapshots : Map Value) (corpusId schemaId : String) : Result Value := do
  let schemas ← storedItems snapshots corpusId "schemas"
  match ← findSchema corpusId schemaId none schemas with
  | some schema => return schema
  | none => clientError "schema hydration target is absent"

/-- One marker: its fields, and the stored schema they agree with. -/
def validateMarker (snapshots : Map Value) (nodeKeys : List (String × String)) (marker : Value) :
    Result (List (String × String)) := do
  let marker ← match marker.asObject with
    | some object => .ok object
    | none => clientError "schemaNodeRefs items must be objects"
  let label := "schema node reference"
  requireExactObjectKeys marker ["nodeId", "corpusId", "schemaId", "label"] label
  let nodeId ← boundedObjectString marker "nodeId" maxSchemaNodeIdBytes label
  let corpusId ← boundedObjectString marker "corpusId" maxIndexingCorpusIdBytes label
  let schemaId ← boundedObjectString marker "schemaId" maxIndexingDomainIdBytes label
  let nodeLabel ← boundedObjectString marker "label" maxSchemaNodeLabelBytes label
  if nodeId ≠ "schema:" ++ schemaId then
    clientError "schema node reference nodeId is inconsistent"
  if (corpusId, nodeId) ∈ nodeKeys then
    clientError "upsert_nodes contains a duplicate node key"
  let schema ← schemaForHydration snapshots corpusId schemaId
  let schema ← validateSchemaValue schema corpusId "stored schema" .stored
  let headType ← expect ((lookupKey "headType" schema).bind Value.asStr)
    "schema headType validated above"
  let relation ← expect ((lookupKey "relation" schema).bind Value.asStr)
    "schema relation validated above"
  let tailType ← expect ((lookupKey "tailType" schema).bind Value.asStr)
    "schema tailType validated above"
  if nodeLabel ≠ headType ++ " " ++ relation ++ " " ++ tailType then
    clientError "schema node reference label is inconsistent"
  return nodeKeys ++ [(corpusId, nodeId)]

def validateSchemaNodeHydrations (snapshots : Map Value) (params : Object) : Result Unit := do
  let hasVersion := (lookupKey "schemaRefHydration" params).isSome
  let hasMarkers := (lookupKey "schemaNodeRefs" params).isSome
  if !hasVersion && !hasMarkers then return ()
  if !(hasVersion && hasMarkers) then
    clientError "schema hydration version and markers must be supplied together"
  rejectUnknownParams params ["nodes", "schemaRefHydration", "schemaNodeRefs"]
  if (lookupKey "schemaRefHydration" params).bind Value.asStr ≠ some schemaReferenceHydration then
    clientError "schemaRefHydration is unsupported"
  let markers ← expect (← optionalArray params "schemaNodeRefs")
    "schemaNodeRefs presence checked above"
  if markers.isEmpty ∨ maxCanonicalizationSchemas < markers.length then
    clientError ("schemaNodeRefs length must be in [1, " ++
      toString maxCanonicalizationSchemas ++ "]")
  let nodes := (← optionalArray params "nodes").getD []
  let nodeKeys ← nodes.mapM fun node => match fromValue GraphNode.read node with
    | some parsed => (.ok (parsed.corpusId, parsed.nodeId) : Result (String × String))
    | none => clientError "invalid node"
  let _ ← markers.foldlM (validateMarker snapshots) nodeKeys

end Hydration

end AiraGraphdb.Native
