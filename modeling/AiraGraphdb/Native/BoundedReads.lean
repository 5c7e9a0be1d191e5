import AiraGraphdb.Native.Projection
import AiraGraphdb.Native.Applicable
import AiraGraphdb.Native.Bounded.Materialize

/-! # Reads of bounded size

Five reads of the memory answer with whole stored objects and promise that the answer keeps to a
limit of bytes. The bytes are counted while the section is scanned, item by item in the order they
are stored; the answer is put together afterwards, in the order of the request. -/

namespace AiraGraphdb.Native

open Schemes Schemes.Json

def maxIndexingActiveFacts : ℕ := 100
def maxMemoryReadIdsPerRequest : ℕ := maxIndexingSchemaIds
def maxMemoryReadEntitiesPerRequest : ℕ := 64
def maxMemoryReadLimit : ℕ := maxIndexingActiveFacts
def maxMemoryReadFoldedEntityBytes : ℕ := 4 * 3 * maxIndexingDomainIdBytes
def schemaCanonicalizationProjection : String := "canonicalization@1"

/-! ### Parameters -/

section Params

variable {α β : Type}

/-- What the items are read as, each where it comes first. -/
def readDistinct [DecidableEq β] (read : α → Result β) (seen : List β) : List α → Result (List β)
  | [] => .ok seen
  | x :: xs => do
    let y ← read x
    readDistinct read (if y ∈ seen then seen else seen ++ [y]) xs

end Params

def boundedId (name : String) (item : Value) : Result String :=
  match item.asStr with
  | some id =>
    if isBounded id maxIndexingDomainIdBytes then .ok id
    else clientError (name ++ " must contain only non-empty strings of at most " ++
      toString maxIndexingDomainIdBytes ++ " bytes")
  | none => clientError (name ++ " must contain only non-empty strings of at most " ++
      toString maxIndexingDomainIdBytes ++ " bytes")

def boundedDeduplicatedIds (params : Object) (name : String) (maximum : ℕ) :
    Result (List String) := do
  let items ← match ← optionalArray params name with
    | some items => .ok items
    | none => clientError ("missing " ++ name)
  if maximum < items.length then
    clientError (name ++ " length must be in [0, " ++ toString maximum ++ "]")
  readDistinct (boundedId name) [] items

def boundedReadLimit (params : Object) (maximum : ℕ) : Result ℕ := do
  let limit ← match (lookupKey "limit" params).bind Value.asU64 with
    | some limit => .ok limit.toNat
    | none => clientError "limit must be a nonnegative integer"
  if maximum < limit then clientError ("limit must not exceed " ++ toString maximum)
  return limit

/-- A read whose parameters have passed their checks. -/
inductive BoundedRead where
  | schemasByIds (corpusId : String) (ids : List String) (contributionDocumentId : Option String)
  | activeFacts (corpusId : String) (limit : ℕ)
  | passagesByIds (corpusId : String) (ids : List String)
  | factsByIds (corpusId : String) (ids : List String)
  | factsByEntities (corpusId : String) (entities : List String) (activeOnly : Bool) (limit : ℕ)
  deriving DecidableEq

/-- The document whose contributions are asked for, when the read names a projection. -/
def projectionDocument (params : Object) (projected : Bool) : Result (Option String) :=
  if projected then do
    requireExactParams params ["corpusId", "schemaIds", "projection", "contributionDocumentId"]
    if (lookupKey "projection" params).bind Value.asStr ≠ some schemaCanonicalizationProjection then
      clientError "schema projection is unsupported"
    let documentId ← boundedRequiredString params "contributionDocumentId" maxIndexingDomainIdBytes
    return some documentId
  else do
    requireExactParams params ["corpusId", "schemaIds"]
    return none

def schemasByIdsParams (params : Object) : Result BoundedRead := do
  let projected := (lookupKey "projection" params).isSome
  let contributionDocumentId ← projectionDocument params projected
  let corpusId ← boundedRequiredString params "corpusId" maxIndexingCorpusIdBytes
  let ids ← boundedUniqueIds params "schemaIds"
    (if projected then maxCanonicalizationSchemas else maxIndexingSchemaIds) true
  return .schemasByIds corpusId ids contributionDocumentId

def activeFactsParams (params : Object) : Result BoundedRead := do
  requireExactParams params ["corpusId", "limit"]
  let corpusId ← boundedRequiredString params "corpusId" maxIndexingCorpusIdBytes
  let limit ← boundedReadLimit params maxIndexingActiveFacts
  return .activeFacts corpusId limit

/-- The corpus and the ids of a read whose ids need not be unique. -/
def itemsByIdsParams (params : Object) (name : String) : Result (String × List String) := do
  requireExactParams params ["corpusId", name]
  let corpusId ← boundedRequiredString params "corpusId" maxIndexingCorpusIdBytes
  let ids ← boundedDeduplicatedIds params name maxMemoryReadIdsPerRequest
  return (corpusId, ids)

def passagesByIdsParams (params : Object) : Result BoundedRead :=
  (itemsByIdsParams params "passageIds").map fun r => .passagesByIds r.1 r.2

def factsByIdsParams (params : Object) : Result BoundedRead :=
  (itemsByIdsParams params "factIds").map fun r => .factsByIds r.1 r.2

def factsByEntitiesParams (params : Object) : Result BoundedRead := do
  requireExactParams params ["corpusId", "entities", "state", "limit"]
  let corpusId ← boundedRequiredString params "corpusId" maxIndexingCorpusIdBytes
  let entities ← boundedDeduplicatedIds params "entities" maxMemoryReadEntitiesPerRequest
  let activeOnly ← match (lookupKey "state" params).bind Value.asStr with
    | some "active" => .ok true
    | some "any" => .ok false
    | _ => clientError "state must be \"active\" or \"any\""
  let limit ← boundedReadLimit params maxMemoryReadLimit
  return .factsByEntities corpusId entities activeOnly limit

/-- The bounded reads and the checks of their parameters. -/
def admitRead (req : RpcRequest) : Option (Result BoundedRead) :=
  match req.method with
  | "memory_get_schemas_by_ids" => some (paramsObject req.params >>= schemasByIdsParams)
  | "memory_get_active_facts" => some (paramsObject req.params >>= activeFactsParams)
  | "memory_get_passages_by_ids" => some (paramsObject req.params >>= passagesByIdsParams)
  | "memory_get_facts_by_ids" => some (paramsObject req.params >>= factsByIdsParams)
  | "memory_find_facts_by_entities" => some (paramsObject req.params >>= factsByEntitiesParams)
  | _ => none

/-! ### Lower case -/

section Lowercase

variable [Bounded.LowercaseTables]

/-- What the first character that is not ignored says, or `default` when there is none. -/
def firstUnignored (answer : Char → Bool) (default : Bool) : List Char → Bool
  | [] => default
  | c :: cs =>
    if Bounded.LowercaseTables.caseIgnorable c then firstUnignored answer default cs else answer c

def isFinalSigma (before after : List Char) : Bool :=
  firstUnignored Bounded.LowercaseTables.cased false before.reverse &&
    firstUnignored (fun c => !Bounded.LowercaseTables.cased c) true after

def lowercaseMapped (before : List Char) (c : Char) (after : List Char) : List Char :=
  if c.toNat = 0x03A3 ∧ isFinalSigma before after then [Char.ofNat 0x03C2]
  else (Bounded.LowercaseTables.mapping c).getD [c]

def pushBounded (maximum : ℕ) (output : List Char) : List Char → Option (List Char)
  | [] => some output
  | c :: cs =>
    if maximum < (output.map Char.utf8Size).sum + c.utf8Size then none
    else pushBounded maximum (output ++ [c]) cs

def lowercaseFrom (maximum : ℕ) (before output : List Char) : List Char → Option (List Char)
  | [] => some output
  | c :: after => do
    let output ← pushBounded maximum output (lowercaseMapped before c after)
    lowercaseFrom maximum (before ++ [c]) output after

def lowercaseBounded (value : String) (maximum : ℕ) : Option String :=
  (lowercaseFrom maximum [] [] value.toList).map String.ofList

def foldMemoryReadEntity (value : String) : Option String :=
  if maxMemoryReadFoldedEntityBytes < value.utf8ByteSize then none
  else lowercaseBounded value maxMemoryReadFoldedEntityBytes

end Lowercase

/-! ### Answers -/

section Answers

variable [Externals]

def indexingResultArrayLimit (requestId : UInt64) : Result ℕ := do
  let emptyBytes ← boundedSerializedBytes (responseText requestId (.arr []))
    maxIndexingResponseBytes "bounded indexing response exceeds its byte limit"
  if emptyBytes < 2 then clientError "bounded indexing response envelope accounting failed"
  if maxIndexingResponseBytes < emptyBytes - 2 then
    clientError "bounded indexing response envelope exceeds its byte limit"
  return maxIndexingResponseBytes - (emptyBytes - 2)

def validateIndexingResponseSize (requestId : UInt64) (result : Value) : Result Unit := do
  let _ ← boundedSerializedBytes (responseText requestId result) maxIndexingResponseBytes
    "bounded indexing response exceeds its byte limit"

def schemaProjection (schema : Value) (corpusId contributionDocumentId : String) :
    Result Value := do
  let object ← validateSchemaValue schema corpusId "stored schema" .stored
  let sourceDocumentIds ← expect ((lookupKey "sourceDocumentIds" object).bind Value.asArray)
    "stored schema sourceDocumentIds validated above"
  let canonicalKey ← indexKey object "canonicalKey"
  let corpus ← indexKey object "corpusId"
  let frequency ← indexKey object "frequency"
  let headType ← indexKey object "headType"
  let relation ← indexKey object "relation"
  let schemaId ← indexKey object "schemaId"
  let stabilizationThreshold ← indexKey object "stabilizationThreshold"
  let state ← indexKey object "state"
  let tailType ← indexKey object "tailType"
  return .obj [("canonicalKey", canonicalKey),
    ("contributionPresent",
      .bool (sourceDocumentIds.any fun value => value.asStr == some contributionDocumentId)),
    ("corpusId", corpus), ("firstSourceDocumentId", sourceDocumentIds.head?.getD .null),
    ("frequency", frequency), ("headType", headType),
    ("mergeToken", .str (schemaMergeToken schema)), ("relation", relation),
    ("schemaId", schemaId), ("stabilizationThreshold", stabilizationThreshold), ("state", state),
    ("tailType", tailType)]

/-- The requested items of a section, in the order they are stored, and the bytes they take. The
whole section is scanned, so that a second item of a requested id is reported wherever it is. -/
def scanSection (corpusId sect idKey : String) (idOf : Value → Result String)
    (respond : Value → Result Value) (ids : List String) (limit : ℕ) :
    ℕ → List (String × Value) → List Value → Result (List (String × Value))
  | _, found, [] => .ok found
  | responseBytes, found, item :: items => do
    validateStoredSectionItem item corpusId sect idKey
    let id ← idOf item
    if !ids.contains id then
      scanSection corpusId sect idKey idOf respond ids limit responseBytes found items
    else do
      if (lookupKey id found).isSome then
        clientError ("stored " ++ sect ++ " contain a duplicate requested " ++ idKey)
      let responseItem ← respond item
      let responseBytes ← addBoundedIndexingResponseItem responseBytes responseItem
        (!found.isEmpty) limit
      scanSection corpusId sect idKey idOf respond ids limit responseBytes
        (found ++ [(id, responseItem)]) items

/-- What was found, taken out in the order of the request. -/
def takeFound (found : List (String × Value)) : List String → List Value
  | [] => []
  | id :: ids => match lookupKey id found with
    | some value => value :: takeFound (found.filter fun entry => entry.1 ≠ id) ids
    | none => takeFound found ids

variable (snapshots : Map Value) (requestId : UInt64)

/-- A read by ids: a scan of the section, and the answer in the order of the request. -/
def answerByIds (corpusId sect idKey : String) (idOf : Value → Result String)
    (respond : Value → Result Value) (ids : List String) : Result Value := do
  if ids.isEmpty then return .arr []
  let limit ← indexingResultArrayLimit requestId
  let items ← storedItems snapshots corpusId sect
  let found ← scanSection corpusId sect idKey idOf respond ids limit 2 [] items
  return .arr (takeFound found ids)

def storedItemId (idKey : String) (item : Value) : Result String :=
  expect ((item.get idKey).bind Value.asStr) "stored section item id validated above"

def readSectionItemsByIds (corpusId sect idKey : String) (ids : List String) : Result Value :=
  answerByIds snapshots requestId corpusId sect idKey (storedItemId idKey) .ok ids

/-- The id of a stored schema, checked once more. -/
def storedSchemaId (schema : Value) : Result String := do
  let object ← match schema.asObject with
    | some object => .ok object
    | none => clientError "stored schemas must contain only objects"
  match (lookupKey "schemaId" object).bind Value.asStr with
  | some id =>
    if !id.isEmpty then return id else clientError "stored schema has no non-empty schemaId"
  | none => clientError "stored schema has no non-empty schemaId"

def respondSchema (corpusId : String) (contributionDocumentId : Option String) (schema : Value) :
    Result Value :=
  match contributionDocumentId with
  | some documentId => schemaProjection schema corpusId documentId
  | none => .ok schema

def memoryGetSchemasByIds (corpusId : String) (ids : List String)
    (contributionDocumentId : Option String) : Result Value :=
  answerByIds snapshots requestId corpusId "schemas" "schemaId" storedSchemaId
    (respondSchema corpusId contributionDocumentId) ids

def isActive (fact : Value) : Bool := (fact.get "state").bind Value.asStr == some "active"

/-- The active facts, as many as are asked for. -/
def scanActive (corpusId : String) (count limit : ℕ) :
    ℕ → List Value → List Value → Result (List Value)
  | _, active, [] => .ok active
  | responseBytes, active, fact :: facts => do
    validateStoredFactItem fact corpusId
    if isActive fact then
      let responseBytes ← addBoundedIndexingResponseItem responseBytes fact (!active.isEmpty) limit
      if (active ++ [fact]).length = count then return active ++ [fact]
      else scanActive corpusId count limit responseBytes (active ++ [fact]) facts
    else scanActive corpusId count limit responseBytes active facts

def memoryGetActiveFacts (corpusId : String) (count : ℕ) : Result Value := do
  if count = 0 then return .arr []
  let limit ← indexingResultArrayLimit requestId
  let facts ← storedItems snapshots corpusId "facts"
  let active ← scanActive corpusId count limit 2 [] facts
  return .arr active

section Entities

variable [Bounded.LowercaseTables]

/-- An end of the fact is one of the entities, case aside. -/
def hits (folded : List String) (fact : Value) : Bool :=
  ["headEntity", "tailEntity"].any fun field =>
    (((fact.get field).bind Value.asStr).bind foldMemoryReadEntity).any folded.contains

/-- The facts about the entities, each under its id. -/
def matchFacts (corpusId : String) (activeOnly : Bool) (folded : List String) :
    List Value → Result (List (String × Value))
  | [] => .ok []
  | fact :: facts => do
    validateStoredFactItem fact corpusId
    if (activeOnly && !isActive fact) || !hits folded fact then
      matchFacts corpusId activeOnly folded facts
    else do
      let factId ← expect ((fact.get "factId").bind Value.asStr) "stored fact factId validated above"
      return (factId, fact) :: (← matchFacts corpusId activeOnly folded facts)

def addFacts (limit : ℕ) : ℕ → List Value → List (String × Value) → Result (List Value)
  | _, result, [] => .ok result
  | responseBytes, result, (_, fact) :: facts => do
    let responseBytes ← addBoundedIndexingResponseItem responseBytes fact (!result.isEmpty) limit
    addFacts limit responseBytes (result ++ [fact]) facts

def memoryFindFactsByEntities (corpusId : String) (entities : List String) (activeOnly : Bool)
    (count : ℕ) : Result Value := do
  if count = 0 ∨ entities.isEmpty then return .arr []
  let folded ← entities.mapM fun entity => match foldMemoryReadEntity entity with
    | some folded => (.ok folded : Result String)
    | none => clientError "entities must fold within the bounded entity size"
  let facts ← storedItems snapshots corpusId "facts"
  let matched ← matchFacts corpusId activeOnly folded facts
  let limit ← indexingResultArrayLimit requestId
  let result ← addFacts limit 2 [] ((sortBy Prod.fst matched).take count)
  return .arr result

def BoundedRead.answer : BoundedRead → Result Value
  | .schemasByIds corpusId ids contributionDocumentId =>
    memoryGetSchemasByIds snapshots requestId corpusId ids contributionDocumentId
  | .activeFacts corpusId count => memoryGetActiveFacts snapshots requestId corpusId count
  | .passagesByIds corpusId ids =>
    readSectionItemsByIds snapshots requestId corpusId "passages" "passageId" ids
  | .factsByIds corpusId ids =>
    readSectionItemsByIds snapshots requestId corpusId "facts" "factId" ids
  | .factsByEntities corpusId entities activeOnly count =>
    memoryFindFactsByEntities snapshots requestId corpusId entities activeOnly count

end Entities

end Answers

/-- The bounded reads of a server. -/
def boundedRead [Externals] [Bounded.LowercaseTables] (s : Server) (req : RpcRequest) :
    Option (Result Value) :=
  (admitRead req).map fun admitted => do
    let read ← admitted
    read.answer s.state.snapshots req.id

/-! ### The size of an array -/

section Size

variable [Externals]

theorem length_resultText (requestId : UInt64) (result : Value) :
    (responseText requestId result).length
      = 27 + (decimal requestId.toNat).length + (result.print floats).length := by
  have h1 : (escape (utf8 "id")).length = 2 := by decide
  have h2 : (escape (utf8 "ok")).length = 2 := by decide
  have h3 : (escape (utf8 "result")).length = 6 := by decide
  simp only [responseText, Value.print, Value.raw, rawMembers, Raw.print, printMembers,
    List.length_cons, List.length_append, h1, h2, h3, trueBytes, Number.lexeme, List.length_nil]
  omega

/-- The bytes of an array of these items. -/
def arrayBytes (items : List Value) : ℕ := ((Value.arr items).print floats).length

@[simp] theorem arrayBytes_nil : arrayBytes [] = 2 := rfl

theorem arrayBytes_snoc (items : List Value) (item : Value) :
    arrayBytes (items ++ [item])
      = arrayBytes items + (if items.isEmpty then 0 else 1) + (item.print floats).length :=
  length_arr_snoc items item

/-- Two brackets, the items, and a comma between any two of them. -/
theorem arrayBytes_eq (items : List Value) :
    arrayBytes items
      = 2 + (items.map fun item => (item.print floats).length).sum + (items.length - 1) := by
  induction items using List.reverseRecOn with
  | nil => rfl
  | append_singleton items item ih =>
    rw [arrayBytes_snoc, ih, List.map_append, List.sum_append, List.length_append]
    cases items with
    | nil => simp
    | cons first items =>
      simp only [List.isEmpty_cons, Bool.false_eq_true, if_false, List.length_cons, List.map_cons,
        List.map_nil, List.sum_cons, List.sum_nil, List.length_nil]
      omega

/-- The order of the items does not change the size. -/
theorem arrayBytes_perm {items items' : List Value} (h : items.Perm items') :
    arrayBytes items = arrayBytes items' := by
  rw [arrayBytes_eq, arrayBytes_eq, h.length_eq, (h.map _).sum_eq]

theorem arrayBytes_append_le (items more : List Value) :
    arrayBytes items ≤ arrayBytes (items ++ more) := by
  rw [arrayBytes_eq, arrayBytes_eq, List.map_append, List.sum_append, List.length_append]
  omega

/-- The limit of the array is that of the answer without its envelope. -/
theorem indexingResultArrayLimit_ok (requestId : UInt64) :
    ∃ limit, indexingResultArrayLimit requestId = .ok limit ∧ limit ≤ maxIndexingResponseBytes
      ∧ 2 ≤ limit ∧ ∀ items, arrayBytes items ≤ limit ↔
        (responseText requestId (.arr items)).length ≤ maxIndexingResponseBytes := by
  have hlength := length_resultText requestId (.arr [])
  have hempty : ((Value.arr []).print floats).length = 2 := rfl
  have hid := length_numU64_le requestId
  rw [print_numU64] at hid
  rw [hempty] at hlength
  have hmax : maxIndexingResponseBytes = 8388608 := rfl
  rw [indexingResultArrayLimit, boundedSerializedBytes, hlength, if_neg (by omega)]
  simp only [bind, Except.bind, pure, Except.pure]
  rw [if_neg (by omega), if_neg (by omega)]
  refine ⟨_, rfl, by omega, by omega, ?_⟩
  intro items
  rw [length_resultText, arrayBytes]
  omega

theorem validateIndexingResponseSize_ok {requestId : UInt64} {result : Value} :
    validateIndexingResponseSize requestId result = .ok () ↔
      (responseText requestId result).length ≤ maxIndexingResponseBytes := by
  rw [validateIndexingResponseSize, boundedSerializedBytes, ← not_lt]
  by_cases h : maxIndexingResponseBytes < (responseText requestId result).length
  · rw [if_pos h]
    simpa [clientError] using h
  · rw [if_neg h]
    exact iff_of_true rfl h

/-- The step: an item is counted exactly when the array with it keeps to the limit. -/
theorem addItem_ok_iff {items : List Value} {item : Value} {limit n : ℕ}
    (hlimit : limit ≤ maxIndexingResponseBytes) (h : arrayBytes items ≤ limit) :
    addBoundedIndexingResponseItem (arrayBytes items) item (!items.isEmpty) limit = .ok n ↔
      arrayBytes (items ++ [item]) ≤ limit ∧ n = arrayBytes (items ++ [item]) := by
  by_cases hfits : arrayBytes (items ++ [item]) ≤ limit
  · rw [arrayBytes, addBounded_fits hlimit hfits]
    constructor
    · intro hn
      exact ⟨hfits, (Except.ok.inj hn).symm⟩
    · rintro ⟨-, rfl⟩
      rfl
  · obtain ⟨e, he⟩ := addBounded_full hlimit h hfits
    rw [arrayBytes, he]
    constructor
    · intro hn
      cases hn
    · rintro ⟨hle, -⟩
      exact absurd hle hfits

end Size

/-! ### The answer in the order of the request -/

/-- The keys of the entries. -/
abbrev foundIds (found : List (String × Value)) : List String := found.map Prod.fst

theorem lookupKey_filter_ne {id id' : String} (h : id' ≠ id) (found : List (String × Value)) :
    lookupKey id' (found.filter fun entry => entry.1 ≠ id) = lookupKey id' found := by
  induction found with
  | nil => rfl
  | cons entry found ih =>
    rw [List.filter_cons]
    by_cases he : entry.1 = id
    · rw [if_neg (by simpa using he), ih, lookupKey, if_neg (by rw [he]; exact h)]
    · rw [if_pos (by simpa using he), lookupKey, lookupKey, ih]

/-- The entry of an id and the entries of the others. -/
theorem perm_cons_filter_ne {id : String} {value : Value} : ∀ {found : List (String × Value)},
    (foundIds found).Nodup → lookupKey id found = some value →
      found.Perm ((id, value) :: found.filter fun entry => entry.1 ≠ id)
  | (id', value') :: found, hnodup, h => by
    obtain ⟨hnot, hrest⟩ := List.nodup_cons.mp hnodup
    rw [lookupKey] at h
    rw [List.filter_cons]
    by_cases he : id = id'
    · subst he
      rw [if_pos rfl] at h
      cases h
      rw [if_neg (by simp), List.filter_eq_self.mpr]
      intro entry hentry
      have hmem : entry.1 ∈ foundIds found := List.mem_map_of_mem hentry
      have hne : entry.1 ≠ id := by
        intro heq
        rw [heq] at hmem
        exact hnot hmem
      simpa using hne
    · rw [if_neg he] at h
      rw [if_pos (by simpa using Ne.symm he)]
      exact ((perm_cons_filter_ne hrest h).cons _).trans (.swap _ _ _)

/-- All that was found is in the answer. -/
theorem takeFound_perm : ∀ {ids : List String} {found : List (String × Value)},
    (foundIds found).Nodup → (∀ id ∈ foundIds found, id ∈ ids) →
      (takeFound found ids).Perm (found.map Prod.snd)
  | [], [], _, _ => .nil
  | [], entry :: found, _, hin => absurd (hin entry.1 (by simp)) (by simp)
  | id :: ids, found, hnodup, hin => by
    rw [takeFound]
    rcases hid : lookupKey id found with _ | value
    · refine takeFound_perm hnodup ?_
      intro id' hid'
      rcases List.mem_cons.mp (hin id' hid') with rfl | hmem
      · rw [← lookupKey_isSome, hid] at hid'
        cases hid'
      · exact hmem
    · have hperm := perm_cons_filter_ne hnodup hid
      have hrest : (foundIds (found.filter fun entry => entry.1 ≠ id)).Nodup :=
        hnodup.sublist (List.filter_sublist.map _)
      refine (List.Perm.cons value (takeFound_perm hrest ?_)).trans (hperm.map Prod.snd).symm
      intro id' hid'
      obtain ⟨entry, hentry, rfl⟩ := List.mem_map.mp hid'
      obtain ⟨hmem, hne⟩ := List.mem_filter.mp hentry
      rcases List.mem_cons.mp (hin entry.1 (List.mem_map_of_mem hmem)) with heq | hin'
      · simp [heq] at hne
      · exact hin'

/-- Every id is answered with what was found for it. -/
theorem takeFound_eq : ∀ {ids : List String} (found : List (String × Value)), ids.Nodup →
    takeFound found ids = ids.filterMap fun id => lookupKey id found
  | [], _, _ => rfl
  | id :: ids, found, hnodup => by
    obtain ⟨hnot, hrest⟩ := List.nodup_cons.mp hnodup
    rw [takeFound, List.filterMap_cons]
    rcases lookupKey id found with _ | value
    · exact takeFound_eq found hrest
    · dsimp only
      rw [takeFound_eq _ hrest]
      refine congrArg (value :: ·) (List.filterMap_congr ?_)
      intro id' hid'
      have hne : id' ≠ id := by
        rintro rfl
        exact hnot hid'
      exact lookupKey_filter_ne hne found

/-! ### The scans -/

section Scans

variable [Externals] {limit : ℕ}

/-- Whatever a section holds, what was found keeps to the limit, and each id was asked for. -/
theorem scanSection_bounded (hlimit : limit ≤ maxIndexingResponseBytes)
    {corpusId sect idKey : String} {idOf : Value → Result String}
    {respond : Value → Result Value} {ids : List String} :
    ∀ {items : List Value} {found out : List (String × Value)},
      (foundIds found).Nodup → (∀ id ∈ foundIds found, id ∈ ids) →
      arrayBytes (found.map Prod.snd) ≤ limit →
      scanSection corpusId sect idKey idOf respond ids limit (arrayBytes (found.map Prod.snd)) found
        items = .ok out →
      (foundIds out).Nodup ∧ (∀ id ∈ foundIds out, id ∈ ids)
        ∧ arrayBytes (out.map Prod.snd) ≤ limit
  | [], found, out, hnodup, hin, hle, h => by
    cases h
    exact ⟨hnodup, hin, hle⟩
  | item :: items, found, out, hnodup, hin, hle, h => by
    rw [scanSection] at h
    obtain ⟨_, -, h⟩ := bind_ok.mp h
    obtain ⟨id, -, h⟩ := bind_ok.mp h
    by_cases hid : id ∈ ids
    · rw [if_neg (by simpa using hid)] at h
      by_cases hdup : (lookupKey id found).isSome = true
      · rw [if_pos hdup] at h
        cases h
      · rw [if_neg hdup] at h
        obtain ⟨answer, -, h⟩ := bind_ok.mp h
        obtain ⟨n, hn, h⟩ := bind_ok.mp h
        have hempty : found.isEmpty = (found.map Prod.snd).isEmpty := by rw [List.isEmpty_map]
        rw [hempty, addItem_ok_iff hlimit hle] at hn
        obtain ⟨hfits, rfl⟩ := hn
        have hmap : found.map Prod.snd ++ [answer] = (found ++ [(id, answer)]).map Prod.snd := by
          simp
        rw [hmap] at hfits h
        have hnew : id ∉ foundIds found := by rwa [← lookupKey_isSome]
        refine scanSection_bounded hlimit ?_ ?_ hfits h
        · rw [foundIds, List.map_append, List.nodup_append]
          refine ⟨hnodup, by simp, ?_⟩
          rintro id' hid' _ hlast rfl
          rw [List.mem_singleton.mp hlast] at hid'
          exact hnew hid'
        · intro id' hid'
          rw [foundIds, List.map_append, List.mem_append] at hid'
          rcases hid' with hold | hlast
          · exact hin id' hold
          · rw [List.mem_singleton.mp hlast]
            exact hid
    · rw [if_pos (by simpa using hid)] at h
      exact scanSection_bounded hlimit hnodup hin hle h

/-- The items that are asked for, each under its id, as they are answered. -/
def picked (name : Value → String) (answer : Value → Value) (ids : List String)
    (items : List Value) : List (String × Value) :=
  (items.filter fun item => ids.contains (name item)).map fun item => (name item, answer item)

omit [Externals] in
theorem picked_cons (name : Value → String) (answer : Value → Value) (ids : List String)
    (item : Value) (items : List Value) :
    picked name answer ids (item :: items) = if name item ∈ ids then
      (name item, answer item) :: picked name answer ids items else picked name answer ids items := by
  by_cases h : name item ∈ ids
  · rw [if_pos h, picked, List.filter_cons_of_pos (by simpa using h)]
    rfl
  · rw [if_neg h, picked, List.filter_cons_of_neg (by simpa using h)]
    rfl

omit [Externals] in
/-- What is picked for an id is the first item of the section that has it. -/
theorem lookupKey_picked {name : Value → String} {answer : Value → Value} {ids : List String}
    {id : String} (hid : id ∈ ids) (items : List Value) :
    lookupKey id (picked name answer ids items)
      = (items.find? fun item => name item == id).map answer := by
  induction items with
  | nil => rfl
  | cons item items ih =>
    rw [picked_cons, List.find?_cons]
    by_cases heq : name item = id
    · rw [if_pos (by rwa [heq]), lookupKey, if_pos heq.symm, beq_iff_eq.mpr heq]
      rfl
    · rw [beq_eq_false_iff_ne.mpr heq]
      dsimp only
      by_cases hin : name item ∈ ids
      · rw [if_pos hin, lookupKey, if_neg (Ne.symm heq), ih]
      · rw [if_neg hin, ih]

/-- An item that passes the checks of the scan, with its id and its answer. -/
structure Scannable (corpusId sect idKey : String) (idOf : Value → Result String)
    (respond : Value → Result Value) (ids : List String) (name : Value → String)
    (answer : Value → Value) (item : Value) : Prop where
  valid : validateStoredSectionItem item corpusId sect idKey = .ok ()
  id : idOf item = .ok (name item)
  answered : name item ∈ ids → respond item = .ok (answer item)

/-- Over well-formed items without a repeated id, the scan succeeds exactly when what is picked
keeps to the limit. -/
theorem scanSection_ok_iff (hlimit : limit ≤ maxIndexingResponseBytes)
    {corpusId sect idKey : String} {idOf : Value → Result String} {respond : Value → Result Value}
    {ids : List String} {name : Value → String} {answer : Value → Value}
    {out : List (String × Value)} : ∀ {items : List Value} {found : List (String × Value)},
      (∀ item ∈ items, Scannable corpusId sect idKey idOf respond ids name answer item) →
      (foundIds found ++ items.map name).Nodup → arrayBytes (found.map Prod.snd) ≤ limit →
      (scanSection corpusId sect idKey idOf respond ids limit (arrayBytes (found.map Prod.snd))
        found items = .ok out ↔
        arrayBytes ((found ++ picked name answer ids items).map Prod.snd) ≤ limit
          ∧ out = found ++ picked name answer ids items)
  | [], found, _, _, hle => by
    rw [scanSection, picked, List.filter_nil, List.map_nil, List.append_nil, Except.ok.injEq]
    constructor
    · rintro rfl
      exact ⟨hle, rfl⟩
    · rintro ⟨-, rfl⟩
      rfl
  | item :: items, found, hitems, hunique, hle => by
    have hitem := hitems item (by simp)
    have hrest : ∀ item' ∈ items,
        Scannable corpusId sect idKey idOf respond ids name answer item' :=
      fun item' hmem => hitems item' (List.mem_cons_of_mem item hmem)
    rw [scanSection, picked_cons, hitem.valid, hitem.id]
    simp only [bind, Except.bind]
    rw [List.map_cons] at hunique
    by_cases hid : name item ∈ ids
    · have hnew : name item ∉ foundIds found := by
        intro hmem
        exact (List.nodup_append.mp hunique).2.2 _ hmem _ (by simp) rfl
      have hunique' : (foundIds (found ++ [(name item, answer item)]) ++ items.map name).Nodup := by
        rwa [foundIds, List.map_append, List.append_assoc]
      have hempty : found.isEmpty = (found.map Prod.snd).isEmpty := by rw [List.isEmpty_map]
      have hmap : found.map Prod.snd ++ [answer item]
          = (found ++ [(name item, answer item)]).map Prod.snd := by simp
      rw [← lookupKey_isSome] at hnew
      rw [if_neg (by simpa using hid), if_neg hnew, hitem.answered hid, if_pos hid]
      dsimp only
      rw [hempty, List.append_cons found _ (picked name answer ids items)]
      by_cases hfits : arrayBytes ((found ++ [(name item, answer item)]).map Prod.snd) ≤ limit
      · rw [(addItem_ok_iff hlimit hle).mpr ⟨by rwa [hmap], rfl⟩, hmap]
        exact scanSection_ok_iff hlimit hrest hunique' hfits
      · -- a part of the answer that is too long makes the whole too long
        have hnot : ¬ arrayBytes ((found ++ [(name item, answer item)]
            ++ picked name answer ids items).map Prod.snd) ≤ limit := by
          rw [List.map_append]
          exact fun h => hfits ((arrayBytes_append_le _ _).trans h)
        rcases hadd : addBoundedIndexingResponseItem (arrayBytes (found.map Prod.snd)) (answer item)
          (!(found.map Prod.snd).isEmpty) limit with e | n
        · exact iff_of_false (fun h => by cases h) fun h => hnot h.1
        · rw [addItem_ok_iff hlimit hle, hmap] at hadd
          exact absurd hadd.1 hfits
    · rw [if_pos (by simpa using hid), if_neg hid]
      refine scanSection_ok_iff hlimit hrest ?_ hle
      exact hunique.sublist ((List.sublist_cons_self _ _).append_left _)

/-! ### The reads by ids -/

section ByIds

variable {snapshots : Map Value} {requestId : UInt64} {corpusId sect idKey : String}
  {idOf : Value → Result String} {respond : Value → Result Value} {ids : List String}

/-- The answer to the ids, each with the item of the section that has it. -/
def answered (name : Value → String) (answer : Value → Value) (ids : List String)
    (items : List Value) : List Value :=
  ids.filterMap fun id => (items.find? fun item => name item == id).map answer

omit [Externals] in
theorem takeFound_picked {name : Value → String} {answer : Value → Value} (hids : ids.Nodup)
    (items : List Value) :
    takeFound (picked name answer ids items) ids = answered name answer ids items := by
  rw [takeFound_eq _ hids, answered]
  refine List.filterMap_congr ?_
  intro id hid
  exact lookupKey_picked hid items

omit [Externals] in
theorem picked_ids {name : Value → String} {answer : Value → Value} (items : List Value) :
    ∀ id ∈ foundIds (picked name answer ids items), id ∈ ids := by
  intro id hid
  simp only [foundIds, picked, List.map_map, List.mem_map, List.mem_filter] at hid
  obtain ⟨item, ⟨-, hin⟩, rfl⟩ := hid
  simpa using hin

omit [Externals] in
theorem picked_nodup {name : Value → String} {answer : Value → Value} {items : List Value}
    (h : (items.map name).Nodup) : (foundIds (picked name answer ids items)).Nodup := by
  rw [foundIds, picked, List.map_map]
  exact h.sublist (List.filter_sublist.map name)

/-- An answer keeps to the limit whatever is stored. -/
theorem answerByIds_bounded {v : Value}
    (h : answerByIds snapshots requestId corpusId sect idKey idOf respond ids = .ok v) :
    (responseText requestId v).length ≤ maxIndexingResponseBytes := by
  obtain ⟨limit, hlimit, hle, htwo, hiff⟩ := indexingResultArrayLimit_ok requestId
  rw [answerByIds] at h
  by_cases hids : ids.isEmpty = true
  · rw [if_pos hids] at h
    cases h
    exact (hiff []).mp htwo
  · rw [if_neg hids] at h
    obtain ⟨limit', hlimit', h⟩ := bind_ok.mp h
    obtain rfl := Except.ok.inj (hlimit.symm.trans hlimit')
    obtain ⟨items, -, h⟩ := bind_ok.mp h
    obtain ⟨found, hscan, h⟩ := bind_ok.mp h
    cases h
    obtain ⟨hnodup, hin, hfits⟩ :=
      @scanSection_bounded _ limit hle _ _ _ _ _ _ items [] found .nil (by simp) htwo hscan
    refine (hiff _).mp ?_
    rwa [arrayBytes_perm (takeFound_perm hnodup hin)]

/-- Over well-formed items the read succeeds exactly when its answer keeps to the limit. -/
theorem answerByIds_ok_iff {items : List Value} {name : Value → String} {answer : Value → Value}
    (hitems : storedItems snapshots corpusId sect = .ok items) (hids : ids.Nodup)
    (hscan : ∀ item ∈ items, Scannable corpusId sect idKey idOf respond ids name answer item)
    (hunique : (items.map name).Nodup) {v : Value} :
    answerByIds snapshots requestId corpusId sect idKey idOf respond ids = .ok v ↔
      (responseText requestId (.arr (answered name answer ids items))).length
          ≤ maxIndexingResponseBytes ∧ v = .arr (answered name answer ids items) := by
  obtain ⟨limit, hlimit, hle, htwo, hiff⟩ := indexingResultArrayLimit_ok requestId
  rw [answerByIds]
  cases ids with
  | nil =>
    rw [if_pos List.isEmpty_nil, answered, List.filterMap_nil]
    constructor
    · intro h
      cases h
      exact ⟨(hiff []).mp htwo, rfl⟩
    · rintro ⟨-, rfl⟩
      rfl
  | cons id ids =>
    have hsize : arrayBytes ((picked name answer (id :: ids) items).map Prod.snd)
        = arrayBytes (answered name answer (id :: ids) items) := by
      rw [← takeFound_picked hids]
      exact (arrayBytes_perm (takeFound_perm (picked_nodup hunique) (picked_ids items))).symm
    rw [if_neg (by simp), ← hiff, ← hsize, ← takeFound_picked hids]
    have hscan_iff := fun out => @scanSection_ok_iff _ limit hle _ _ _ _ _ _ _ _ out items []
      hscan hunique htwo
    constructor
    · intro h
      obtain ⟨limit', hlimit', h⟩ := bind_ok.mp h
      obtain rfl := Except.ok.inj (hlimit.symm.trans hlimit')
      obtain ⟨items', hitems', h⟩ := bind_ok.mp h
      obtain rfl := Except.ok.inj (hitems.symm.trans hitems')
      obtain ⟨found, hfound, h⟩ := bind_ok.mp h
      obtain ⟨hfits, rfl⟩ := (hscan_iff found).mp hfound
      cases h
      exact ⟨hfits, rfl⟩
    · rintro ⟨hfits, rfl⟩
      exact bind_ok.mpr ⟨limit, hlimit, bind_ok.mpr ⟨items, hitems,
        bind_ok.mpr ⟨_, (hscan_iff _).mpr ⟨hfits, rfl⟩, rfl⟩⟩⟩

end ByIds

/-! ### The active facts -/

/-- Over well-formed facts the scan takes the first active ones, and succeeds exactly when they keep
to the limit. -/
theorem scanActive_ok_iff (hlimit : limit ≤ maxIndexingResponseBytes) {corpusId : String}
    {count : ℕ} {out : List Value} : ∀ {facts active : List Value},
      (∀ fact ∈ facts, validateStoredFactItem fact corpusId = .ok ()) → active.length < count →
      arrayBytes active ≤ limit →
      (scanActive corpusId count limit (arrayBytes active) active facts = .ok out ↔
        arrayBytes (active ++ (facts.filter isActive).take (count - active.length)) ≤ limit
          ∧ out = active ++ (facts.filter isActive).take (count - active.length))
  | [], active, _, _, hle => by
    rw [scanActive, List.filter_nil, List.take_nil, List.append_nil, Except.ok.injEq]
    constructor
    · rintro rfl
      exact ⟨hle, rfl⟩
    · rintro ⟨-, rfl⟩
      rfl
  | fact :: facts, active, hfacts, hcount, hle => by
    have hrest : ∀ fact' ∈ facts, validateStoredFactItem fact' corpusId = .ok () :=
      fun fact' hmem => hfacts fact' (List.mem_cons_of_mem fact hmem)
    rw [scanActive, hfacts fact (by simp)]
    simp only [bind, Except.bind]
    by_cases hactive : isActive fact = true
    · have htake : (fact :: facts.filter isActive).take (count - active.length)
          = fact :: (facts.filter isActive).take (count - (active ++ [fact]).length) := by
        rw [List.length_append, List.length_singleton,
          show count - active.length = count - (active.length + 1) + 1 by omega,
          List.take_succ_cons]
      rw [if_pos hactive, List.filter_cons_of_pos hactive, htake,
        List.append_cons active fact (List.take _ _)]
      by_cases hfits : arrayBytes (active ++ [fact]) ≤ limit
      · rw [(addItem_ok_iff hlimit hle).mpr ⟨hfits, rfl⟩]
        dsimp only
        by_cases hfull : (active ++ [fact]).length = count
        · rw [if_pos hfull, hfull, Nat.sub_self, List.take_zero, List.append_nil]
          constructor
          · intro h
            cases h
            exact ⟨hfits, rfl⟩
          · rintro ⟨-, rfl⟩
            rfl
        · rw [if_neg hfull]
          refine scanActive_ok_iff hlimit hrest ?_ hfits
          rw [List.length_append, List.length_singleton] at hfull ⊢
          omega
      · have hnot : ¬ arrayBytes (active ++ [fact]
            ++ (facts.filter isActive).take (count - (active ++ [fact]).length)) ≤ limit :=
          fun h => hfits ((arrayBytes_append_le _ _).trans h)
        rcases hadd : addBoundedIndexingResponseItem (arrayBytes active) fact (!active.isEmpty) limit
          with e | n
        · exact iff_of_false (fun h => by cases h) fun h => hnot h.1
        · rw [addItem_ok_iff hlimit hle] at hadd
          exact absurd hadd.1 hfits
    · rw [if_neg hactive, List.filter_cons_of_neg hactive]
      exact scanActive_ok_iff hlimit hrest hcount hle

/-- Whatever is stored, the active facts that are answered keep to the limit. -/
theorem scanActive_bounded (hlimit : limit ≤ maxIndexingResponseBytes) {corpusId : String}
    {count : ℕ} {out : List Value} : ∀ {facts active : List Value}, arrayBytes active ≤ limit →
      scanActive corpusId count limit (arrayBytes active) active facts = .ok out →
      arrayBytes out ≤ limit
  | [], active, hle, h => by
    cases h
    exact hle
  | fact :: facts, active, hle, h => by
    rw [scanActive] at h
    obtain ⟨_, -, h⟩ := bind_ok.mp h
    by_cases hactive : isActive fact = true
    · rw [if_pos hactive] at h
      obtain ⟨n, hn, h⟩ := bind_ok.mp h
      obtain ⟨hfits, rfl⟩ := (addItem_ok_iff hlimit hle).mp hn
      by_cases hfull : (active ++ [fact]).length = count
      · rw [if_pos hfull] at h
        cases h
        exact hfits
      · rw [if_neg hfull] at h
        exact scanActive_bounded hlimit hfits h
    · rw [if_neg hactive] at h
      exact scanActive_bounded hlimit hle h

/-! ### The facts about entities -/

theorem addFacts_ok_iff (hlimit : limit ≤ maxIndexingResponseBytes) {out : List Value} :
    ∀ {facts : List (String × Value)} {result : List Value}, arrayBytes result ≤ limit →
      (addFacts limit (arrayBytes result) result facts = .ok out ↔
        arrayBytes (result ++ facts.map Prod.snd) ≤ limit ∧ out = result ++ facts.map Prod.snd)
  | [], result, hle => by
    rw [addFacts, List.map_nil, List.append_nil, Except.ok.injEq]
    constructor
    · rintro rfl
      exact ⟨hle, rfl⟩
    · rintro ⟨-, rfl⟩
      rfl
  | (_, fact) :: facts, result, hle => by
    rw [addFacts, List.map_cons]
    dsimp only
    rw [List.append_cons result fact (facts.map Prod.snd)]
    by_cases hfits : arrayBytes (result ++ [fact]) ≤ limit
    · rw [(addItem_ok_iff hlimit hle).mpr ⟨hfits, rfl⟩]
      exact addFacts_ok_iff hlimit hfits
    · have hnot : ¬ arrayBytes (result ++ [fact] ++ facts.map Prod.snd) ≤ limit :=
        fun h => hfits ((arrayBytes_append_le _ _).trans h)
      rcases hadd : addBoundedIndexingResponseItem (arrayBytes result) fact (!result.isEmpty) limit
        with e | n
      · exact iff_of_false (fun h => by cases h) fun h => hnot h.1
      · rw [addItem_ok_iff hlimit hle] at hadd
        exact absurd hadd.1 hfits

section Entities

variable [Bounded.LowercaseTables]

omit [Externals] in
/-- Over well-formed facts every match is kept under its id. -/
theorem matchFacts_ok {corpusId : String} {activeOnly : Bool} {folded : List String}
    {name : Value → String} {facts : List Value}
    (h : ∀ fact ∈ facts, validateStoredFactItem fact corpusId = .ok ()
      ∧ (fact.get "factId").bind Value.asStr = some (name fact)) :
    matchFacts corpusId activeOnly folded facts
      = .ok ((facts.filter fun fact => (!activeOnly || isActive fact) && hits folded fact).map
        fun fact => (name fact, fact)) := by
  induction facts with
  | nil => rfl
  | cons fact facts ih =>
    obtain ⟨hvalid, hname⟩ := h fact (by simp)
    rw [matchFacts, hvalid, ih fun fact' hmem => h fact' (List.mem_cons_of_mem fact hmem), hname]
    simp only [bind, Except.bind, expect, pure, Except.pure]
    have hkeep : ((!activeOnly || isActive fact) && hits folded fact)
        = !((activeOnly && !isActive fact) || !hits folded fact) := by
      cases activeOnly <;> cases isActive fact <;> cases hits folded fact <;> rfl
    by_cases hskip : ((activeOnly && !isActive fact) || !hits folded fact) = true
    · rw [if_pos hskip, List.filter_cons_of_neg (by simp [hkeep, hskip])]
    · rw [if_neg hskip, List.filter_cons_of_pos (by
        rw [hkeep, Bool.not_eq_true', ← Bool.not_eq_true]
        exact hskip)]
      rfl

end Entities

end Scans

end AiraGraphdb.Native
