import AiraGraphdb.Native.Bounded.Pinned

/-! # Requests and what they may use

What a request asks for is bounded before any work is done: its usage by the caps, the memory it can
take by the transient cap. -/

namespace AiraGraphdb.Native.Bounded

open Schemes Schemes.Json

/-- `checked_mul` on 64-bit counters. -/
def checkedMul (a b : ℕ) : Option ℕ := if a * b < 2 ^ 64 then some (a * b) else none

def getU64 (value : Value) (name : String) : Option ℕ :=
  ((value.get name).bind Value.asU64).map UInt64.toNat

def getArray (value : Value) (name : String) : Option (List Value) :=
  (value.get name).bind Value.asArray

def getStr (value : Value) (name : String) : Option String := (value.get name).bind Value.asStr

def getF64 (value : Value) (name : String) : Option F64 :=
  ((value.get name).bind asDouble).filter F64.isFinite

/-! ### Usage -/

structure ResourceUsage where
  vectorDimensions : ℕ := 0
  vectorComparisons : ℕ := 0
  searchSlots : ℕ := 0
  factsInspected : ℕ := 0
  graphNodes : ℕ := 0
  graphEdges : ℕ := 0
  iterations : ℕ := 0
  searchResultLimit : ℕ := 0
  expansionResults : ℕ := 0
  seeds : ℕ := 0
  returnedPassages : ℕ := 0
  returnedFacts : ℕ := 0
  combinedObjects : ℕ := 0

namespace ResourceUsage

/-- Every number within its hard cap. -/
def check (usage : ResourceUsage) : Bool :=
  [(usage.vectorDimensions, maxVectorDimensions),
    (usage.vectorComparisons, maxVectorComparisons),
    (usage.searchSlots, maxSearchSlots),
    (usage.factsInspected, maxFactsInspected),
    (usage.graphNodes, maxGraphNodes),
    (usage.graphEdges, maxGraphEdges),
    (usage.iterations, maxIterations),
    (usage.searchResultLimit, maxSearchResultLimit),
    (usage.expansionResults, maxExpansionResults),
    (usage.seeds, maxSeeds),
    (usage.returnedPassages, maxReturnedPassages),
    (usage.returnedFacts, maxReturnedFacts),
    (usage.combinedObjects, maxCombinedObjects)].all fun limit => decide (limit.1 ≤ limit.2)

/-- The sum of the limits of the slots. -/
def totalLimit (slots : List Value) : Option ℕ :=
  slots.foldlM (fun total slot => do
    let limit ← getU64 slot "limit"
    checkedAdd total limit) 0

def forCandidateSearch (params : Value) : Option ResourceUsage := do
  let slots ← getArray params "slots"
  let dimensions ← slots.mapM fun slot => (getArray slot "queryVector").map List.length
  let limits ← slots.mapM fun slot => getU64 slot "limit"
  let combined ← totalLimit slots
  return {
    searchSlots := slots.length
    vectorDimensions := dimensions.foldl max 0
    searchResultLimit := limits.foldl max 0
    combinedObjects := combined }

def forFactExpand (params : Value) : Option ResourceUsage := do
  let plan ← params.get "plan"
  let _ ← plan.asObject
  let seeds ← getArray plan "seedEntities"
  let limit ← getU64 plan "limit"
  return { seeds := seeds.length, expansionResults := limit }

def forPpr (params : Value) : Option ResourceUsage := do
  let plan ← params.get "plan"
  let _ ← plan.asObject
  let seeds ← getArray plan "seeds"
  let iterations ← getU64 plan "maxIterations"
  let passages ← getU64 plan "passageLimit"
  let facts ← getU64 plan "entityLimit"
  let combined ← checkedAdd passages facts
  return {
    seeds := seeds.length
    iterations := iterations
    returnedPassages := passages
    returnedFacts := facts
    combinedObjects := combined }

def forRequest (method : String) (params : Value) : Option ResourceUsage := do
  let usage ←
    if method = candidateSearch then forCandidateSearch params
    else if method = factExpand then forFactExpand params
    else if method = pprMaterialize then forPpr params
    else none
  if usage.check then some usage else none

end ResourceUsage

/-! ### Memory -/

structure AllocationInput where
  vectorValues : ℕ := 0
  seedEntries : ℕ := 0
  resultEntries : ℕ := 0
  pprScoreEntries : ℕ := 0
  pprNodeEntries : ℕ := 0
  pprEdgeEntries : ℕ := 0
  heapEntries : ℕ := 0
  retainedObjectEntries : ℕ := 0
  scratchBytes : ℕ := 0
  responseBufferBytes : ℕ := 0

namespace AllocationInput

/-- The numbers of entries with the bytes of one; three arrays hold scores. -/
def parts (input : AllocationInput) : List (ℕ × List ℕ) :=
  [(input.vectorValues, [8]), (input.seedEntries, [64]), (input.resultEntries, [64]),
    (input.pprScoreEntries, [3, 8]), (input.pprNodeEntries, [192]), (input.pprEdgeEntries, [64]),
    (input.heapEntries, [64]), (input.retainedObjectEntries, [maxObjectBytes]),
    (input.scratchBytes, []), (input.responseBufferBytes, [])]

def checkedCapacityBytes (input : AllocationInput) : Option ℕ := do
  let bytes ← input.parts.mapM fun part => part.2.foldlM checkedMul part.1
  bytes.foldlM checkedAdd 0

def check (input : AllocationInput) : Option ℕ := do
  if input.responseBufferBytes > maxResponseFrameBytes then none
  else
    let bytes ← input.checkedCapacityBytes
    if bytes > maxTransientBytes then none else some bytes

end AllocationInput

/-! ### Requests -/

structure BoundedRequest where
  id : UInt64
  method : String
  expectedGeneration : UInt64
  remainingBudgetMs : UInt64
  params : Value

def BoundedRequest.fields : List String :=
  ["id", "method", "expectedGeneration", "remainingBudgetMs", "params"]

section Frames

variable [Externals]

def BoundedRequest.read : Reader BoundedRequest := fun limit r => do
  let fs ← Fields.read BoundedRequest.fields true limit r
  return {
    id := ← fs.required "id" (Reader.u64 floats)
    method := ← fs.required "method" Reader.string
    expectedGeneration := ← fs.required "expectedGeneration" (Reader.u64 floats)
    remainingBudgetMs := ← fs.required "remainingBudgetMs" (Reader.u64 floats)
    params := ← fs.required "params" (Reader.value floats) }

/-- A frame is one line with a request in it. -/
def parseRequestFrame (frame : Bytes) : Option BoundedRequest :=
  if maxInputFrameBytes < frame.length then none
  else if frame.getLast? ≠ some 0x0A ∨ 0x0A ∈ frame.dropLast then none
  else if frame.length = 1 then none
  else fromSlice BoundedRequest.read frame.dropLast

end Frames

inductive ReaderState where
  | idle
  | recoveryPending
  | busy
  deriving DecidableEq

structure RequestAdmission where
  nativeRemainderMs : ℕ
  resourceUsage : ResourceUsage

def admitRequest (request : BoundedRequest) (committedGeneration : ℕ) (state : ReaderState) :
    Option RequestAdmission := do
  if maxSafeGeneration < request.expectedGeneration.toNat
      ∨ maxSafeGeneration < committedGeneration then none
  if request.expectedGeneration.toNat ≠ committedGeneration then none
  if state ≠ .idle then none
  let _ ← pinnedContract request.method
  if !validateSemanticRequest request.method request.params then none
  let resourceUsage ← ResourceUsage.forRequest request.method request.params
  return ⟨min request.remainingBudgetMs.toNat maxOperationDeadlineMs, resourceUsage⟩

end AiraGraphdb.Native.Bounded
