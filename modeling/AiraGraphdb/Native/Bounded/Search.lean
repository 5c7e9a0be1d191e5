import AiraGraphdb.Native.Bounded.Ppr

/-! # Candidate search and fact expansion

Both score what is stored against the request, keep the best and copy the objects of what they
kept. -/

namespace AiraGraphdb.Native.Bounded

open Schemes Schemes.Json

section

variable {R : Type} [Arithmetic R]

open Arithmetic

/-! ### Cosine -/

def largestAbs (values : List R) : R := (values.map Arithmetic.abs).foldl Arithmetic.max zero

def stableCosine (a b : List R) : R :=
  let scaleA := largestAbs a
  let scaleB := largestAbs b
  if eq scaleA zero || eq scaleB zero then zero
  else
    let scaled := (a.zip b).map fun p => (div p.1 scaleA, div p.2 scaleB)
    let dot := scaled.foldl (fun s p => add s (mul p.1 p.2)) zero
    let normA := scaled.foldl (fun s p => add s (mul p.1 p.1)) zero
    let normB := scaled.foldl (fun s p => add s (mul p.2 p.2)) zero
    let denominator := mul (Arithmetic.sqrt normA) (Arithmetic.sqrt normB)
    if eq denominator zero || !isFinite denominator then zero
    else
      let score := div dot denominator
      if isFinite score then score else zero

def cosineWithQueryNorm (query : List R) (queryNorm : R) (vector : List R) : R :=
  if query = [] ∨ vector = [] ∨ query.length ≠ vector.length ∨ eq queryNorm zero
      ∨ vector.any fun value => !isFinite value then zero
  else if !isFinite queryNorm then stableCosine query vector
  else
    let dot := (query.zip vector).foldl (fun s p => add s (mul p.1 p.2)) zero
    let normB := vector.foldl (fun s v => add s (mul v v)) zero
    let denominator := mul queryNorm (Arithmetic.sqrt normB)
    let score := div dot denominator
    if isFinite dot && isFinite normB && isFinite denominator && !eq denominator zero
        && isFinite score then score
    else stableCosine query vector

def boundedCosineWithQueryNorm (query : List R) (queryNorm : R) (vector : List R) : R :=
  clampUnit (cosineWithQueryNorm query queryNorm vector)

def boundedQueryNorm (values : List R) : Option R :=
  if values.any fun value => !isFinite value then none
  else
    let scale := largestAbs values
    if eq scale zero then some zero
    else
      let squares := values.map fun value => mul (div value scale) (div value scale)
      some (mul (Arithmetic.sqrt (Arithmetic.sum squares)) scale)

/-! ### Candidate search -/

structure Hit (R : Type) where
  id : String
  score : R
  item : Value

structure SlotHits (R : Type) where
  slotId : String
  ns : String
  hits : List (Hit R)

def Hit.value (hit : Hit R) : Value :=
  .obj [("id", .str hit.id), ("item", hit.item), ("score", toJson hit.score)]

def SlotHits.value (slot : SlotHits R) : Value :=
  .obj [("hits", .arr (slot.hits.map Hit.value)), ("namespace", .str slot.ns),
    ("slotId", .str slot.slotId)]

def searchValue (slots : List (SlotHits R)) : Value := .obj [("slots", .arr (slots.map SlotHits.value))]

/-- What a slot asks for. -/
structure SlotQuery (R : Type) where
  slotId : String
  ns : String
  threshold : R
  limit : ℕ
  query : List R
  queryNorm : R

def readQueryValue (value : Value) : Run R := do
  let x ← orFail ((asDouble value).filter F64.isFinite) .client
  return ofF64 x

def readSlot (slot : Value) : Run (SlotQuery R) := do
  let slotId ← requiredStr slot "slotId"
  let ns ← requiredStr slot "namespace"
  let threshold ← requiredF64 slot "threshold"
  let limit ← requiredU64 slot "limit"
  let query ← orFail (getArray slot "queryVector") .client
  let query ← query.mapM readQueryValue
  let queryNorm ← orFail (boundedQueryNorm query) .client
  return ⟨slotId, ns, ofF64 threshold, limit, query, queryNorm⟩

/-- The score of a vector that belongs to the slot's corpus and namespace. -/
def vectorScore (vectorValues : Map (List F64)) (slot : SlotQuery R) (key : String)
    (record : VectorRecord) : Run R := do
  require (isStoredDomainId record.id) .integrity
  let vector ← orFail vectorValues[key]? .integrity
  let vector : List R := vector.map ofF64
  require (vector.length = slot.query.length ∧ vector.all isFinite) .integrity
  return boundedCosineWithQueryNorm slot.query slot.queryNorm vector

def searchVector (vectorValues : Map (List F64)) (corpusId : String) (slot : SlotQuery R)
    (retained : List (RankedItem R Unit)) (entry : String × VectorRecord) :
    Run (List (RankedItem R Unit)) := do
  count .vectorComparisons .client
  advance 1
  if entry.2.corpusId ≠ corpusId ∨ entry.2.namespace ≠ slot.ns then return retained
  else
    let score ← vectorScore vectorValues slot entry.1 entry.2
    if le slot.threshold score then
      return retainBoundedRanked retained entry.2.id score () slot.limit
    else return retained

/-- The section that a namespace names, with the prefix of its ids. -/
def namespaceSection (ns : String) : Option (String × String) :=
  if ns = "passage" then some ("passages", "passage:")
  else if ns = "fact" then some ("facts", "fact:")
  else if ns = "schema" then some ("schemas", "schema:")
  else none

variable [Externals]

def materializeHit (state : State) (catalog : Catalog) (corpusId : String)
    (place : String × String) (item : RankedItem R Unit) : Run (Hit R) := do
  let itemId ← orFail (Text.stripPrefix item.id.toList place.2.toList) .integrity
  let object ← Proc.ofExcept
    (boundedSnapshotItem state catalog corpusId place.1 (String.ofList itemId))
  let object ← materializeDomainObject object
  return ⟨item.id, item.score, object⟩

def searchSlot (state : State) (vectorValues : Map (List F64)) (walk : Walk state)
    (catalog : Catalog) (corpusId : String) (slot : Value) : Run (SlotHits R) := do
  let slot : SlotQuery R ← readSlot slot
  let retained ← boundedRankHeap
  let retained ← walk.vectors.foldlM (searchVector vectorValues corpusId slot) retained
  let place ← orFail (namespaceSection slot.ns) .client
  let hits ← (finishBoundedRanking retained).mapM (materializeHit state catalog corpusId place)
  return ⟨slot.slotId, slot.ns, hits⟩

/-- What is bounded before any vector is read. -/
def searchAdmission (state : State) (params : Value) (slots : List Value) : Run Unit := do
  let comparisons ← orBlank (checkedMul state.vectors.size slots.length) .client
  let usage ← orBlank (ResourceUsage.forRequest candidateSearch params) .resource
  let usage := { usage with vectorComparisons := comparisons }
  let _ ← orBlank (guard usage.check) .resource
  let resultCapacity ← slots.foldlM (fun total slot => do
    let limit ← requiredU64 slot "limit"
    orBlank (checkedAdd total limit) .client) 0
  let vectorValues ← orBlank (checkedMul usage.vectorDimensions usage.searchSlots) .client
  let _ ← orBlank (AllocationInput.check {
    vectorValues := vectorValues
    resultEntries := resultCapacity
    heapEntries := resultCapacity
    retainedObjectEntries := resultCapacity
    responseBufferBytes := maxResponseFrameBytes }) .resource
  beforeAllocation

def executeCandidateSearch (state : State) (vectorValues : Map (List F64)) (walk : Walk state)
    (catalog : Catalog) (params : Value) : Run (List (SlotHits R)) := do
  let corpusId ← requiredStr params "corpusId"
  let slots ← orBlank (getArray params "slots") .client
  searchAdmission state params slots
  let results ← slots.mapM (searchSlot state vectorValues walk catalog corpusId)
  checkWork
  return results

/-! ### Fact expansion -/

structure ExpandedFact (R : Type) where
  factId : String
  score : R
  fact : Value

def ExpandedFact.value (fact : ExpandedFact R) : Value :=
  .obj [("fact", fact.fact), ("factId", .str fact.factId), ("score", toJson fact.score)]

def expandValue (facts : List (ExpandedFact R)) : Value :=
  .obj [("facts", .arr (facts.map ExpandedFact.value))]

/-- What a plan asks for. -/
structure ExpandPlan (R : Type) where
  limit : ℕ
  attenuation : R
  seeds : Map F64
  excluded : List String

def readSeedEntity (seed : Value) : Run (String × F64) := do
  let entityKey ← requiredStr seed "key"
  let score ← requiredF64 seed "score"
  return (entityKey, score)

/-- The better of the two seed scores of a fact, attenuated; none when neither entity is a seed. -/
def factScore (plan : ExpandPlan R) (head tail : String) : Option R :=
  if plan.seeds[head]? = none ∧ plan.seeds[tail]? = none then none
  else some (mul (Arithmetic.max ((plan.seeds[head]?.map ofF64).getD zero)
    ((plan.seeds[tail]?.map ofF64).getD zero)) plan.attenuation)

variable [LowercaseTables]

def storedText (value : Value) (name : String) : Run String := orFail (getStr value name) .integrity

def expandFact (plan : ExpandPlan R) (retained : List (RankedItem R Value)) (fact : Value) :
    Run (List (RankedItem R Value)) := do
  count .factsInspected .client
  advance 1
  let factId ← storedText fact "factId"
  if factId ∈ plan.excluded then return retained
  else
    let head ← storedText fact "headEntity"
    let head ← normalizeFactEntity head
    let tail ← storedText fact "tailEntity"
    let tail ← normalizeFactEntity tail
    match factScore plan head tail with
    | none => return retained
    | some score =>
      require (isFinite score = true) .integrity
      return retainBoundedRanked retained factId score fact plan.limit

def materializeFact (item : RankedItem R Value) : Run (ExpandedFact R) := do
  let fact ← materializeDomainObject item.payload
  return ⟨item.id, item.score, fact⟩

/-- What is bounded before any fact is read, and the limit. -/
def expandAdmission (params plan : Value) (facts : ℕ) : Run ℕ := do
  let usage ← orBlank (ResourceUsage.forRequest factExpand params) .resource
  let usage := { usage with factsInspected := facts }
  let _ ← orBlank (guard usage.check) .resource
  let limit ← requiredU64 plan "limit"
  let _ ← orBlank (AllocationInput.check {
    seedEntries := usage.seeds
    resultEntries := limit
    heapEntries := limit
    retainedObjectEntries := limit
    responseBufferBytes := maxResponseFrameBytes
    scratchBytes := maxObjectBytes * 6 }) .resource
  beforeAllocation
  return limit

def readExpandPlan (plan : Value) (limit : ℕ) : Run (ExpandPlan R) := do
  let attenuation ← requiredF64 plan "attenuation"
  let seeds ← orBlank (getArray plan "seedEntities") .client
  let seeds ← seeds.mapM readSeedEntity
  let excluded ← orBlank (getArray plan "excludedSeedFactIds") .client
  let excluded ← excluded.mapM fun value => orBlank value.asStr .client
  return ⟨limit, ofF64 attenuation, seeds.foldl (fun map seed => map.insert seed.1 seed.2) ∅, excluded⟩

def executeFactExpand (state : State) (params : Value) : Run (List (ExpandedFact R)) := do
  let corpusId ← requiredStr params "corpusId"
  let plan ← orBlank (params.get "plan") .client
  let facts ← Proc.ofExcept (boundedSnapshotItems state corpusId "facts")
  let limit ← expandAdmission params plan facts.length
  let plan : ExpandPlan R ← readExpandPlan plan limit
  let retained ← boundedRankHeap
  let retained ← facts.foldlM (expandFact plan) retained
  (finishBoundedRanking retained).mapM materializeFact

end

end AiraGraphdb.Native.Bounded
