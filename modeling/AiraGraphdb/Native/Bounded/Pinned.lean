import AiraGraphdb.Native.Bounded.Contract

/-! # The three operations of the pinned contract

Their schemas and assertions, in the order of the contract, and the two checks: of a request when it
is admitted, of a request with its result before the result is sent. -/

namespace AiraGraphdb.Native.Bounded

open Schemes Schemes.Json

def candidateSearch : String := "candidate_search_bounded@1"
def factExpand : String := "fact_expand_bounded@1"
def pprMaterialize : String := "ppr_materialize_bounded@1"

def normalizationDigest : String :=
  "v15-entity-normalization-ecmascript-tolowercase-unicode16.0.0@1"

structure Operation where
  request : ContractNode
  result : ContractNode
  requestAssertions : List Expr
  exchangeAssertions : List Expr

/-! ### Assertions that recur -/

def request (path : List String) : Expr := .pointer .request path

def result (path : List String) : Expr := .pointer .result path

def natLiteral (n : UInt64) : Expr := .literal (numU64 n)

def isTrue (value : Expr) : Expr := .fieldEqRef value (.literal (.bool true))

def notEmptyText (value : Expr) : Expr := .not (.eq value (.literal (.str "")))

def maxDouble : F64 := ⟨0x7FEFFFFFFFFFFFFF⟩

/-- The least number above zero. -/
def leastDouble : F64 := ⟨1⟩

def double (n : ℤ) : F64 := F64.ofInt n

/-- An integer from `minimum` to the greatest that JSON keeps exact. -/
def safeInteger (minimum : ℤ) (value : Expr) : Expr :=
  .safeIntegerRange (double minimum) (natLiteral 9007199254740991) value

def corpusNotEmpty : Expr := isTrue (notEmptyText (request ["corpusId"]))

/-- A list of entries is a bounded ranking: not longer than the limit, without repetition, in order. -/
def ranked (collection : List String) (scope idField : String) (limit : List String) : List Expr :=
  [.lengthLteRef (result collection) (request limit),
    .uniqueBy (result collection) scope (.iterationPointer scope [idField]),
    .orderedScoreDescIdAsc (result collection) scope (.iterationPointer scope ["score"])
      (.iterationPointer scope [idField])]

/-- The id of an entry is a prefix and the id of the object in it. -/
def prefixedId (collection : List String) (scope idField text : String) (object : List String) : Expr :=
  .forEach (result collection) scope (.eq (.iterationPointer scope [idField])
    (.concat (.literal (.str text)) (.iterationPointer scope object)))

/-- The object of an entry belongs to the corpus of the request. -/
def sameCorpus (collection : List String) (scope object : String) : Expr :=
  .forEach (result collection) scope
    (.eq (.iterationPointer scope [object, "corpusId"]) (request ["corpusId"]))

/-! ### Candidate search -/

def searchSlotNode (name : String) : ContractNode := .object
  [("limit", .number), ("namespace", literals [name]), ("queryVector", .array .number),
    ("slotId", literals [name]), ("threshold", .number)]

def hitSlotNode (name : String) : ContractNode := .object
  [("hits", .array (.object
      [("id", .string), ("item", .externalRef domainDependency name), ("score", .number)])),
    ("namespace", literals [name]), ("slotId", literals [name])]

def searchRequestAssertions (index : String) : List Expr :=
  [isTrue (.not (.eq (.arrayLength (request ["slots", index, "queryVector"])) (natLiteral 0))),
    .finiteRange (double (-1)) (double 1) (request ["slots", index, "threshold"]),
    safeInteger 1 (request ["slots", index, "limit"])]

def searchExchangeAssertions (index scope text idField : String) : List Expr :=
  let hits := ["slots", index, "hits"]
  ranked hits scope "id" ["slots", index, "limit"]
    ++ [prefixedId hits scope "id" text ["item", idField],
      sameCorpus hits scope "item",
      .forEach (result hits) scope
        (.lte (request ["slots", index, "threshold"]) (.iterationPointer scope ["score"])),
      .forEach (result hits) scope (.lte (.iterationPointer scope ["score"]) (natLiteral 1))]

def candidateSearchOperation : Operation where
  request := .object [("corpusId", .string),
    ("slots", .tuple [searchSlotNode "passage", searchSlotNode "fact", searchSlotNode "schema"])]
  result := .object [("slots", .tuple [hitSlotNode "passage", hitSlotNode "fact", hitSlotNode "schema"])]
  requestAssertions := corpusNotEmpty :: (searchRequestAssertions "0" ++ searchRequestAssertions "1"
    ++ searchRequestAssertions "2")
  exchangeAssertions := searchExchangeAssertions "0" "passageHit" "passage:" "passageId"
    ++ searchExchangeAssertions "1" "factHit" "fact:" "factId"
    ++ searchExchangeAssertions "2" "schemaHit" "schema:" "schemaId"

/-! ### Fact expansion -/

/-- The score of the seed that an entity of the fact is, or `null`. -/
def seedScore (entity : String) : Expr :=
  .mapLookup (request ["plan", "seedEntities"])
    (.normalizeRef normalizationDigest (.iterationPointer "expandedFact" ["fact", entity]))
    "key" "score"

def forEachFact (predicate : Expr) : Expr := .forEach (result ["facts"]) "expandedFact" predicate

def factExpandOperation : Operation where
  request := .object [("corpusId", .string), ("plan", .object
    [("attenuation", .number), ("excludedSeedFactIds", .array .string), ("limit", .number),
      ("normalizationContractDigest", .string),
      ("seedEntities", .array (.object [("key", .string), ("score", .number)]))])]
  result := .object [("facts", .array (.object
    [("fact", .externalRef domainDependency "fact"), ("factId", .string), ("score", .number)]))]
  requestAssertions :=
    [corpusNotEmpty,
      .uniqueBy (request ["plan", "seedEntities"]) "seed" (.iterationPointer "seed" ["key"]),
      .forEach (request ["plan", "seedEntities"]) "seed"
        (notEmptyText (.iterationPointer "seed" ["key"])),
      .forEach (request ["plan", "excludedSeedFactIds"]) "excluded"
        (notEmptyText (.iterationPointer "excluded" [])),
      .finiteRange (double 0) maxDouble (request ["plan", "seedEntities", "*", "score"]),
      .finiteRange (double 0) maxDouble (request ["plan", "attenuation"]),
      safeInteger 1 (request ["plan", "limit"]),
      .fieldEqRef (request ["plan", "normalizationContractDigest"])
        (.literal (.str normalizationDigest))]
  exchangeAssertions := ranked ["facts"] "expandedFact" "factId" ["plan", "limit"]
    ++ [forEachFact (.eq (.iterationPointer "expandedFact" ["factId"])
        (.iterationPointer "expandedFact" ["fact", "factId"])),
      sameCorpus ["facts"] "expandedFact" "fact",
      forEachFact (.not (.setContains (request ["plan", "excludedSeedFactIds"])
        (.iterationPointer "expandedFact" ["factId"]))),
      forEachFact (.any (.not (.eq (seedScore "headEntity") (.literal .null)))
        (.not (.eq (seedScore "tailEntity") (.literal .null)))),
      forEachFact (.eq (.iterationPointer "expandedFact" ["score"])
        (.multiply (.max (.coalesce (seedScore "headEntity") (natLiteral 0))
          (.coalesce (seedScore "tailEntity") (natLiteral 0))) (request ["plan", "attenuation"])))]

/-! ### PPR -/

def rankNode (object : String) : ContractNode := .object
  [(object, .externalRef domainDependency object), ("nodeId", .string), ("rank", .number), ("score", .number)]

/-- Without iterations something has to hold. -/
def unlessIterated (holds : Expr) : Expr :=
  isTrue (.any (.not (.eq (result ["iterations"]) (natLiteral 0))) holds)

/-- The assertions about the ranked nodes of one kind, after the bound on their number. -/
def rankAssertions (collection scope text object idField : String) : List Expr :=
  [.uniqueBy (result [collection]) scope (.iterationPointer scope ["nodeId"]),
    .orderedScoreDescIdAsc (result [collection]) scope (.iterationPointer scope ["score"])
      (.iterationPointer scope ["nodeId"]),
    .rankIsIndexPlusOne (result [collection]) scope (.iterationPointer scope ["rank"]),
    prefixedId [collection] scope "nodeId" text [object, idField],
    sameCorpus [collection] scope object]

def pprOperation : Operation where
  request := .object [("corpusId", .string), ("plan", .object
    [("convergenceEpsilon", .number), ("entityLimit", .number), ("hubDegreeThreshold", .number),
      ("maxIterations", .number), ("passageLimit", .number),
      ("seeds", .array (.object [("nodeId", .string), ("score", .number)])),
      ("teleportProbability", .number)])]
  result := .object
    [("converged", .boolean), ("iterations", .number), ("l1Delta", .number),
      ("rankedFacts", .array (rankNode "fact")), ("rankedPassages", .array (rankNode "passage"))]
  requestAssertions :=
    [corpusNotEmpty,
      .uniqueBy (request ["plan", "seeds"]) "seed" (.iterationPointer "seed" ["nodeId"]),
      .forEach (request ["plan", "seeds"]) "seed" (notEmptyText (.iterationPointer "seed" ["nodeId"])),
      .finiteRange (double 0) (double 1) (request ["plan", "teleportProbability"]),
      .finiteRange leastDouble maxDouble (request ["plan", "convergenceEpsilon"]),
      safeInteger 1 (request ["plan", "maxIterations"]),
      safeInteger 0 (request ["plan", "hubDegreeThreshold"]),
      safeInteger 1 (request ["plan", "passageLimit"]),
      safeInteger 1 (request ["plan", "entityLimit"])]
  exchangeAssertions :=
    [.lengthLteRef (result ["rankedPassages"]) (request ["plan", "passageLimit"]),
      .lengthLteRef (result ["rankedFacts"]) (request ["plan", "entityLimit"])]
    ++ rankAssertions "rankedPassages" "passageRank" "passage:" "passage" "passageId"
    ++ rankAssertions "rankedFacts" "factRank" "fact:" "fact" "factId"
    ++ [.safeIntegerRange (double 0) (request ["plan", "maxIterations"]) (result ["iterations"]),
      .finiteRange (double 0) maxDouble (result ["l1Delta"]),
      unlessIterated (.eq (.arrayLength (result ["rankedPassages"])) (natLiteral 0)),
      unlessIterated (.eq (.arrayLength (result ["rankedFacts"])) (natLiteral 0)),
      unlessIterated (result ["converged"]),
      unlessIterated (.eq (result ["l1Delta"]) (natLiteral 0)),
      .fieldEqRef (result ["converged"])
        (.lt (result ["l1Delta"]) (request ["plan", "convergenceEpsilon"])),
      isTrue (.any (result ["converged"])
        (.eq (result ["iterations"]) (request ["plan", "maxIterations"])))]

/-! ### The checks -/

def pinnedContract (method : String) : Option Operation :=
  if method = candidateSearch then some candidateSearchOperation
  else if method = factExpand then some factExpandOperation
  else if method = pprMaterialize then some pprOperation
  else none

section Checks

variable {m : Type → Type} [Monad m]

def validateSemanticRequestWithNormalizer (method : String) (request : Value)
    (normalizer : String → String → OptionT m String) : OptionT m Unit := do
  let operation ← checked (pinnedContract method)
  checked (guard (validateSchema validateDomain operation.request request))
  evaluateAssertions normalizer ⟨request, none⟩ operation.requestAssertions

def validateSemanticExchange (method : String) (request result : Value)
    (normalizer : String → String → OptionT m String) : OptionT m Unit := do
  let operation ← checked (pinnedContract method)
  checked (guard (validateSchema validateDomain operation.request request))
  checked (guard (validateSchema validateDomain operation.result result))
  evaluateAssertions normalizer ⟨request, none⟩ operation.requestAssertions
  evaluateAssertions normalizer ⟨request, some result⟩ operation.exchangeAssertions

end Checks

def noNormalizer (_dependency _value : String) : OptionT Id String := OptionT.mk none

/-- A request as it is admitted: no assertion about a request normalizes. -/
def validateSemanticRequest (method : String) (request : Value) : Bool :=
  (validateSemanticRequestWithNormalizer method request noNormalizer).run.isSome

end AiraGraphdb.Native.Bounded
