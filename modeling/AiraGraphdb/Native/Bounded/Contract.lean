import AiraGraphdb.Native.Bounded.Ranking

/-! # The pinned contract

Requests and results are checked against the producer's contract: a schema for each, and assertions
in a small expression language that an interpreter evaluates over the request and the result. No
list of expressions in the pinned contract has more or fewer than two members, and only the
operators it uses are here. Which error a check ends in is not observed. -/

namespace AiraGraphdb.Native.Bounded

open Schemes Schemes.Json

/-! ### Schemas -/

inductive ContractNode where
  | string
  | number
  | boolean
  | literal (values : List Value)
  | array (item : ContractNode)
  | tuple (items : List ContractNode)
  | optional (item : ContractNode)
  | object (fields : List (String × ContractNode))
  | externalRef (dependency referenceKind : String)

/-- Any number as a double. -/
def numberF64 : Number → F64
  | .posInt n => F64.ofInt n.toNat
  | .negInt m => F64.ofInt (-(m + 1 : ℤ))
  | .float x => x.1

def asDouble : Value → Option F64
  | .num n => some (numberF64 n)
  | _ => none

def ContractNode.isOptional : ContractNode → Bool
  | optional _ => true
  | _ => false

/-- The one dependency that nodes refer to. -/
def domainDependency : String := "aira-synapse-domain-contract@1"

mutual

/-- `validate_schema`, with the check of the delegated contract. -/
def validateSchema (domain : String → Value → Bool) : ContractNode → Value → Bool
  | .string, value => value.asStr.isSome
  | .number, value => (asDouble value).any F64.isFinite
  | .boolean, value => value.asBool.isSome
  | .literal values, value => values.any fun expected => expected.beq value
  | .array item, value => match value.asArray with
    | some values => values.all (validateSchema domain item)
    | none => false
  | .tuple items, value => match value.asArray with
    | some values => values.length == items.length && validateItems domain items values
    | none => false
  | .optional item, value => match value with
    | .null => false
    | value => validateSchema domain item value
  | .object fields, value => match value.asObject with
    | some map => map.all (fun m => fields.any fun f => f.1 == m.1) && validateFields domain fields map
    | none => false
  | .externalRef dependency referenceKind, value =>
    dependency == domainDependency && domain referenceKind value

def validateItems (domain : String → Value → Bool) : List ContractNode → List Value → Bool
  | item :: items, value :: values => validateSchema domain item value && validateItems domain items values
  | _, _ => true

def validateFields (domain : String → Value → Bool) : List (String × ContractNode) → Object → Bool
  | [], _ => true
  | (field, child) :: fields, map =>
    (match lookupKey field map with
      | some value => validateSchema domain child value
      | none => child.isOptional) && validateFields domain fields map

end

/-! ### The delegated domain contract -/

def literals (names : List String) : ContractNode := .literal (names.map .str)

def languageNode : ContractNode := literals ["en", "ja", "mixed", "unknown"]

def factNode : ContractNode := .object
  [("confidence", .number), ("corpusId", .string), ("createdAt", .string), ("factId", .string),
    ("granularityParentFactId", .optional .string), ("headEntity", .string), ("headType", .string),
    ("passageIds", .array .string), ("relation", .string), ("schemaId", .string),
    ("sourceDocumentIds", .array .string), ("state", literals ["active", "inactive"]),
    ("tailEntity", .string), ("tailType", .string), ("temporalScope", .optional .string),
    ("updatedAt", .string)]

def passageMetadataNode : ContractNode := .object
  [("chunkId", .string), ("chunkIndex", .number), ("convertedAt", .optional .string),
    ("documentId", .string), ("doi", .optional .string), ("language", languageNode),
    ("offsetEnd", .number), ("offsetStart", .number), ("sectionPath", .array .string),
    ("sourceDb", .optional .string),
    ("sourceType", .optional (literals ["pdf", "html", "docx", "pptx", "md"])),
    ("sourceUrl", .string), ("title", .string)]

def passageNode : ContractNode := .object
  [("corpusId", .string), ("createdAt", .string), ("entityMentions", .array .string),
    ("factIds", .array .string), ("metadata", passageMetadataNode), ("normalizedText", .string),
    ("passageId", .string), ("qualityFlags", .array .string), ("qualityScore", .optional .number),
    ("text", .string), ("updatedAt", .string)]

def schemaNode : ContractNode := .object
  [("aliases", .array (.object [("confidence", .number), ("isCanonical", .boolean),
      ("label", .string), ("language", languageNode),
      ("source", literals ["llm", "nlp", "dictionary", "thesaurus", "manual", "import"])])),
    ("canonicalKey", .string), ("corpusId", .string), ("createdAt", .string),
    ("factIds", .array .string), ("frequency", .number), ("headType", .string),
    ("relation", .string), ("schemaId", .string), ("sourceDocumentIds", .array .string),
    ("stabilizationThreshold", .number), ("state", literals ["pending", "stable"]),
    ("tailType", .string), ("updatedAt", .string), ("version", .number)]

/-- A value of the delegated contract; its nodes delegate nothing further. -/
def validateDomain (referenceKind : String) (value : Value) : Bool :=
  match referenceKind with
  | "fact" => validateSchema (fun _ _ => false) factNode value
  | "passage" => validateSchema (fun _ _ => false) passageNode value
  | "schema" => validateSchema (fun _ _ => false) schemaNode value
  | _ => false

/-! ### Expressions -/

inductive Root where
  | request
  | result

inductive Expr where
  | literal (value : Value)
  | pointer (root : Root) (path : List String)
  | iterationPointer (scope : String) (path : List String)
  | arrayLength (value : Expr)
  | any (first second : Expr)
  | coalesce (first second : Expr)
  | concat (first second : Expr)
  | eq (left right : Expr)
  | lt (left right : Expr)
  | lte (left right : Expr)
  | multiply (left right : Expr)
  | max (first second : Expr)
  | not (value : Expr)
  | normalizeRef (dependency : String) (value : Expr)
  | mapLookup (map key : Expr) (keyField valueField : String)
  | setContains (set value : Expr)
  | fieldEqRef (value expected : Expr)
  | finiteRange (minimum maximum : F64) (value : Expr)
  | safeIntegerRange (minimum : F64) (maximum value : Expr)
  | lengthLteRef (actual limit : Expr)
  | uniqueBy (collection : Expr) (scope : String) (key : Expr)
  | orderedScoreDescIdAsc (collection : Expr) (scope : String) (score id : Expr)
  | forEach (collection : Expr) (scope : String) (predicate : Expr)
  | rankIsIndexPlusOne (collection : Expr) (scope : String) (rank : Expr)

inductive EvalValue where
  | ref (value : Value)
  | refs (values : List Value)
  | owned (value : Value)

namespace EvalValue

def all : EvalValue → List Value
  | ref value => [value]
  | refs values => values
  | owned value => [value]

def one : EvalValue → Option Value
  | ref value => some value
  | owned value => some value
  | refs [value] => some value
  | refs _ => none

def bool (b : Bool) : EvalValue := owned (.bool b)

def asBool (v : EvalValue) : Option Bool := v.one.bind Value.asBool

def asNumber (v : EvalValue) : Option F64 := (v.one.bind asDouble).filter F64.isFinite

def asString (v : EvalValue) : Option String := v.one.bind Value.asStr

/-- An array that is part of the request or the result. -/
def borrowedArray : EvalValue → Option (List Value)
  | ref value => value.asArray
  | _ => none

end EvalValue

def pointerStep (segment : String) (value : Value) : Option (List Value) :=
  if segment = "*" then
    match value with
    | .arr values => some values
    | .obj members => some (members.map Prod.snd)
    | _ => none
  else
    match value with
    | .obj members => (lookupKey segment members).map fun v => [v]
    | .arr values => do
      let index ← Text.digits? segment.toList
      let v ← values[index]?
      return [v]
    | _ => none

def pointerValues : List String → List Value → Option (List Value)
  | [], current => some current
  | segment :: path, current => do
    let next ← current.mapM (pointerStep segment)
    pointerValues path next.flatten

def pointerValue (root : Value) (path : List String) : Option EvalValue := do
  let values ← pointerValues path [root]
  if "*" ∈ path then return .refs values
  else
    let value ← values.head?
    return .ref value

def currentPointer (current : Option (String × Value)) (scope : String) (path : List String) :
    Option EvalValue := do
  let (currentScope, value) ← current
  if currentScope = scope then pointerValue value path else none

def valuesEqual (left right : EvalValue) : Option Bool :=
  match left, right with
  | .refs _, _ => none
  | _, .refs _ => none
  | .ref l, .ref r => some (l.beq r)
  | .ref l, .owned r => some (l.beq r)
  | .owned l, .ref r => some (l.beq r)
  | .owned l, .owned r => some (l.beq r)

def scalarNumber (x : F64) : Option EvalValue :=
  if h : x.isFinite then some (.owned (.num (.float ⟨x, h⟩))) else none

/-- The first entry with this key; an entry that is no object is an error. -/
def lookupEntry (keyField valueField : String) (key : EvalValue) : List Value → Option EvalValue
  | [] => some (.owned .null)
  | entry :: entries => do
    let map ← entry.asObject
    match lookupKey keyField map with
    | some candidate =>
      if ← valuesEqual (.ref candidate) key then (lookupKey valueField map).map .ref
      else lookupEntry keyField valueField key entries
    | none => lookupEntry keyField valueField key entries

def containsValue (value : EvalValue) : List Value → Option Bool
  | [] => some false
  | candidate :: candidates => do
    if ← valuesEqual (.ref candidate) value then return true
    else containsValue value candidates

section Eval

variable {m : Type → Type} [Monad m]

def checked {α : Type} (x : Option α) : OptionT m α := OptionT.mk (pure x)

/-! #### Loops over a collection -/

def uniqueLoop (key : Value → OptionT m EvalValue) : List EvalValue → List Value → OptionT m Bool
  | _, [] => return true
  | keys, item :: items => do
    let k ← key item
    if keys.any fun seen => (valuesEqual seen k).getD false then return false
    else uniqueLoop key (keys ++ [k]) items

def orderedLoop (score id : Value → OptionT m EvalValue) (previous : Option (F64 × String)) :
    List Value → OptionT m Bool
  | [] => return true
  | item :: items => do
    let s ← score item
    let s ← checked s.asNumber
    let i ← id item
    let i ← checked i.asString
    if previous.any fun p => decide (OutOfOrder p.1 p.2 s i) then return false
    else orderedLoop score id (some (s, i)) items

def forEachLoop (predicate : Value → OptionT m EvalValue) : List Value → OptionT m Bool
  | [] => return true
  | item :: items => do
    let v ← predicate item
    let holds ← checked v.asBool
    if holds then forEachLoop predicate items else return false

def rankLoop (rank : Value → OptionT m EvalValue) (index : ℕ) : List Value → OptionT m Bool
  | [] => return true
  | item :: items => do
    let v ← rank item
    let value ← checked v.one
    if value.asU64.map UInt64.toNat = some (index + 1) then rankLoop rank (index + 1) items
    else return false

/-! #### The interpreter -/

structure EvalContext where
  request : Value
  result : Option Value

/-- The value of an expression. The normalizer may be a computation of its own. -/
def eval (normalizer : String → String → OptionT m String) (context : EvalContext)
    (current : Option (String × Value)) : Expr → OptionT m EvalValue
  | .literal value => return .owned value
  | .pointer .request path => checked (pointerValue context.request path)
  | .pointer .result path => checked (context.result.bind fun result => pointerValue result path)
  | .iterationPointer scope path => checked (currentPointer current scope path)
  | .arrayLength value => do
    match ← eval normalizer context current value with
    | .refs values => return .owned (numU64 (UInt64.ofNat values.length))
    | v =>
      let values ← checked (v.one.bind Value.asArray)
      return .owned (numU64 (UInt64.ofNat values.length))
  | .any first second => do
    let v ← eval normalizer context current first
    let b ← checked v.asBool
    if b then return .bool true
    else
      let v ← eval normalizer context current second
      let b ← checked v.asBool
      return .bool b
  | .coalesce first second => do
    let v ← eval normalizer context current first
    match ← checked v.one with
    | .null =>
      let v ← eval normalizer context current second
      match ← checked v.one with
      | .null => return .owned .null
      | _ => return v
    | _ => return v
  | .concat first second => do
    let v ← eval normalizer context current first
    let s ← checked v.asString
    let v ← eval normalizer context current second
    let t ← checked v.asString
    return .owned (.str (s ++ t))
  | .eq left right => do
    let l ← eval normalizer context current left
    let r ← eval normalizer context current right
    return .bool (← checked (valuesEqual l r))
  | .lt left right => do
    let l ← eval normalizer context current left
    let x ← checked l.asNumber
    let r ← eval normalizer context current right
    let y ← checked r.asNumber
    return .bool (F64.lt x y)
  | .lte left right => do
    let l ← eval normalizer context current left
    let x ← checked l.asNumber
    let r ← eval normalizer context current right
    let y ← checked r.asNumber
    return .bool (F64.le x y)
  | .multiply left right => do
    let l ← eval normalizer context current left
    let x ← checked l.asNumber
    let r ← eval normalizer context current right
    let y ← checked r.asNumber
    checked (scalarNumber (F64.mul x y))
  | .max first second => do
    let l ← eval normalizer context current first
    let x ← checked l.asNumber
    let r ← eval normalizer context current second
    let y ← checked r.asNumber
    checked (scalarNumber (maxF64 (maxF64 F64.negInfinity x) y))
  | .not value => do
    let v ← eval normalizer context current value
    let b ← checked v.asBool
    return .bool !b
  | .normalizeRef dependency value => do
    let v ← eval normalizer context current value
    let s ← checked v.asString
    let normalized ← normalizer dependency s
    return .owned (.str normalized)
  | .mapLookup map key keyField valueField => do
    let key ← eval normalizer context current key
    let map ← eval normalizer context current map
    let entries ← checked map.borrowedArray
    checked (lookupEntry keyField valueField key entries)
  | .setContains set value => do
    let set ← eval normalizer context current set
    let values ← checked set.borrowedArray
    let value ← eval normalizer context current value
    return .bool (← checked (containsValue value values))
  | .fieldEqRef value expected => do
    let l ← eval normalizer context current value
    let r ← eval normalizer context current expected
    return .bool (← checked (valuesEqual l r))
  | .finiteRange minimum maximum value => do
    let v ← eval normalizer context current value
    return .bool (v.all.all fun value => (asDouble value).any fun x =>
      x.isFinite && F64.le minimum x && F64.le x maximum)
  | .safeIntegerRange minimum maximum value => do
    let limit ← eval normalizer context current maximum
    let limit ← checked limit.asNumber
    let v ← eval normalizer context current value
    return .bool (v.all.all fun value => value.asU64.any fun n =>
      F64.le minimum (F64.ofInt n.toNat) && F64.le (F64.ofInt n.toNat) limit
        && F64.le (F64.ofInt n.toNat) (F64.ofInt maxSafeGeneration))
  | .lengthLteRef actual limit => do
    let actual ← eval normalizer context current actual
    let limit ← eval normalizer context current limit
    let values ← checked (actual.one.bind Value.asArray)
    let limit ← checked limit.asNumber
    return .bool (F64.le (F64.ofInt values.length) limit)
  | .uniqueBy collection scope key => do
    let collection ← eval normalizer context current collection
    let items ← checked (collection.one.bind Value.asArray)
    return .bool (← uniqueLoop (fun item => eval normalizer context (some (scope, item)) key) [] items)
  | .orderedScoreDescIdAsc collection scope score id => do
    let collection ← eval normalizer context current collection
    let items ← checked (collection.one.bind Value.asArray)
    return .bool (← orderedLoop (fun item => eval normalizer context (some (scope, item)) score)
      (fun item => eval normalizer context (some (scope, item)) id) none items)
  | .forEach collection scope predicate => do
    let collection ← eval normalizer context current collection
    let items ← checked (collection.one.bind Value.asArray)
    return .bool (← forEachLoop
      (fun item => eval normalizer context (some (scope, item)) predicate) items)
  | .rankIsIndexPlusOne collection scope rank => do
    let collection ← eval normalizer context current collection
    let items ← checked (collection.one.bind Value.asArray)
    return .bool (← rankLoop (fun item => eval normalizer context (some (scope, item)) rank) 0 items)

theorem eval_literal (normalizer : String → String → OptionT m String) (context : EvalContext)
    (current : Option (String × Value)) (value : Value) :
    eval normalizer context current (.literal value) = pure (.owned value) := by
  rw [eval]

/-- Every assertion holds; the first that does not ends the check. -/
def evaluateAssertions (normalizer : String → String → OptionT m String) (context : EvalContext) :
    List Expr → OptionT m Unit
  | [] => return ()
  | assertion :: assertions => do
    let v ← eval normalizer context none assertion
    let holds ← checked v.asBool
    if holds then evaluateAssertions normalizer context assertions else checked none

end Eval

end AiraGraphdb.Native.Bounded
