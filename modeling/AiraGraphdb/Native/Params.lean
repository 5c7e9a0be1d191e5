import AiraGraphdb.Native.Evidence
import AiraGraphdb.Native.Methods
import AiraGraphdb.Native.Wal
import AiraGraphdb.Schemes.Json.Access

/-! # Reading request parameters

The checks that every validator is built from: a field that has to be a string, an array or an
object, an identifier of bounded length, a set of identifiers without repetition, an object with
exactly these fields. Each refuses with the text of the client error it reports. -/

namespace AiraGraphdb.Native

open Schemes Schemes.Json

/-- How a request can fail: with an error that is reported, or with a panic. -/
inductive Failure where
  | app (error : AppError)
  | panic (message : String)
  deriving DecidableEq

abbrev Result (α : Type) := Except Failure α

def clientError {α : Type} (message : String) : Result α :=
  .error (.app (executionClientError message))

def ioError {α : Type} (message : String) : Result α := .error (.app (executionIoError message))

/-- What the source takes to be there. -/
def expect {α : Type} (x : Option α) (message : String) : Result α :=
  match x with
  | some a => .ok a
  | none => .error (.panic message)

def maxVectorDimensions : ℕ := 4096
def maxIndexingRequestBytes : ℕ := 67108864
def maxIndexingSchemaIds : ℕ := 4096
def maxIndexingDeltaItemsPerSection : ℕ := 4096
def maxIndexingDomainIdBytes : ℕ := 4096
def maxIndexingCorpusIdBytes : ℕ := 1024
def maxIndexingUpdatedAtBytes : ℕ := 128
def maxCanonicalizationSchemas : ℕ := 32
def maxSchemaAliasAdditions : ℕ := maxIndexingDeltaItemsPerSection
def maxSchemaFactIdAdditions : ℕ := maxIndexingDeltaItemsPerSection
def maxSchemaNodeIdBytes : ℕ := 7 + maxIndexingDomainIdBytes
def maxSchemaNodeLabelBytes : ℕ := 3 * maxIndexingDomainIdBytes + 2
def schemaReferenceHydration : String := "memory-schema@1"

/-! ### Checks of lists -/

section Lists

variable {α β : Type}

/-- Every item passes; the first that does not decides the error. -/
def checkAll (check : α → Result Unit) : List α → Result Unit
  | [] => .ok ()
  | x :: xs => do
    check x
    checkAll check xs

theorem checkAll_ok {check : α → Result Unit} {xs : List α} :
    checkAll check xs = .ok () ↔ ∀ x ∈ xs, check x = .ok () := by
  induction xs with
  | nil => simp [checkAll]
  | cons x xs ih =>
    simp only [checkAll, bind, Except.bind, List.mem_cons, forall_eq_or_imp, ← ih]
    rcases check x with e | u
    · simp
    · simp

/-- What every item is read as, when no two are read as the same. -/
def readUnique [DecidableEq β] (read : α → Result β) (duplicate : String)
    (seen : List β) :
    List α → Result (List β)
  | [] => .ok seen
  | x :: xs => do
    let y ← read x
    if y ∈ seen then clientError duplicate
    readUnique read duplicate (seen ++ [y]) xs

end Lists

/-! ### Fields -/

/-- A string of between one and so many bytes. -/
def isBounded (s : String) (maximum : ℕ) : Bool := !s.isEmpty && decide (s.utf8ByteSize ≤ maximum)

def paramsObject (params : Value) : Result Object :=
  match params.asObject with
  | some object => .ok object
  | none => clientError "params must be an object"

def mutationParamsObject (params : Value) : Result Object :=
  match params.asObject with
  | some object => .ok object
  | none => clientError "mutation params must be an object"

def optionalString (params : Object) (name : String) : Result (Option String) :=
  match lookupKey name params with
  | none => .ok none
  | some value => match value.asStr with
    | some s => .ok (some s)
    | none => clientError (name ++ " must be a string")

def requiredString (params : Object) (name : String) : Result String := do
  match ← optionalString params name with
  | some s => .ok s
  | none => clientError ("missing " ++ name)

def optionalArray (params : Object) (name : String) : Result (Option (List Value)) :=
  match lookupKey name params with
  | none => .ok none
  | some value => match value.asArray with
    | some items => .ok (some items)
    | none => clientError (name ++ " must be an array")

def validateStringArray (params : Object) (name : String) : Result Unit := do
  match ← optionalArray params name with
  | none => .ok ()
  | some items => checkAll (fun item => match item.asStr with
      | some _ => .ok ()
      | none => clientError (name ++ " must contain only strings")) items

def joinNames (names : List String) : String := ",".intercalate names

def requireExactParams (params : Object) (allowed : List String) : Result Unit :=
  if params.length ≠ allowed.length ∨ params.any fun m => !allowed.contains m.1 then
    clientError ("params must contain exactly " ++ joinNames allowed)
  else .ok ()

def rejectUnknownParams (params : Object) (allowed : List String) : Result Unit :=
  if params.any fun m => !allowed.contains m.1 then
    clientError "params contain an unknown field"
  else .ok ()

/-- A list of bounded identifiers without repetition. -/
def boundedUniqueIds (params : Object) (name : String) (maximum : ℕ) (allowEmpty : Bool) :
    Result (List String) := do
  let items ← match ← optionalArray params name with
    | some items => .ok items
    | none => clientError ("missing " ++ name)
  let lower := if allowEmpty then 0 else 1
  if items.length < lower ∨ maximum < items.length then
    clientError (name ++ " length must be in [" ++ toString lower ++ ", " ++
      toString maximum ++ "]")
  readUnique (fun item => match item.asStr with
      | some id =>
        if isBounded id maxIndexingDomainIdBytes then .ok id
        else clientError (name ++ " must contain only non-empty strings of at most " ++
          toString maxIndexingDomainIdBytes ++ " bytes")
      | none => clientError (name ++ " must contain only non-empty strings of at most " ++
          toString maxIndexingDomainIdBytes ++ " bytes"))
    (name ++ " must not contain duplicate IDs") [] items

def boundedRequiredString (params : Object) (name : String) (maximumBytes : ℕ) :
    Result String := do
  let value ← requiredString params name
  if isBounded value maximumBytes then return value
  else clientError (name ++ " must contain between 1 and " ++ toString maximumBytes ++ " bytes")

def requireExactObjectKeys (object : Object) (allowed : List String) (label : String) :
    Result Unit :=
  if object.length ≠ allowed.length ∨ object.any fun m => !allowed.contains m.1 then
    clientError (label ++ " has an invalid field set")
  else .ok ()

def boundedObjectString (object : Object) (field : String) (maximum : ℕ) (label : String) :
    Result String :=
  match (lookupKey field object).bind Value.asStr with
  | some value =>
    if isBounded value maximum then .ok value
    else clientError (label ++ "." ++ field ++ " must be a bounded non-empty string")
  | none => clientError (label ++ "." ++ field ++ " must be a bounded non-empty string")

def safeU64Field (object : Object) (field label : String) : Result UInt64 :=
  match (lookupKey field object).bind Value.asU64 with
  | some value =>
    if value.toNat ≤ jsonSafeIntegerMax then .ok value
    else clientError (label ++ "." ++ field ++ " must be a nonnegative safe integer")
  | none => clientError (label ++ "." ++ field ++ " must be a nonnegative safe integer")

section Size

variable [Externals]

/-- The size of the request as it would be written. -/
def validateIndexingRequestSize (req : RpcRequest) : Result Unit :=
  if maxIndexingRequestBytes < (req.value.print floats).length then
    clientError "bounded indexing request exceeds its byte limit"
  else .ok ()

end Size

end AiraGraphdb.Native
