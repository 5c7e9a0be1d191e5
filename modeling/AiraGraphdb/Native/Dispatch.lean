import AiraGraphdb.Native.Reads

/-! # The request loop of the native server

`runNormal` is one turn of the loop: a frame is read as a request, admitted, handled and answered.
A turn that sets the fatal flag is the last one. Mutations are put into canonical form, checked and
logged before they are applied; everything else goes straight to its handler. -/

namespace AiraGraphdb.Native

open Schemes Schemes.Json

def maxNormalRequestFrameBytes : ℕ := 536870912

structure IncomingRpcRequest where
  id : UInt64
  method : String
  params : Value
  progressProtocolVersion : Option UInt64

def IncomingRpcRequest.intoRpc (req : IncomingRpcRequest) : RpcRequest :=
  ⟨req.id, req.method, req.params⟩

/-- What a request leaves and answers. -/
structure Outcome where
  dir : Dir
  server : Server
  result : Result Value

/-- An outcome that ends the process. -/
def Outcome.fail (dir : Dir) (s : Server) (failure : Failure) : Outcome :=
  ⟨dir, { s with fatal := true }, .error failure⟩

/-- An outcome that leaves everything as it was. -/
def Outcome.refuse (dir : Dir) (s : Server) (message : String) : Outcome :=
  ⟨dir, s, clientError message⟩

/-- The methods of bounded retrieval, which a normal server does not answer. -/
def boundedOperations : List String :=
  ["candidate_search_bounded@1", "fact_expand_bounded@1", "ppr_materialize_bounded@1"]

section Dispatch

variable [Externals] [Runtime]

def IncomingRpcRequest.fields : List String :=
  ["id", "method", "params", "progressProtocolVersion"]

def IncomingRpcRequest.read : Reader IncomingRpcRequest := fun limit r => do
  let fs ← Fields.read IncomingRpcRequest.fields false limit r
  return {
    id := ← fs.required "id" (Reader.u64 floats)
    method := ← fs.required "method" Reader.string
    params := ← fs.defaulted "params" (Reader.value floats) .null
    progressProtocolVersion :=
      ← fs.defaulted "progressProtocolVersion" (Reader.option (Reader.u64 floats)) none }

/-! ### Transactions -/

/-- The held descriptor of an idle log agrees with the directory. -/
def idleWalOk (dir : Dir) (s : Server) : Bool :=
  match s.walFile, s.walIdentity with
  | none, none => true
  | some inode, some identity => inode == identity &&
    dir.wal.any fun wal => wal.inode == identity && wal.content.isEmpty
  | _, _ => false

def batchBegin (host : Host) (dir : Dir) (s : Server) : Outcome :=
  if s.transaction ≠ .idle then .refuse dir s "batch_begin requires an idle transaction"
  else if s.walBytes ≠ 0 ∨ s.walRecordCount ≠ 0 then
    .fail dir s (.app (executionIoError "idle transaction retains WAL evidence"))
  else if !idleWalOk dir s ∨ (host.fault.isSome ∧ s.walFile.isSome) then
    .fail dir s (.app (executionIoError
      "idle WAL descriptor is not the exact zero-length pathname authority"))
  else if !s.activeMutationRequestIds.isEmpty then
    .fail dir s (.app (executionIoError "idle transaction retains mutation request IDs"))
  else match host.nonce with
    | none => .fail dir s (.app (executionIoError "generate transaction nonce failed"))
    | some nonce =>
      ⟨dir, { s with
          walHashed := []
          transaction := .active s.state.generation nonce.hex false },
        .ok (.obj [("transactionNonce", .str nonce.hex)])⟩

def batchPrepareCommit (host : Host) (dir : Dir) (s : Server) : Outcome :=
  match s.transaction with
  | .active _ _ false | .idle =>
    .refuse dir s "batch_prepare_commit requires an active mutated batch"
  | .recoveryPending .. => .refuse dir s "batch_prepare_commit is unavailable during recovery"
  | .active _ _ true | .prepared .. =>
    match prepareCommit host dir s with
    | .error error => .fail dir s (.app (executionIoError ("batch prepare failed: " ++ error)))
    | .ok (evidence, walIdentity) =>
      ⟨dir, { s with transaction := .prepared evidence walIdentity },
        .ok (preparedEvidenceValue evidence)⟩

def evidenceFields : List String :=
  ["schema", "transactionNonce", "baseGeneration", "generation", "walSha256", "walBytes",
    "walRecordCount"]

/-- A number of the evidence, out of range when it is missing. -/
def evidenceU64 (raw : Object) (name : String) : UInt64 :=
  ((lookupKey name raw).bind Value.asU64).getD 18446744073709551615

def evidenceStr (raw : Object) (name : String) : String :=
  ((lookupKey name raw).bind Value.asStr).getD ""

def preparedEvidenceFromParams (params : Value) : Result PreparedCommitEvidence := do
  let object ← ofOption params.asObject (clientFailure "batch_commit params must be an object")
  ensure (object.length = 1)
    (clientFailure "batch_commit requires only preparedCommitEvidence")
  let raw ← ofOption ((lookupKey "preparedCommitEvidence" object).bind Value.asObject)
    (clientFailure "batch_commit requires preparedCommitEvidence")
  ensure (raw.length = evidenceFields.length ∧
      (evidenceFields.all fun f => (lookupKey f raw).isSome) = true)
    (clientFailure "preparedCommitEvidence has an invalid field set")
  ensure ((lookupKey "schema" raw).bind Value.asStr = some preparedCommitEvidenceSchema)
    (clientFailure "preparedCommitEvidence schema is invalid")
  match PreparedCommitEvidence.new (evidenceStr raw "transactionNonce")
      (evidenceU64 raw "baseGeneration") (evidenceU64 raw "generation")
      (evidenceStr raw "walSha256") (evidenceU64 raw "walBytes")
      (evidenceU64 raw "walRecordCount") with
  | .ok evidence => .ok evidence
  | .error error => .error (clientFailure error)

/-- What a commit answers. -/
def tokenValue (generation : UInt64) (descriptor : VectorBlobDescriptor)
    (evidence : StoredCommitEvidence) : Value :=
  .obj [("commitEvidence", evidence.value), ("generation", numU64 generation),
    ("vectorBlob", descriptor.value)]

def batchCommit (host : Host) (dir : Dir) (s : Server) (params : Value) : Outcome :=
  match s.transaction with
  | .idle | .active .. => .refuse dir s "batch_commit requires a prepared transaction"
  | .recoveryPending .. => .refuse dir s "batch_commit is unavailable during recovery"
  | .prepared evidence _ =>
    match preparedEvidenceFromParams params with
    | .error failure => ⟨dir, s, .error failure⟩
    | .ok supplied =>
      if supplied ≠ evidence then
        .refuse dir s "batch_commit evidence does not match the prepared transaction"
      else match persist host dir s supplied with
        | (dir, .error error) =>
          .fail dir s (.app (executionIoError ("batch_commit persist failed: " ++ error)))
        | (dir, .ok (s, stored, descriptor)) =>
          ⟨dir, { s with activeMutationRequestIds := [], transaction := .idle },
            .ok (tokenValue s.state.generation descriptor stored)⟩

/-- Only a client's error leaves a pending recovery as it is. -/
def recoveryDiscard (host : Host) (dir : Dir) (s : Server) (params : Value) : Outcome :=
  match discardRecovery host dir s params with
  | (dir, s, .ok answer) => ⟨dir, s, .ok answer⟩
  | (dir, s, .error (.app error)) =>
    if error.failureClass = .clientInput then ⟨dir, s, .error (.app error)⟩
    else .fail dir s (.app error)
  | (dir, s, .error failure) => .fail dir s failure

/-! ### Handling -/

/-- The server after a mutation: its memory, the key lists of the reads, and the transaction that
has seen it. -/
def Server.mutated (s : Server) (applied : Applied) : Server :=
  { s with
    toMemory := applied.memory
    caches := if applied.cacheDirty then none else s.caches
    transaction := match s.transaction with
      | .active baseGeneration transactionNonce _ => .active baseGeneration transactionNonce true
      | transaction => transaction }

/-- A mutation is checked again, and applied. -/
def handleMutation (dir : Dir) (s : Server) (req : RpcRequest) : Outcome :=
  match (do validateMutationParams s.toMemory req; applyMutation s.toMemory req) with
  | .ok applied => ⟨dir, s.mutated applied, .ok applied.result⟩
  | .error failure => .fail dir s failure

/-- Some reads build the key lists; `answer` stands for what is not modelled. -/
def handleRead (answer : Memory → RpcRequest → Result Value) (dir : Dir) (s : Server)
    (req : RpcRequest) : Outcome :=
  match (if isIndexingMemoryMethod req.method then validateIndexingRequestSize req else .ok ()) with
  | .error failure => ⟨dir, s, .error failure⟩
  | .ok () => ⟨dir, { s with caches := if usesCaches req then some (ensureCache s) else s.caches },
      (modelledRead s req).getD (answer s.toMemory req)⟩

def handlePrepared (answer : Memory → RpcRequest → Result Value) (host : Host) (dir : Dir)
    (s : Server) (req : RpcRequest) : Outcome :=
  if req.method ∈ boundedOperations then
    .refuse dir s "bounded retrieval checkpoint is unavailable; algorithm dispatch is not implemented"
  else match methodSpec req.method with
    | none => ⟨dir, s, .error (.app (unsupportedMethodError req.method))⟩
    | some spec =>
      match s.transaction, spec.classification with
      | .recoveryPending .., .transaction | .recoveryPending .., .commit
      | .recoveryPending .., .mutation | .recoveryPending .., .read
      | .recoveryPending .., .debug =>
        .refuse dir s "recovery pending; ordinary requests are unavailable"
      | .active .., .mutation => handleMutation dir s req
      | _, .mutation =>
        .fail dir s (.app (executionClientError "mutation requires an active batch"))
      | _, .read => handleRead answer dir s req
      | _, .recovery => recoveryDiscard host dir s req.params
      | _, .commit => batchCommit host dir s req.params
      | _, .transaction =>
        if req.method = "batch_begin" then batchBegin host dir s
        else batchPrepareCommit host dir s
      | _, .health => ⟨dir, s, answer s.toMemory req⟩
      | _, .debug => ⟨dir, s, .error (.app (unsupportedMethodError req.method))⟩

/-! ### The loop -/

/-- The snapshot in a file that a client names. -/
def readSnapshotFile (host : Host) (params : Value) : Result Value := do
  let filePath ← ofOption ((params.get "filePath").bind Value.asStr)
    (clientFailure "missing filePath")
  let content ← ofOption (host.readFile filePath) (ioFailure "read snapshot failed")
  ensure ((ofUtf8 content).isSome = true) (ioFailure "read snapshot failed")
  let snapshot ← ofOption (fromSlice (Reader.value floats) content)
    (clientFailure "parse snapshot failed")
  ensure (((snapshot.get "corpusId").bind Value.asStr).isSome = true)
    (clientFailure "missing snapshot.corpusId")
  return snapshot

/-- A snapshot file becomes the snapshot of a save; other requests stay as they are. -/
def canonicalizeRequest (host : Host) (req : RpcRequest) : Result RpcRequest :=
  if req.method ≠ "memory_save_file" then .ok req
  else (readSnapshotFile host req.params).map fun snapshot =>
    ⟨req.id, "memory_save", .obj [("snapshot", snapshot)]⟩

def validateNewMutationRequestId (s : Server) (requestId : UInt64) : Result Unit :=
  if requestId ∈ s.activeMutationRequestIds then
    clientError "mutation request id is already present in the active transaction"
  else .ok ()

/-- A mutation of an active transaction: canonical form, checks, the log, and then its effect. -/
def admitMutation (host : Host) (dir : Dir) (s : Server) (req : RpcRequest) : Outcome :=
  match canonicalizeRequest host req with
  | .error failure => .fail dir s failure
  | .ok canonical =>
    match (do validateNewMutationRequestId s canonical.id
              validateMutationParams s.toMemory canonical) with
    | .error failure => .fail dir s failure
    | .ok () => match walAppend host dir s canonical with
      | (dir, .error error) =>
        .fail dir s (.app (executionIoError ("durability failure: " ++ error)))
      | (dir, .ok s) => handleMutation dir s canonical

def TransactionState.isActive : TransactionState → Bool
  | .active .. => true
  | _ => false

def handleIncoming (answer : Memory → RpcRequest → Result Value) (host : Host) (dir : Dir)
    (s : Server) (wireBytes : ℕ) (incoming : IncomingRpcRequest) : Outcome :=
  let req := incoming.intoRpc
  if isIndexingMemoryMethod req.method ∧ maxIndexingRequestBytes < wireBytes then
    let s := if isMutatingMethod req.method then { s with fatal := true } else s
    .refuse dir s "bounded indexing request exceeds its byte limit"
  else match incoming.progressProtocolVersion with
    | some version =>
      if version ≠ 1 ∨ req.method ≠ "batch_commit" then
        .fail dir s (.app (executionClientError
          "progressProtocolVersion 1 is reserved for batch_commit"))
      else handlePrepared answer host dir s req
    | none =>
      if isMutatingMethod req.method ∧ s.transaction.isActive then admitMutation host dir s req
      else handlePrepared answer host dir s req

structure RpcResponse where
  id : UInt64
  result : Result Value

def invalidRequestError : AppError := ⟨"INVALID_REQUEST_JSON", "invalid request", .clientInput⟩

/-- The white space of Unicode. -/
def isWhiteSpace (c : Char) : Bool :=
  let n := c.toNat
  (9 ≤ n && n ≤ 13) || n == 32 || n == 133 || n == 160 || n == 5760 || (8192 ≤ n && n ≤ 8202) ||
    n == 8232 || n == 8233 || n == 8239 || n == 8287 || n == 12288

/-- One turn of the loop on a line: nothing when the process has ended or ends before it handles
the line. -/
def runNormal (answer : Memory → RpcRequest → Result Value) (s : Server)
    (input : Host × Dir × Bytes) : Option (Server × Dir × Option RpcResponse) :=
  let (host, dir, frame) := input
  if s.fatal ∨ maxNormalRequestFrameBytes < frame.length then none
  else match ofUtf8 frame with
    | none => none
    | some line =>
      if line.toList.all isWhiteSpace then some (s, dir, none)
      else match fromSlice IncomingRpcRequest.read frame with
        | none => some (s, dir, some ⟨0, .error (.app invalidRequestError)⟩)
        | some incoming =>
          let outcome := handleIncoming answer host dir s frame.length incoming
          some (outcome.server, outcome.dir, some ⟨incoming.id, outcome.result⟩)

end Dispatch

end AiraGraphdb.Native
