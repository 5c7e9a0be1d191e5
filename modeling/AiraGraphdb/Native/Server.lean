import AiraGraphdb.Native.DeleteDocument
import AiraGraphdb.Schemes.Effects
import AiraGraphdb.Schemes.Except

/-! # The store directory and the server over it

The directory of a store holds the canonical document, the vector blobs and the log; a durable
temporary is written before each of the first two gets its name. Every change of the directory is a
`FileEffect`, and an operation is the list of its effects in their order: a kill or an I/O error
leaves those of a prefix. The server holds what it opened and what its transaction has logged. -/

namespace AiraGraphdb.Native

open Schemes Schemes.Json

/-! ### The directory -/

structure WalFile where
  inode : ℕ
  content : Bytes
  deriving DecidableEq

structure Dir where
  canonical : Option Bytes
  files : Map Bytes
  wal : Option WalFile
  blobTemp : Option Bytes
  jsonTemp : Option Bytes
  quarantined : List WalFile

/-- A directory with no store in it. -/
def Dir.empty : Dir := ⟨none, ∅, none, none, none, []⟩

inductive FileEffect where
  | writeBlobTemp (bytes : Bytes)
  | dropBlobTemp
  | renameBlob (basename : String)
  | writeJsonTemp (bytes : Bytes)
  | renameJson
  | createWal (inode : ℕ)
  | appendWal (byte : UInt8)
  | zeroWal
  | renameWal

def Dir.apply (dir : Dir) : FileEffect → Dir
  | .writeBlobTemp bytes => { dir with blobTemp := some bytes }
  | .dropBlobTemp => { dir with blobTemp := none }
  | .renameBlob basename => match dir.blobTemp with
    | some bytes => { dir with files := dir.files.insert basename bytes, blobTemp := none }
    | none => dir
  | .writeJsonTemp bytes => { dir with jsonTemp := some bytes }
  | .renameJson => match dir.jsonTemp with
    | some bytes => { dir with canonical := some bytes, jsonTemp := none }
    | none => dir
  | .createWal inode => { dir with wal := some ⟨inode, []⟩ }
  | .appendWal byte =>
    { dir with wal := dir.wal.map fun w => { w with content := w.content ++ [byte] } }
  | .zeroWal => { dir with wal := dir.wal.map fun w => { w with content := [] } }
  | .renameWal => match dir.wal with
    | some w => { dir with wal := none, quarantined := dir.quarantined ++ [w] }
    | none => dir

/-- The temporaries that a start finds are removed. -/
def Dir.cleanup (dir : Dir) : Dir := { dir with blobTemp := none, jsonTemp := none }

/-- The directory once an operation is done, or once it has stopped after so many effects. -/
def Dir.run (dir : Dir) (effects : List FileEffect) : Option ℕ → Dir
  | none => done Dir.apply effects dir
  | some k => after Dir.apply k effects dir

/-! ### The server -/

inductive TransactionState where
  | idle
  | active (baseGeneration : UInt64) (transactionNonce : String) (mutationSeen : Bool)
  | prepared (evidence : PreparedCommitEvidence) (walIdentity : ℕ)
  | recoveryPending (baseGeneration : UInt64) (walDigest : Digest) (recordCount : ℕ)
      (walInode : ℕ)
  deriving DecidableEq

/-- The key lists that the reads go through. -/
structure Caches where
  nodeKeysByCorpus : Map (List String)
  edgeKeysByCorpus : Map (List String)
  adjacentEdgeKeysByNode : Map (List String)
  vectorKeysByCorpusNamespace : Map (List String)
  passageKeysByCorpus : Map (List String)

structure Server extends Memory where
  /-- The name of the canonical file without its extension. -/
  dbStem : String
  vectorBlobLineage : List VectorBlobDescriptor
  transaction : TransactionState
  walBytes : ℕ
  walRecordCount : ℕ
  /-- What the rolling hash of the log has been fed. -/
  walHashed : Bytes
  /-- The log that is held open, by its inode. -/
  walFile : Option ℕ
  walIdentity : Option ℕ
  activeMutationRequestIds : List UInt64
  /-- The key lists of the reads, or nothing while they are out of date. -/
  caches : Option Caches
  fatal : Bool

/-- What a request finds outside the process: the system's random source, the inode of a file it
creates, the files a client may name, and after how many effects its file access fails. -/
structure Host where
  nonce : Option Digest
  inode : ℕ
  readFile : String → Option Bytes
  fault : Option ℕ

/-- The log a server has to do with: the one it holds, which must still be the one at the path, or
the one at the path. -/
def openedWal (dir : Dir) (s : Server) : Except String (Option WalFile) :=
  match s.walFile, dir.wal with
  | none, wal => .ok wal
  | some inode, some wal => if wal.inode = inode then .ok (some wal) else
      .error "path no longer names the opened file"
  | some _, none => .error "path no longer names the opened file"

section Native

variable [Externals]

/-! ### Opening -/

def legacyBlobName (dbStem : String) : String := dbStem ++ ".vblob"

/-- The canonical state, or the empty one where there is no file. -/
def readCanonical : Option Bytes → Except String State
  | none => .ok .default
  | some raw => match fromSlice State.read raw with
    | some state => .ok state
    | none => .error "parse canonical state failed"

def openResolved (dbStem : String) (dir : Dir) : Except String Server := do
  let state ← readCanonical dir.canonical
  let _ ← validateStateCommitEvidence state
  let (vectorValues, vectorBlobLineage) ←
    loadVectorValues state dir.files (legacyBlobName dbStem)
  return {
    state := releaseStateVectorValues state
    vectorValues := vectorValues
    dbStem := dbStem
    vectorBlobLineage := vectorBlobLineage
    transaction := .idle
    walBytes := ((dir.wal.map (·.content.length)).getD 0)
    walRecordCount := 0
    walHashed := []
    walFile := none
    walIdentity := none
    activeMutationRequestIds := []
    caches := none
    fatal := false }

/-- A server with nothing in its log. -/
def Server.idleOver (s : Server) (walFile walIdentity : Option ℕ) : Server :=
  { s with
    transaction := .idle
    walBytes := 0
    walRecordCount := 0
    walHashed := []
    walFile := walFile
    walIdentity := walIdentity }

/-- What the canonical state says of the log of an older generation. -/
def residueMatches (state : State) (wal : WalScanEvidence) : Except String Unit :=
  match state.commitEvidence with
  | none => .ok ()
  | some stored => do
    let evidence ← match stored.validate with
      | .ok evidence => .ok evidence
      | .error error => .error ("invalid canonical commit evidence: " ++ error)
    if wal.baseGeneration ≠ some evidence.payload.baseGeneration ∨
        state.generation ≠ evidence.payload.generation ∨
        wal.bytes ≠ evidence.payload.walBytes.toNat ∨
        wal.recordCount ≠ evidence.payload.walRecordCount.toNat ∨
        wal.digest.hex ≠ evidence.payload.walSha256 then
      .error "committed WAL residue does not match canonical commit evidence"
    else .ok ()

/-- What a start makes of the log: the effects on it and the server. -/
def replayWal (dir : Dir) (s : Server) : Except String (List FileEffect × Server) := do
  match dir.wal with
  | none => return ([], s.idleOver none none)
  | some wal =>
    let evidence ← scanWalFile wal.content (s.state.generation == 0)
    if evidence.recordCount = 0 then
      if evidence.bytes ≠ 0 then throw "zero-record WAL has nonzero durable bytes"
      return ([], s.idleOver (some wal.inode) (some wal.inode))
    match evidence.baseGeneration with
    | none => throw "non-empty scanned WAL has a base generation"
    | some walBaseGeneration =>
      if s.state.generation < walBaseGeneration then
        throw "WAL base generation is newer than canonical generation"
      if walBaseGeneration < s.state.generation then
        residueMatches s.state evidence
        return ([.zeroWal], s.idleOver (some wal.inode) (some wal.inode))
      return ([], { s with
        walBytes := evidence.bytes
        walRecordCount := evidence.recordCount
        walFile := some wal.inode
        transaction := .recoveryPending s.state.generation evidence.digest evidence.recordCount
          wal.inode })

/-- A start: the store is opened, temporaries are removed, the log is dealt with. -/
def start (dbStem : String) (dir : Dir) : Except String (Dir × Server) := do
  let s ← openResolved dbStem dir
  let (effects, s) ← replayWal dir.cleanup s
  return (dir.cleanup.run effects none, s)

/-! ### Logging -/

/-- The length of the log that an append goes to: the held one, the one at the path when it is the
known one, or a new one. -/
def appendLength (dir : Dir) (s : Server) : Except String ℕ :=
  match s.walFile, dir.wal with
  | some inode, some wal =>
    if s.walIdentity = some inode ∧ wal.inode = inode then .ok wal.content.length
    else .error "held WAL identity changed before append"
  | some _, none => .error "held WAL identity changed before append"
  | none, some wal =>
    if s.walIdentity = some wal.inode then .ok wal.content.length
    else .error "unexpected WAL inode before append"
  | none, none =>
    if s.walIdentity.isNone then .ok 0 else .error "active WAL disappeared before append"

/-- What is checked before the log is touched; the record that is to be appended. -/
def walAppendCheck (dir : Dir) (s : Server) (req : RpcRequest) : Except String Bytes := do
  ensure (req.id ∉ s.activeMutationRequestIds) "duplicate mutation request id reached WAL append"
  let record := streamWalRecord s.state.generation req
  ensure (record.length ≤ maxWalRecordBytes) "WAL record exceeds 536870912 bytes"
  ensure (s.walBytes + record.length ≤ maxWalBytes) "WAL exceeds aggregate byte limit"
  ensure (s.walRecordCount + 1 ≤ maxWalRecords) "WAL exceeds aggregate record limit"
  let length ← appendLength dir s
  ensure (length = s.walBytes) "WAL byte count changed before append"
  return record

/-- The file is created when there is none; the record reaches it byte by byte. -/
def walAppendEffects (host : Host) (dir : Dir) (record : Bytes) : List FileEffect :=
  (if dir.wal.isNone then [.createWal host.inode] else []) ++ record.map .appendWal

/-- The server with one more record in its log. -/
def Server.logged (s : Server) (req : RpcRequest) (record : Bytes) (inode : ℕ) : Server :=
  { s with
    walIdentity := some inode
    walBytes := s.walBytes + record.length
    walRecordCount := s.walRecordCount + 1
    walHashed := s.walHashed ++ record
    walFile := some inode
    activeMutationRequestIds := s.activeMutationRequestIds ++ [req.id] }

def walAppend (host : Host) (dir : Dir) (s : Server) (req : RpcRequest) :
    Dir × Except String Server :=
  match walAppendCheck dir s req with
  | .error error => (dir, .error error)
  | .ok record =>
    let inode := (dir.wal.map (·.inode)).getD host.inode
    (dir.run (walAppendEffects host dir record) host.fault,
      if host.fault.isSome then .error "WAL I/O failed" else .ok (s.logged req record inode))

/-! ### Preparing -/

/-- The held log is the one at the path, and as long as the server counts it. -/
def heldWal (dir : Dir) (s : Server) : Except String ℕ :=
  match s.walFile, dir.wal with
  | some inode, some wal =>
    if wal.inode = inode ∧ s.walIdentity = some inode ∧ s.walBytes = wal.content.length then
      .ok inode
    else .error "durable WAL identity or byte count changed before prepare"
  | _, _ => .error "durable WAL descriptor is missing"

/-- The evidence of an active transaction and the log it is about. -/
def prepareActive (host : Host) (dir : Dir) (s : Server) (baseGeneration : UInt64)
    (transactionNonce : String) : Except String (PreparedCommitEvidence × ℕ) := do
  ensure (baseGeneration = s.state.generation)
    "active batch base generation does not match canonical generation"
  let walIdentity ← heldWal dir s
  ensure (host.fault.isNone = true) "inspect WAL failed"
  ensure (s.walBytes ≠ 0 ∧ s.walRecordCount ≠ 0)
    "prepare requires one non-empty canonical WAL generation"
  ensure (baseGeneration.toNat + 1 < 2 ^ 64) "generation overflow"
  let evidence ← PreparedCommitEvidence.new transactionNonce baseGeneration (baseGeneration + 1)
    (sha256 s.walHashed).hex (UInt64.ofNat s.walBytes) (UInt64.ofNat s.walRecordCount)
  return (evidence, walIdentity)

/-- A transaction that is prepared already stays as it is. -/
def prepareCommit (host : Host) (dir : Dir) (s : Server) :
    Except String (PreparedCommitEvidence × ℕ) :=
  match s.transaction with
  | .prepared evidence walIdentity => .ok (evidence, walIdentity)
  | .active baseGeneration transactionNonce true =>
    prepareActive host dir s baseGeneration transactionNonce
  | .active _ _ false => .error "prepare requires a successful durable mutation"
  | _ => .error "prepare requires an active mutated batch"

/-! ### Publishing -/

inductive CompactionReason where
  | segments
  | bytes
  deriving DecidableEq

def compactAtLineageSegments : ℕ := 256
def compactAtLineageBytes : ℕ := 12884901888

def compactionReason (segments lineageBytes liveBytes compactAtBytes : ℕ) :
    Option CompactionReason :=
  if compactAtLineageSegments ≤ segments then some .segments
  else if compactAtBytes ≤ lineageBytes ∧ liveBytes / 8 ≤ lineageBytes - liveBytes then some .bytes
  else none

/-- The doubles a vector takes up: what its reference promises, or what is in memory. -/
def liveLength (vectorValues : Map (List F64)) (p : String × VectorRecord) : ℕ :=
  match p.2.blobRef with
  | some blobRef => blobRef.len.toNat
  | none => ((vectorValues[p.1]?).map List.length).getD p.2.values.length

def liveBytes (mem : Memory) : ℕ :=
  (mem.state.vectors.toList.map fun p => liveLength mem.vectorValues p * 8).sum

/-- The values that a vector of the publish set is written with. -/
def publishValues (vectorValues : Map (List F64)) (p : String × VectorRecord) :
    Except String (String × List F64) :=
  match vectorValues[p.1]?, p.2.blobRef with
  | some values, some blobRef =>
    if values.length ≠ blobRef.len.toNat then
      .error ("compaction cannot prove equivalence: vector " ++ p.1 ++ " has " ++
        toString values.length ++ " live values but its reference promises " ++
        toString blobRef.len.toNat)
    else .ok (p.1, values)
  | none, some _ =>
    .error ("compaction cannot prove equivalence: vector " ++ p.1 ++ " has no live values")
  | some values, none => .ok (p.1, values)
  | none, none =>
    if p.2.values.isEmpty then .error ("vector " ++ p.1 ++ " has no values to publish")
    else .ok (p.1, p.2.values)

/-- The vectors to be written: all of them, or those without a reference. -/
def publishSet (compacting : Bool) (vectors : Map VectorRecord) : Map VectorRecord :=
  vectors.filter fun _ v => compacting || v.blobRef.isNone

/-- The references into a segment that holds these values one after another. -/
def segmentRefs (generation : UInt64) :
    ℕ → List (String × List F64) → Except String (List (String × VectorBlobRef))
  | _, [] => .ok []
  | offset, (key, values) :: publish =>
    if 2 ^ 32 ≤ values.length then .error "vector dimensions exceed u32"
    else do
      let refs ← segmentRefs generation (offset + values.length * 8) publish
      return (key, ⟨UInt64.ofNat offset, UInt32.ofNat values.length, some generation⟩) :: refs

/-- The number of a generation in the name of its blob. -/
def paddedGeneration (generation : UInt64) : String :=
  let digits := toString generation
  "".pushn '0' (20 - digits.length) ++ digits

def blobBasename (dbStem : String) (generation : UInt64) (sha256 : String) : String :=
  dbStem ++ ".g" ++ paddedGeneration generation ++ "." ++ sha256 ++ ".vblob"

/-- What a commit has decided before it writes its first byte. -/
structure Publication where
  compacting : Bool
  blob : Bytes
  descriptor : VectorBlobDescriptor
  vectorRefs : Map VectorBlobRef

/-- The reference that each vector is published with. -/
def preparedVectorRefs (vectors : Map VectorRecord) (delta : List (String × VectorBlobRef)) :
    Except String (Map VectorBlobRef) := do
  let refs ← vectors.toList.mapM fun p =>
    match (lookupKey p.1 delta).or p.2.blobRef with
    | some blobRef => .ok (p.1, blobRef)
    | none => .error "vector outside the delta has no blob reference"
  return (∅ : Map VectorBlobRef).insertMany refs

/-- The segment of a commit, with the link to its parent. -/
def segmentBytes (generation : UInt64) (parent : Option VectorBlobDescriptor)
    (publish : List (String × List F64)) : Except String Bytes := do
  return (← encodeBlobHeader generation parent) ++ publish.flatMap fun p => encodeValues p.2

def lineageSize (lineage : List VectorBlobDescriptor) : ℕ :=
  (lineage.map fun d => d.size.toNat).sum

/-- Whether a commit cuts the lineage. -/
def compacts (s : Server) : Bool :=
  s.state.vectorBlob.isSome &&
    (compactionReason s.vectorBlobLineage.length (lineageSize s.vectorBlobLineage)
      (liveBytes s.toMemory) compactAtLineageBytes).isSome

/-- The parent that the segment of a commit is linked to. -/
def segmentParent (s : Server) : Option VectorBlobDescriptor :=
  if compacts s then none else s.state.vectorBlob

/-- The bytes of the lineage that the next start will walk. -/
def projectedLineageBytes (s : Server) (blob : Bytes) : ℕ :=
  if compacts s then blob.length else lineageSize s.vectorBlobLineage + blob.length

def preparePublication (s : Server) (nextGeneration : UInt64) : Except String Publication := do
  ensure (s.state.vectorBlob.isSome → s.vectorBlobLineage.head? = s.state.vectorBlob)
    "vector blob lineage does not start at the committed descriptor"
  ensure ((segmentParent s).isSome → s.vectorBlobLineage.length < maxVectorBlobLineage)
    "vector blob lineage is exhausted; compaction is required"
  let publish ← (publishSet (compacts s) s.state.vectors).toList.mapM (publishValues s.vectorValues)
  let publishBytes := (publish.map fun p => p.2.length * 8).sum
  ensure (compacts s = true →
      publish.length = s.state.vectors.size ∧ publishBytes = liveBytes s.toMemory)
    "compaction cannot prove equivalence: publish set does not match the live set"
  let blob ← segmentBytes nextGeneration (segmentParent s) publish
  ensure (projectedLineageBytes s blob ≤ maxVectorBlobLineageBytes)
    "publishing this generation would leave a lineage above the load ceiling"
  let delta ← segmentRefs nextGeneration 0 publish
  let vectorRefs ← preparedVectorRefs s.state.vectors delta
  let digest := (sha256 blob).hex
  return {
    compacting := compacts s
    blob := blob
    descriptor := ⟨blobBasename s.dbStem nextGeneration digest, UInt64.ofNat blob.length, digest,
      vectorBlobVersion⟩
    vectorRefs := vectorRefs }

/-- The files of a commit in the order in which they change. A blob of the same name that is there
already is kept, the temporary dropped. -/
def publicationEffects (p : Publication) (existing : Bool) (json : Bytes) : List FileEffect :=
  [.writeBlobTemp p.blob,
    if existing then .dropBlobTemp else .renameBlob p.descriptor.basename,
    .writeJsonTemp json, .renameJson, .zeroWal]

/-- The vectors with the references that were published. -/
def publishRefs (vectors : Map VectorRecord) (refs : Map VectorBlobRef) : Map VectorRecord :=
  vectors.map fun k v => match refs[k]? with
    | some blobRef => { v with values := [], blobRef := some blobRef }
    | none => v

/-- The server after its commit. -/
def Server.published (s : Server) (p : Publication) (nextGeneration : UInt64)
    (evidence : StoredCommitEvidence) (walInode : ℕ) : Server :=
  { s with
    state := { s.state with
      generation := nextGeneration
      vectorBlob := some p.descriptor
      commitEvidence := some evidence
      vectors := publishRefs s.state.vectors p.vectorRefs }
    vectorBlobLineage := p.descriptor :: if p.compacting then [] else s.vectorBlobLineage
    walBytes := 0
    walRecordCount := 0
    walHashed := []
    walFile := some walInode
    walIdentity := some walInode }

/-- The log is what was prepared. -/
def walMatches (wal : WalFile) (scanned : WalScanEvidence) (evidence : PreparedCommitEvidence)
    (walIdentity : ℕ) : Prop :=
  wal.inode = walIdentity ∧ scanned.bytes = evidence.payload.walBytes.toNat ∧
    scanned.recordCount = evidence.payload.walRecordCount.toNat ∧
    scanned.digest.hex = evidence.payload.walSha256

instance (wal : WalFile) (scanned : WalScanEvidence) (evidence : PreparedCommitEvidence)
    (walIdentity : ℕ) : Decidable (walMatches wal scanned evidence walIdentity) :=
  inferInstanceAs (Decidable (_ ∧ _))

/-- The evidence a transaction is prepared with. -/
def TransactionState.preparedEvidence : TransactionState → Option (PreparedCommitEvidence × ℕ)
  | .prepared evidence walIdentity => some (evidence, walIdentity)
  | _ => none

/-- The log of a commit, scanned and compared with the evidence. -/
def verifiedWal (dir : Dir) (s : Server) (evidence : PreparedCommitEvidence) (walIdentity : ℕ) :
    Except String WalFile := do
  let wal ← ofOption (← openedWal dir s) "durable WAL disappeared before publication"
  let scanned ← scanWalFile wal.content false
  ensure (scanned.baseGeneration = some s.state.generation)
    "cannot commit with WAL records from a different generation"
  ensure (scanned.recordCount ≠ 0)
    "cannot publish a generation without a durable WAL mutation"
  ensure (walMatches wal scanned evidence walIdentity)
    "durable WAL does not match prepared commit evidence"
  return wal

/-- The checks of a commit: the transaction, the log against the evidence, the lineage. -/
def persistCheck (dir : Dir) (s : Server) (supplied : PreparedCommitEvidence) :
    Except String (WalFile × Publication) := do
  let prepared ← ofOption s.transaction.preparedEvidence
    "generation publication requires prepare"
  ensure (prepared.1 = supplied)
    "batch_commit evidence does not match the prepared transaction"
  ensure (supplied.payload.baseGeneration = s.state.generation)
    "prepared base generation does not match canonical generation"
  ensure (s.state.generation.toNat + 1 < 2 ^ 64) "generation overflow"
  let wal ← verifiedWal dir s supplied prepared.2
  let publication ← preparePublication s (s.state.generation + 1)
  return (wal, publication)

/-- The view that a commit writes. -/
def persistedView (s : Server) (p : Publication) (evidence : PreparedCommitEvidence) :
    PersistedStateView :=
  ⟨s.state, s.state.generation + 1, p.descriptor, p.vectorRefs,
    .fromValidated evidence.commitEvidence⟩

/-- After how many effects a commit stops by itself: a file that already has the blob's name has to
be that blob, and the document has to have a text. -/
def publicationStop (dir : Dir) (p : Publication) (document : Option Value) : Option ℕ :=
  match dir.files[p.descriptor.basename]? with
  | some _ =>
    match readValidatedBlob dir.files p.descriptor with
    | .ok _ => if document.isSome then none else some 2
    | .error _ => some 1
  | none => if document.isSome then none else some 2

/-- The earlier of two stops. -/
def minStop : Option ℕ → Option ℕ → Option ℕ
  | some a, some b => some (min a b)
  | some a, none => some a
  | none, b => b

def persist (host : Host) (dir : Dir) (s : Server) (supplied : PreparedCommitEvidence) :
    Dir × Except String (Server × StoredCommitEvidence × VectorBlobDescriptor) :=
  match persistCheck dir s supplied with
  | .error error => (dir, .error error)
  | .ok (wal, p) =>
    let document := (persistedView s p supplied).value
    let json := (document.map fun v => v.print floats).getD []
    let effects := publicationEffects p (dir.files[p.descriptor.basename]?).isSome json
    let stop := minStop host.fault (publicationStop dir p document)
    let evidence := StoredCommitEvidence.fromValidated supplied.commitEvidence
    (dir.run effects stop,
      if stop.isSome then .error "publish failed"
      else .ok (s.published p (s.state.generation + 1) evidence wal.inode, evidence, p.descriptor))

/-! ### Recovering -/

/-- What is pending: the generation, the digest and the record count of the log, and its inode. -/
structure PendingRecovery where
  baseGeneration : UInt64
  walDigest : Digest
  recordCount : ℕ
  walInode : ℕ

def TransactionState.pending : TransactionState → Option PendingRecovery
  | .recoveryPending baseGeneration walDigest recordCount walInode =>
    some ⟨baseGeneration, walDigest, recordCount, walInode⟩
  | _ => none

def clientFailure (message : String) : Failure := .app (executionClientError message)

def ioFailure (message : String) : Failure := .app (executionIoError message)

/-- A file operation of a request has succeeded, or its failure is an I/O error. -/
def liftIo {α : Type} : Except String α → Result α
  | .ok a => .ok a
  | .error error => .error (ioFailure error)

/-- The client names exactly the generation and the digest that are pending. -/
def discardClientCheck (pending : PendingRecovery) (params : Value) : Result Unit := do
  let object ← ofOption params.asObject (clientFailure "recovery params must be an object")
  let expectedGeneration ← ofOption ((lookupKey "baseGeneration" object).bind Value.asU64)
    (clientFailure "missing baseGeneration")
  let expectedDigest ← ofOption ((lookupKey "walDigest" object).bind Value.asStr)
    (clientFailure "missing walDigest")
  ensure (expectedGeneration = pending.baseGeneration ∧ expectedDigest = pending.walDigest.hex)
    (clientFailure "recovery compare-and-swap failed")

/-- The log that is there is the pending one. -/
def discardWalCheck (dir : Dir) (s : Server) (pending : PendingRecovery) : Result Unit := do
  let wal ← ofOption (← liftIo (openedWal dir s))
    (ioFailure "recovery WAL disappeared before quarantine")
  let current ← liftIo (scanWalFile wal.content (pending.baseGeneration == 0))
  ensure (wal.inode = pending.walInode ∧ current.digest = pending.walDigest ∧
      current.recordCount = pending.recordCount ∧
      current.baseGeneration = some pending.baseGeneration)
    (ioFailure "recovery WAL changed before quarantine")
  let held ← liftIo (scanWalFile wal.content current.legacyRaw)
  ensure (held = current) (ioFailure "recovery WAL changed before quarantine rename")

/-- What a client has to name to discard a log, checked against the log that is there. -/
def discardCheck (dir : Dir) (s : Server) (params : Value) : Result Value := do
  let pending ← ofOption s.transaction.pending
    (clientFailure "recovery_discard requires recovery pending")
  discardClientCheck pending params
  discardWalCheck dir s pending
  return .obj [("baseGeneration", numU64 pending.baseGeneration), ("quarantined", .bool true),
    ("recordCount", numU64 (UInt64.ofNat pending.recordCount)),
    ("walDigest", .str pending.walDigest.hex)]

/-- The server after the log was quarantined. -/
def Server.discarded (s : Server) : Server :=
  { s with
    transaction := .idle
    walBytes := 0
    walRecordCount := 0
    walHashed := []
    walFile := none
    walIdentity := none
    activeMutationRequestIds := [] }

def discardRecovery (host : Host) (dir : Dir) (s : Server) (params : Value) :
    Dir × Server × Result Value :=
  match discardCheck dir s params with
  | .error error => (dir, s, .error error)
  | .ok answer =>
    if host.nonce.isNone then (dir, s, ioError "create recovery nonce failed")
    else if host.fault.isSome then
      (dir.run [.renameWal] host.fault, s, ioError "quarantine recovery WAL failed")
    else (dir.run [.renameWal] none, s.discarded, .ok answer)

end Native

end AiraGraphdb.Native
