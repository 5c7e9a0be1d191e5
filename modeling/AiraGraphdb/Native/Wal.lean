import AiraGraphdb.Native.Methods
import AiraGraphdb.Native.Store

/-! # The write-ahead log of the native store

The log is a sequence of records, each one line of JSON that ends in a line feed. The writer prints
a request in an envelope with the generation it was admitted on. The scanner is a second parser: a
guard watches every byte for nesting and for long envelope strings, and the envelope is read
without looking into the parameters. -/

namespace AiraGraphdb.Native

open Schemes Schemes.Json

def maxWalRecordBytes : ℕ := 536870912
def maxWalBytes : ℕ := 17179869184
def maxWalRecords : ℕ := 1000000
def walVersion : UInt16 := 2

/-- The byte that ends a record. -/
def lineFeed : UInt8 := 0x0A

structure RpcRequest where
  id : UInt64
  method : String
  params : Value

/-! ### Writing -/

def RpcRequest.value (req : RpcRequest) : Value :=
  .obj [("id", numU64 req.id), ("method", .str req.method), ("params", req.params)]

/-- The envelope of a request. -/
def WalRecordRef.value (baseGeneration : UInt64) (req : RpcRequest) : Value :=
  .obj [("version", numU64 walVersion.toUInt64), ("baseGeneration", numU64 baseGeneration),
    ("request", req.value)]

section Record

variable [Externals]

/-- The bytes of a record, its line feed included. -/
def streamWalRecord (baseGeneration : UInt64) (req : RpcRequest) : Bytes :=
  (WalRecordRef.value baseGeneration req).print floats ++ [lineFeed]

end Record

/-! ### The guard -/

structure JsonGuardFrame where
  object : Bool
  expectKey : Bool
  pendingMethod : Bool
  deriving DecidableEq

inductive BoundedStringRole where
  | other
  | envelopeKey
  | methodValue
  deriving DecidableEq

structure GuardedJsonReader where
  /-- The open arrays and objects, innermost first. -/
  frames : List JsonGuardFrame
  inString : Bool
  escaped : Bool
  role : BoundedStringRole
  boundedRaw : Bytes
  deriving DecidableEq

namespace GuardedJsonReader

def maxNesting : ℕ := 128
def maxEnvelopeStringBytes : ℕ := 64
def maxEscapedEnvelopeBytes : ℕ := maxEnvelopeStringBytes * 6

def new : GuardedJsonReader := ⟨[], false, false, .other, []⟩

/-- The innermost frame changed. -/
def mapTop (f : JsonGuardFrame → JsonGuardFrame) : List JsonGuardFrame → List JsonGuardFrame
  | [] => []
  | t :: fs => f t :: fs

def clearPending (fs : List JsonGuardFrame) : List JsonGuardFrame :=
  mapTop (fun f => { f with pendingMethod := false }) fs

/-- A key or a method name of the envelope has to be short; a key is remembered when it is the
method's. -/
def finishBoundedString (g : GuardedJsonReader) : Option GuardedJsonReader :=
  if g.role = .other then some g
  else do
    let decoded ← fromSlice Reader.string (0x22 :: g.boundedRaw ++ [0x22])
    if maxEnvelopeStringBytes < decoded.utf8ByteSize then none
    if g.role = .envelopeKey then
      return { g with frames := mapTop (fun f =>
        { f with expectKey := false, pendingMethod := decoded == "method" }) g.frames }
    else return g

/-- A byte inside a string. -/
def stringByte (g : GuardedJsonReader) (b : UInt8) : Option GuardedJsonReader :=
  let push := if g.role = .other then g.boundedRaw else g.boundedRaw ++ [b]
  if g.escaped then some { g with escaped := false, boundedRaw := push }
  else do
    let g ← if b = 0x5C then some { g with escaped := true, boundedRaw := push }
      else if b = 0x22 then (finishBoundedString g).map fun g =>
        { g with inString := false, role := .other, boundedRaw := [] }
      else some { g with boundedRaw := push }
    if maxEscapedEnvelopeBytes < g.boundedRaw.length then none else some g

/-- What a string that starts here is. -/
def stringRole (frames : List JsonGuardFrame) : BoundedStringRole :=
  match frames with
  | [] => .other
  | f :: _ =>
    if f.object && f.expectKey && decide (frames.length ≤ 2) then .envelopeKey
    else if f.object && f.pendingMethod && decide (frames.length ≤ 2) then .methodValue
    else .other

def isAsciiWhitespace (b : UInt8) : Bool :=
  b == 0x20 || b == 0x09 || b == 0x0A || b == 0x0C || b == 0x0D

/-- A byte between strings. -/
def plainByte (g : GuardedJsonReader) (b : UInt8) : Option GuardedJsonReader :=
  if b = 0x22 then
    let role := stringRole g.frames
    some { g with
      frames := if role = .envelopeKey then g.frames else clearPending g.frames
      inString := true
      escaped := false
      role := role
      boundedRaw := [] }
  else if b = 0x7B ∨ b = 0x5B then
    if maxNesting ≤ g.frames.length then none
    else some { g with
      frames := ⟨b == 0x7B, b == 0x7B, false⟩ :: clearPending g.frames }
  else if b = 0x7D ∨ b = 0x5D then some { g with frames := g.frames.tail }
  else if b = 0x2C then some { g with frames := mapTop (fun f =>
    if f.object then { f with expectKey := true, pendingMethod := false } else f) g.frames }
  else if !isAsciiWhitespace b && b != 0x3A then some { g with frames := clearPending g.frames }
  else some g

def accountByte (g : GuardedJsonReader) (b : UInt8) : Option GuardedJsonReader :=
  if g.inString then stringByte g b else plainByte g b

/-- The guard over some bytes; `none` when it refuses one. -/
def account (g : GuardedJsonReader) : Bytes → Option GuardedJsonReader
  | [] => some g
  | b :: bs => (accountByte g b).bind fun g => account g bs

end GuardedJsonReader

/-! ### The envelope -/

section Scan

variable [Externals]

structure ScannedRpcRequest where
  id : UInt64
  method : String

def ScannedRpcRequest.fields : List String := ["id", "method", "params"]

def ScannedRpcRequest.read : Reader ScannedRpcRequest := fun limit r => do
  let fs ← Fields.read ScannedRpcRequest.fields true limit r
  let id ← fs.required "id" (Reader.u64 floats)
  let method ← fs.required "method" Reader.string
  let _ ← fs.required "params" Reader.ignored
  return ⟨id, method⟩

/-- The six fields an envelope may have, each there or missing. -/
structure ScannedWalEnvelope where
  version : Option UInt16
  baseGeneration : Option UInt64
  request : Option ScannedRpcRequest
  id : Option UInt64
  method : Option String
  params : Option Unit

def ScannedWalEnvelope.fields : List String :=
  ["version", "baseGeneration", "request", "id", "method", "params"]

/-- A field that is there holds a value: unlike an optional one it may not be null. -/
def deserializePresent {α : Type} (fs : Fields) (name : String) (d : Reader α) :
    Option (Option α) :=
  fs.defaulted name (fun limit r => (d limit r).map some) none

def ScannedWalEnvelope.read : Reader ScannedWalEnvelope := fun limit r => do
  let fs ← Fields.read ScannedWalEnvelope.fields true limit r
  return {
    version := ← deserializePresent fs "version" (Reader.u16 floats)
    baseGeneration := ← deserializePresent fs "baseGeneration" (Reader.u64 floats)
    request := ← deserializePresent fs "request" ScannedRpcRequest.read
    id := ← deserializePresent fs "id" (Reader.u64 floats)
    method := ← deserializePresent fs "method" Reader.string
    params := ← deserializePresent fs "params" Reader.ignored }

/-! ### Scanning -/

/-- What a scan has seen of a log. -/
structure WalScanState where
  bytes : ℕ
  recordCount : ℕ
  baseGeneration : Option UInt64
  legacyRaw : Bool
  deriving DecidableEq

def WalScanState.start : WalScanState := ⟨0, 0, none, false⟩

/-- The envelope of a line that the guard lets pass. -/
def scanEnvelope (line : Bytes) : Except String ScannedWalEnvelope :=
  match GuardedJsonReader.new.account line, fromSlice ScannedWalEnvelope.read line with
  | some _, some envelope => .ok envelope
  | _, _ => .error "parse WAL record failed"

/-- One record, its line feed taken off. -/
def scanRecord (allowLegacyGeneration0 : Bool) (st : WalScanState) (line : Bytes) :
    Except String WalScanState := do
  if maxWalRecords ≤ st.recordCount then throw "WAL exceeds aggregate record limit"
  if maxWalRecordBytes < line.length + 1 then
    throw "parse WAL record failed: WAL record exceeds 536870912 bytes"
  let envelope ← scanEnvelope line
  if line.isEmpty then throw "WAL contains a blank record"
  let (recordBaseGeneration, request, legacyRaw) ←
    match envelope with
    | ⟨some version, some baseGeneration, some request, none, none, none⟩ =>
      if version ≠ walVersion then .error ("unsupported WAL version " ++ toString version)
      else if st.legacyRaw then .error "WAL mixes legacy and v2 records"
      else .ok (baseGeneration, request, st.legacyRaw)
    | ⟨none, none, none, some id, some method, some _⟩ =>
      if allowLegacyGeneration0 && st.baseGeneration.all (· == 0) &&
        (st.recordCount == 0 || st.legacyRaw)
      then .ok (0, (⟨id, method⟩ : ScannedRpcRequest), true)
      else .error "WAL record has an invalid envelope shape"
    | _ => .error "WAL record has an invalid envelope shape"
  if isMutatingMethod request.method = false then
    throw "WAL record contains a non-mutating method"
  if request.method = "memory_save_file" then
    throw "WAL record contains a non-canonical memory_save_file request"
  if st.baseGeneration.any (· != recordBaseGeneration) then
    throw "WAL contains mixed base generations"
  if maxWalBytes < st.bytes + (line.length + 1) then throw "WAL exceeds aggregate byte limit"
  return ⟨st.bytes + (line.length + 1), st.recordCount + 1, some recordBaseGeneration, legacyRaw⟩

def scanRecords (allowLegacyGeneration0 : Bool) (st : WalScanState) :
    List Bytes → Except String WalScanState
  | [] => .ok st
  | line :: lines => do
    scanRecords allowLegacyGeneration0 (← scanRecord allowLegacyGeneration0 st line) lines

/-- The complete lines of a text, and what follows the last line feed. -/
def splitLines : Bytes → List Bytes × Bytes
  | [] => ([], [])
  | b :: bs =>
    if b = lineFeed then ([] :: (splitLines bs).1, (splitLines bs).2)
    else match splitLines bs with
      | ([], tail) => ([], b :: tail)
      | (line :: lines, tail) => ((b :: line) :: lines, tail)

structure WalScanEvidence where
  bytes : ℕ
  recordCount : ℕ
  digest : Digest
  baseGeneration : Option UInt64
  legacyRaw : Bool
  deriving DecidableEq

/-- The log as a whole: every record in order, and nothing after the last line feed. -/
def scanWalFile (content : Bytes) (allowLegacyGeneration0 : Bool) :
    Except String WalScanEvidence := do
  if maxWalBytes < content.length then throw "WAL exceeds aggregate byte limit"
  let st ← scanRecords allowLegacyGeneration0 .start (splitLines content).1
  if !(splitLines content).2.isEmpty then 
    throw "parse WAL record failed: WAL final record is missing LF"
  return ⟨st.bytes, st.recordCount, sha256 content, st.baseGeneration, st.legacyRaw⟩

end Scan

end AiraGraphdb.Native
