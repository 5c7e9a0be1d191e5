import AiraGraphdb.Native.Evidence
import AiraGraphdb.Native.Wal
import AiraGraphdb.Native.Blob
import AiraGraphdb.Schemes.Except

/-! # Progress frames of a commit

While a commit runs, the owner writes a frame at the entry of each phase and, at the cadence of the
policy, in between. The emitter keeps enough of the policy's frame budget back for the phases still
to come. The calls a commit makes are `commitCalls`; what they are made of (reads, writes, vectors)
is a `CommitWork`. -/

namespace AiraGraphdb.Native

open Schemes Schemes.Json

def batchCommitPhases : List String :=
  ["admitted", "wal_verify", "prepare_refs", "vector_write", "vector_sync", "vector_publish",
    "vector_dir_sync", "json_write", "json_sync", "json_publish", "json_dir_sync", "wal_zero",
    "wal_sync", "complete"]

def nativeProgressPolicySchema : String := "NativeProgressPolicy@1"

def nativeProgressFrameSchema : String := "NativeProgressFrame@1"

def nativeProgressProtocolVersion : ℕ := 1

/-- `validate_safe_integer` on a counter held as a number. -/
def validateSafeCounter (name : String) (value : ℕ) (allowZero : Bool) : Except String Unit :=
  if jsonSafeIntegerMax < value ∨ (allowZero = false ∧ value = 0) then
    .error (name ++ " is outside the canonical safe-integer range")
  else .ok ()

theorem validateSafeCounter_ok {name : String} {value : ℕ} {allowZero : Bool} {u : Unit} :
    validateSafeCounter name value allowZero = .ok u
      ↔ value ≤ jsonSafeIntegerMax ∧ (allowZero = false → 0 < value) := by
  unfold validateSafeCounter
  split
  · next h =>
    constructor
    · intro h'
      cases h'
    · rintro ⟨hle, hpos⟩
      rcases h with h | ⟨h, h0⟩
      · omega
      · have := hpos h
        omega
  · next h =>
    obtain ⟨h1, h2⟩ := not_or.mp h
    constructor
    · intro _
      refine ⟨by omega, ?_⟩
      intro hz
      by_contra h0
      exact h2 ⟨hz, by omega⟩
    · intro _
      rfl

/-- `checked_add` on 64-bit counters. -/
def checkedAdd (a b : ℕ) : Option ℕ := if a + b < 2 ^ 64 then some (a + b) else none

theorem checkedAdd_of_lt {a b : ℕ} (h : a + b < 2 ^ 64) : checkedAdd a b = some (a + b) := by
  rw [checkedAdd, if_pos h]

/-! ### The policy -/

structure RawPhaseHardDeadline where
  phase : String
  deadlineMs : ℕ

structure RawNativeProgressMethodPolicy where
  method : String
  phases : List String
  initialFrameDeadlineMs : ℕ
  inactivityDeadlineMs : ℕ
  phaseHardDeadlineMs : List RawPhaseHardDeadline
  absoluteDeadlineMs : ℕ
  minFrameIntervalMs : ℕ
  heartbeatIntervalMs : ℕ
  earlyByteDelta : ℕ
  earlyUnitDelta : ℕ
  maxFrames : ℕ
  maxFrameBytes : ℕ

structure RawNativeProgressPolicy where
  schema : String
  protocolVersion : ℕ
  methods : List RawNativeProgressMethodPolicy

structure NativeProgressPolicy where
  initialFrameDeadlineMs : ℕ
  inactivityDeadlineMs : ℕ
  phaseHardDeadlineMs : List (String × ℕ)
  absoluteDeadlineMs : ℕ
  minFrameIntervalMs : ℕ
  heartbeatIntervalMs : ℕ
  earlyByteDelta : ℕ
  earlyUnitDelta : ℕ
  maxFrames : ℕ
  maxFrameBytes : ℕ
  deriving DecidableEq

/-- The deadline of one phase, which has to be the next phase of the inventory. -/
def phaseHardDeadline (entry : RawPhaseHardDeadline × String) : Except String (String × ℕ) := do
  ensure (entry.1.phase = entry.2) "phase deadline order does not match phase inventory"
  validateSafeCounter "phaseHardDeadlineMs.deadlineMs" entry.1.deadlineMs false
  pure (entry.1.phase, entry.1.deadlineMs)

/-- The plain numbers of a method policy under the names its errors use. -/
def RawNativeProgressMethodPolicy.numbers (raw : RawNativeProgressMethodPolicy) :
    List (String × ℕ) :=
  [("initialFrameDeadlineMs", raw.initialFrameDeadlineMs),
    ("inactivityDeadlineMs", raw.inactivityDeadlineMs),
    ("absoluteDeadlineMs", raw.absoluteDeadlineMs),
    ("minFrameIntervalMs", raw.minFrameIntervalMs),
    ("heartbeatIntervalMs", raw.heartbeatIntervalMs),
    ("earlyByteDelta", raw.earlyByteDelta),
    ("earlyUnitDelta", raw.earlyUnitDelta),
    ("maxFrames", raw.maxFrames),
    ("maxFrameBytes", raw.maxFrameBytes)]

/-- The heartbeats that fit in a span of time, rounded up. -/
def heartbeats (span interval : ℕ) : Option ℕ :=
  (checkedAdd span (interval - 1)).map (· / interval)

def NativeProgressPolicy.tryFrom (raw : RawNativeProgressPolicy) :
    Except String NativeProgressPolicy := do
  ensure (raw.schema = nativeProgressPolicySchema
      ∧ raw.protocolVersion = nativeProgressProtocolVersion ∧ raw.methods.length = 1)
    "progress policy schema, version, or method set is invalid"
  let m ← ofOption raw.methods.head? "validated one method"
  ensure (m.method = "batch_commit" ∧ m.phases = batchCommitPhases
      ∧ m.phaseHardDeadlineMs.length = batchCommitPhases.length)
    "batch_commit progress inventory is invalid"
  let deadlines ← (m.phaseHardDeadlineMs.zip batchCommitPhases).mapM phaseHardDeadline
  m.numbers.forM fun entry => validateSafeCounter entry.1 entry.2 false
  ensure (m.minFrameIntervalMs ≤ m.heartbeatIntervalMs)
    "heartbeat interval cannot be below the frame interval"
  let heartbeatFrames ← ofOption (heartbeats m.absoluteDeadlineMs m.heartbeatIntervalMs)
    "progress frame budget arithmetic overflow"
  let mandatoryFrames ← ofOption (checkedAdd batchCommitPhases.length heartbeatFrames)
    "progress frame budget arithmetic overflow"
  ensure (mandatoryFrames ≤ m.maxFrames) "progress policy cannot reserve all mandatory frames"
  pure {
    initialFrameDeadlineMs := m.initialFrameDeadlineMs
    inactivityDeadlineMs := m.inactivityDeadlineMs
    phaseHardDeadlineMs := deadlines
    absoluteDeadlineMs := m.absoluteDeadlineMs
    minFrameIntervalMs := m.minFrameIntervalMs
    heartbeatIntervalMs := m.heartbeatIntervalMs
    earlyByteDelta := m.earlyByteDelta
    earlyUnitDelta := m.earlyUnitDelta
    maxFrames := m.maxFrames
    maxFrameBytes := m.maxFrameBytes }

/-- What an accepted policy promises the emitter. -/
structure NativeProgressPolicy.Accepted (policy : NativeProgressPolicy) : Prop where
  heartbeat_pos : 0 < policy.heartbeatIntervalMs
  heartbeat_le : policy.heartbeatIntervalMs ≤ jsonSafeIntegerMax
  absolute_le : policy.absoluteDeadlineMs ≤ jsonSafeIntegerMax
  maxFrames_le : policy.maxFrames ≤ jsonSafeIntegerMax
  phases_le : batchCommitPhases.length ≤ policy.maxFrames

theorem forM_ok {α : Type} {f : α → Except String Unit} {u : Unit} :
    ∀ {xs : List α}, xs.forM f = .ok u → ∀ x ∈ xs, f x = .ok ()
  | [], _ => by simp
  | x :: xs, h => by
    obtain ⟨_, hx, h⟩ := bind_ok.mp (show (f x >>= fun _ => xs.forM f) = .ok u from h)
    intro y hy
    rcases List.mem_cons.mp hy with rfl | hy
    · exact hx
    · exact forM_ok h y hy

theorem NativeProgressPolicy.tryFrom_accepted {raw : RawNativeProgressPolicy}
    {policy : NativeProgressPolicy} (h : NativeProgressPolicy.tryFrom raw = .ok policy) :
    policy.Accepted := by
  unfold NativeProgressPolicy.tryFrom at h
  obtain ⟨_, -, h⟩ := bind_ok.mp h
  obtain ⟨m, -, h⟩ := bind_ok.mp h
  obtain ⟨_, -, h⟩ := bind_ok.mp h
  obtain ⟨deadlines, -, h⟩ := bind_ok.mp h
  obtain ⟨_, hnum, h⟩ := bind_ok.mp h
  obtain ⟨_, -, h⟩ := bind_ok.mp h
  obtain ⟨beats, -, h⟩ := bind_ok.mp h
  obtain ⟨mandatory, hm, h⟩ := bind_ok.mp h
  obtain ⟨_, hle, h⟩ := bind_ok.mp h
  cases h
  have number : ∀ entry ∈ m.numbers, entry.2 ≤ jsonSafeIntegerMax ∧ 0 < entry.2 := by
    intro entry he
    have := validateSafeCounter_ok.mp (forM_ok hnum entry he)
    exact ⟨this.1, this.2 rfl⟩
  have hbeat := number ("heartbeatIntervalMs", m.heartbeatIntervalMs)
    (by simp [RawNativeProgressMethodPolicy.numbers])
  have habs := number ("absoluteDeadlineMs", m.absoluteDeadlineMs)
    (by simp [RawNativeProgressMethodPolicy.numbers])
  have hmax := number ("maxFrames", m.maxFrames)
    (by simp [RawNativeProgressMethodPolicy.numbers])
  have hmand : mandatory = batchCommitPhases.length + beats := by
    have hm := ofOption_ok.mp hm
    unfold checkedAdd at hm
    split at hm
    · exact (Option.some.inj hm).symm
    · cases hm
  have hle := ensure_ok.mp hle
  exact ⟨hbeat.2, hbeat.1, habs.1, hmax.1, by simp only; omega⟩

/-! ### Counters and frames -/

structure ProgressCounters where
  completedUnits : ℕ
  totalUnits : Option ℕ
  completedBytes : ℕ
  totalBytes : Option ℕ
  deriving DecidableEq

/-- A total, when there is one, is canonical and not below its counter. -/
def checkTotal (name : String) (completed : ℕ) (total : Option ℕ) : Except String Unit :=
  match total with
  | none => .ok ()
  | some t => do
    validateSafeCounter name t true
    ensure (completed ≤ t) (name ++ " is below its completed counter")

def ProgressCounters.new (completedUnits : ℕ) (totalUnits : Option ℕ) (completedBytes : ℕ)
    (totalBytes : Option ℕ) : Except String ProgressCounters := do
  validateSafeCounter "completedUnits" completedUnits true
  validateSafeCounter "completedBytes" completedBytes true
  checkTotal "totalUnits" completedUnits totalUnits
  checkTotal "totalBytes" completedBytes totalBytes
  pure ⟨completedUnits, totalUnits, completedBytes, totalBytes⟩

structure NativeProgressFrame where
  id : ℕ
  sequence : ℕ
  phase : String
  counters : ProgressCounters
  deriving DecidableEq

def NativeProgressFrame.admitted (id : ℕ) : Except String NativeProgressFrame := do
  validateSafeCounter "id" id true
  pure ⟨id, 1, "admitted", ⟨0, none, 0, none⟩⟩

def NativeProgressFrame.progress (id sequence : ℕ) (phase : String)
    (counters : ProgressCounters) : Except String NativeProgressFrame := do
  ensure (phase ≠ "admitted" ∧ phase ∈ batchCommitPhases) "subsequent progress phase is invalid"
  validateSafeCounter "id" id true
  validateSafeCounter "sequence" sequence false
  ensure (sequence ≠ 1) "sequence 1 is reserved for the admitted frame"
  pure ⟨id, sequence, phase, counters⟩

/-- An optional total as it is written in a frame. -/
def totalText (total : Option ℕ) : String := total.elim "null" toString

def NativeProgressFrame.canonicalBytes (frame : NativeProgressFrame) : Bytes :=
  ("\x7b\"schema\":\"" ++ nativeProgressFrameSchema
    ++ "\",\"kind\":\"progress\",\"protocolVersion\":" ++ toString nativeProgressProtocolVersion
    ++ ",\"id\":" ++ toString frame.id ++ ",\"sequence\":" ++ toString frame.sequence
    ++ ",\"method\":\"batch_commit\",\"phase\":\"" ++ frame.phase
    ++ "\",\"completedUnits\":" ++ toString frame.counters.completedUnits
    ++ ",\"totalUnits\":" ++ totalText frame.counters.totalUnits
    ++ ",\"completedBytes\":" ++ toString frame.counters.completedBytes
    ++ ",\"totalBytes\":" ++ totalText frame.counters.totalBytes ++ "\x7d").toUTF8.toList

/-! ### The emitter -/

/-- The world around the emitter: the readings of its clock and the writes its output takes, both
by number. -/
structure ProgressHost where
  clock : ℕ → Option ℕ
  accepts : ℕ → Bool

inductive ProgressError where
  | message (text : String)
  | clock
  | output
  deriving DecidableEq

/-- The emitter; `frames` is what it has written so far. -/
structure NativeCommitProgress where
  policy : NativeProgressPolicy
  requestId : ℕ
  readings : ℕ
  lastEmittedMs : ℕ
  phaseIndex : ℕ
  sequence : ℕ
  emittedFrames : ℕ
  counters : ProgressCounters
  frames : List NativeProgressFrame

/-- The state a call leaves behind and its error, if it failed. -/
abbrev Emission := NativeCommitProgress × Option ProgressError

namespace NativeCommitProgress

def writeFrame (host : ProgressHost) (p : NativeCommitProgress) (frame : NativeProgressFrame) :
    Emission :=
  if p.policy.maxFrameBytes < frame.canonicalBytes.length then
    (p, some (.message "progress frame exceeds policy byte limit"))
  else match checkedAdd p.emittedFrames 1 with
    | none => (p, some (.message "progress frame count overflow"))
    | some nextCount =>
      if p.policy.maxFrames < nextCount then
        (p, some (.message "progress frame count exceeds policy"))
      else if host.accepts p.frames.length = false then (p, some .output)
      else
        let q := { p with
          emittedFrames := nextCount
          frames := p.frames ++ [frame]
          readings := p.readings + 1 }
        match host.clock p.readings with
        | none => (q, some .clock)
        | some ms => ({ q with lastEmittedMs := ms }, none)

/-- The emitter before its first frame. -/
def initial (policy : NativeProgressPolicy) (requestId : ℕ) : NativeCommitProgress where
  policy := policy
  requestId := requestId
  readings := 0
  lastEmittedMs := 0
  phaseIndex := 0
  sequence := 1
  emittedFrames := 0
  counters := ⟨0, none, 0, none⟩
  frames := []

def start (host : ProgressHost) (policy : NativeProgressPolicy) (requestId : ℕ) : Emission :=
  match NativeProgressFrame.admitted requestId with
  | .error e => (initial policy requestId, some (.message e))
  | .ok admitted => (initial policy requestId).writeFrame host admitted

def validateCounters (p : NativeCommitProgress) (c : ProgressCounters) :
    Except String ProgressCounters := do
  ensure (p.counters.completedUnits ≤ c.completedUnits
      ∧ p.counters.completedBytes ≤ c.completedBytes)
    "progress counters regressed within a phase"
  ensure (p.counters.totalUnits = none ∨ c.totalUnits = p.counters.totalUnits)
    "progress unit total changed within a phase"
  ensure (p.counters.totalBytes = none ∨ c.totalBytes = p.counters.totalBytes)
    "progress byte total changed within a phase"
  ProgressCounters.new c.completedUnits c.totalUnits c.completedBytes c.totalBytes

def remainingReserve (p : NativeCommitProgress) (elapsedMs : ℕ) : Option ℕ := do
  let remainingPhases := batchCommitPhases.length - (p.phaseIndex + 1)
  let remainingMs := p.policy.absoluteDeadlineMs - elapsedMs
  let remainingHeartbeats ← heartbeats remainingMs p.policy.heartbeatIntervalMs
  checkedAdd remainingPhases remainingHeartbeats

def enterPhase (host : ProgressHost) (p : NativeCommitProgress) (phase : String)
    (c : ProgressCounters) : Emission :=
  if batchCommitPhases[p.phaseIndex + 1]? ≠ some phase then
    (p, some (.message "progress phase skipped or regressed"))
  else match ProgressCounters.new c.completedUnits c.totalUnits c.completedBytes c.totalBytes with
    | .error e => (p, some (.message e))
    | .ok counters =>
      match checkedAdd p.sequence 1 with
      | none => (p, some (.message "progress sequence overflow"))
      | some sequence =>
        match NativeProgressFrame.progress p.requestId sequence phase counters with
        | .error e => ({ p with sequence }, some (.message e))
        | .ok frame =>
          writeFrame host { p with sequence, counters, phaseIndex := p.phaseIndex + 1 } frame

def advance (host : ProgressHost) (p : NativeCommitProgress) (c : ProgressCounters) : Emission :=
  match p.validateCounters c with
  | .error e => (p, some (.message e))
  | .ok counters =>
    let unitDelta := c.completedUnits - p.counters.completedUnits
    let byteDelta := c.completedBytes - p.counters.completedBytes
    if unitDelta = 0 ∧ byteDelta = 0 then (p, none)
    else match host.clock p.readings with
      | none => ({ p with readings := p.readings + 1 }, some .clock)
      | some elapsed =>
        let p := { p with readings := p.readings + 1 }
        let sinceLast := elapsed - p.lastEmittedMs
        let dueHeartbeat : Bool := p.policy.heartbeatIntervalMs ≤ sinceLast
        let dueEarly : Bool := p.policy.minFrameIntervalMs ≤ sinceLast
          && (p.policy.earlyUnitDelta ≤ unitDelta || p.policy.earlyByteDelta ≤ byteDelta)
        if !dueHeartbeat && !dueEarly then (p, none)
        else match p.remainingReserve elapsed with
          | none => (p, some (.message "progress reserve arithmetic overflow"))
          | some reserve =>
            let required := (checkedAdd p.emittedFrames 1).bind (checkedAdd · reserve)
            if required.all (p.policy.maxFrames < ·) then (p, none)
            else match checkedAdd p.sequence 1 with
              | none => (p, some (.message "progress sequence overflow"))
              | some sequence =>
                let phase := batchCommitPhases.getD p.phaseIndex ""
                match NativeProgressFrame.progress p.requestId sequence phase counters with
                | .error e => ({ p with sequence }, some (.message e))
                | .ok frame => writeFrame host { p with sequence, counters } frame

end NativeCommitProgress

/-! ### The calls of a commit -/

inductive ProgressCall where
  | enterPhase (phase : String) (c : ProgressCounters)
  | advance (c : ProgressCounters)
  deriving DecidableEq

/-- The phases a call enters. -/
def ProgressCall.entries : ProgressCall → ℕ
  | .enterPhase _ _ => 1
  | .advance _ => 0

def ProgressCall.counters : ProgressCall → ProgressCounters
  | .enterPhase _ c => c
  | .advance c => c

def NativeCommitProgress.call (host : ProgressHost) (p : NativeCommitProgress) :
    ProgressCall → Emission
  | .enterPhase phase c => p.enterPhase host phase c
  | .advance c => p.advance host c

/-- Calls one after another; the first error ends the commit. -/
def NativeCommitProgress.calls (host : ProgressHost) (p : NativeCommitProgress) :
    List ProgressCall → Emission
  | [] => (p, none)
  | c :: cs => match p.call host c with
    | (q, none) => q.calls host cs
    | (q, some e) => (q, some e)

/-- What one commit reads and writes: the reads of each record of the log, the values of each
vector of the segment, the reads that check the segment, the writes of the canonical file, and the
reads that hash the log before it is retired. -/
structure CommitWork where
  records : List (List ℕ)
  header : ℕ
  publish : List ℕ
  blobReads : List ℕ
  jsonWrites : List ℕ
  walReads : List ℕ

/-- The bytes of the log: each record is what was read of it and its line feed. -/
def CommitWork.walBytes (w : CommitWork) : ℕ := (w.records.map fun r => r.sum + 1).sum

def CommitWork.segmentBytes (w : CommitWork) : ℕ := w.header + 8 * w.publish.sum

def CommitWork.jsonBytes (w : CommitWork) : ℕ := w.jsonWrites.sum

/-- A log and a segment that do not change while they are read, within the limits that the scan
and the publication check before. -/
structure CommitWork.Steady (w : CommitWork) : Prop where
  wal_le : w.walBytes ≤ maxWalBytes
  records_le : w.records.length ≤ maxWalRecords
  segment_le : w.segmentBytes ≤ maxVectorBlobLineageBytes
  blob : w.blobReads.sum = w.segmentBytes
  hashed : w.walReads.sum = w.walBytes

/-- After each read, the bytes so far. -/
def readAdvances (units : ℕ) (total : Option ℕ) : ℕ → List ℕ → List ProgressCounters
  | _, [] => []
  | bytes, n :: ns => ⟨units, none, bytes + n, total⟩ :: readAdvances units total (bytes + n) ns

/-- The scan of the log: after each read, and after each record. -/
def scanAdvances (total : Option ℕ) : ℕ → ℕ → List (List ℕ) → List ProgressCounters
  | _, _, [] => []
  | count, bytes, r :: rs =>
    readAdvances count total bytes r
      ++ ⟨count + 1, none, bytes + (r.sum + 1), total⟩
        :: scanAdvances total (count + 1) (bytes + (r.sum + 1)) rs

/-- After each vector, the vectors and the bytes so far. -/
def vectorAdvances (units : ℕ) (total : Option ℕ) : ℕ → ℕ → List ℕ → List ProgressCounters
  | _, _, [] => []
  | index, bytes, n :: ns =>
    ⟨index + 1, some units, bytes + 8 * n, total⟩
      :: vectorAdvances units total (index + 1) (bytes + 8 * n) ns

/-- The writes of the canonical file, reported every 64 KiB. -/
def jsonAdvances : ℕ → ℕ → List ℕ → List ProgressCounters
  | _, _, [] => []
  | bytes, reported, n :: ns =>
    if 64 * 1024 ≤ bytes + n - reported then
      ⟨0, none, bytes + n, none⟩ :: jsonAdvances (bytes + n) (bytes + n) ns
    else jsonAdvances (bytes + n) reported ns

/-- A phase: its entry, then its advances. -/
def phaseCalls (phase : String) (entry : ProgressCounters) (advances : List ProgressCounters) :
    List ProgressCall :=
  .enterPhase phase entry :: advances.map .advance

/-- The calls of a whole commit. -/
def commitCalls (w : CommitWork) : List ProgressCall :=
  let wal := some w.walBytes
  let units := w.publish.length
  let blob := some w.segmentBytes
  let json := w.jsonBytes
  phaseCalls "wal_verify" ⟨0, none, 0, wal⟩ (scanAdvances wal 0 0 w.records)
  ++ (phaseCalls "prepare_refs" ⟨0, some units, 0, none⟩ (vectorAdvances units none 0 0 w.publish)
  ++ (phaseCalls "vector_write" ⟨0, some units, 0, blob⟩
      (vectorAdvances units blob 0 w.header w.publish)
  ++ (phaseCalls "vector_sync" ⟨units, some units, w.segmentBytes, blob⟩ []
  ++ (phaseCalls "vector_publish" ⟨0, none, 0, blob⟩ (readAdvances 0 blob 0 w.blobReads)
  ++ (phaseCalls "vector_dir_sync" ⟨0, none, w.segmentBytes, blob⟩ []
  ++ (phaseCalls "json_write" ⟨0, none, 0, none⟩ (jsonAdvances 0 0 w.jsonWrites)
  ++ (phaseCalls "json_sync" ⟨0, none, json, some json⟩ []
  ++ (phaseCalls "json_publish" ⟨0, none, json, some json⟩ []
  ++ (phaseCalls "json_dir_sync" ⟨0, none, json, some json⟩ []
  ++ (phaseCalls "wal_zero" ⟨0, none, 0, wal⟩ (readAdvances 0 wal 0 w.walReads)
  ++ (phaseCalls "wal_sync" ⟨0, none, 0, some 0⟩ []
  ++ phaseCalls "complete" ⟨0, none, 0, none⟩ [])))))))))))

/-! ### Calls that go on from one another -/

/-- Within a phase: the counters do not fall and the totals stay. -/
structure ProgressCounters.Le (c d : ProgressCounters) : Prop where
  units : c.completedUnits ≤ d.completedUnits
  bytes : c.completedBytes ≤ d.completedBytes
  totalUnits : d.totalUnits = c.totalUnits
  totalBytes : d.totalBytes = c.totalBytes

theorem ProgressCounters.Le.refl (c : ProgressCounters) : c.Le c :=
  ⟨le_refl _, le_refl _, rfl, rfl⟩

theorem ProgressCounters.Le.trans {c d e : ProgressCounters} (h : c.Le d) (h' : d.Le e) :
    c.Le e :=
  ⟨h.units.trans h'.units, h.bytes.trans h'.bytes, h'.totalUnits.trans h.totalUnits,
    h'.totalBytes.trans h.totalBytes⟩

/-- No counter is above its total. -/
structure ProgressCounters.WithinTotals (c : ProgressCounters) : Prop where
  units : ∀ t, c.totalUnits = some t → c.completedUnits ≤ t
  bytes : ∀ t, c.totalBytes = some t → c.completedBytes ≤ t

/-- Every number of the counters is one the frames can carry. -/
structure ProgressCounters.Safe (c : ProgressCounters) : Prop where
  units : c.completedUnits ≤ jsonSafeIntegerMax
  bytes : c.completedBytes ≤ jsonSafeIntegerMax
  totalUnits : ∀ t, c.totalUnits = some t → t ≤ jsonSafeIntegerMax
  totalBytes : ∀ t, c.totalBytes = some t → t ≤ jsonSafeIntegerMax

/-- The counters of the advances of one phase, after `last`. -/
def Rising (last : ProgressCounters) : List ProgressCounters → Prop
  | [] => True
  | c :: cs => last.Le c ∧ c.WithinTotals ∧ Rising c cs

/-- The calls go on from phase `k` with the counters `last`. -/
def Continues (k : ℕ) (last : ProgressCounters) : List ProgressCall → Prop
  | [] => True
  | .advance c :: cs => last.Le c ∧ c.WithinTotals ∧ Continues k c cs
  | .enterPhase phase c :: cs =>
    batchCommitPhases[k + 1]? = some phase ∧ c.WithinTotals ∧ Continues (k + 1) c cs

theorem Continues.take {k : ℕ} {last : ProgressCounters} {cs : List ProgressCall}
    (h : Continues k last cs) (n : ℕ) : Continues k last (cs.take n) := by
  induction cs generalizing k last n with
  | nil => simpa using h
  | cons c cs ih =>
    rcases n with _ | n
    · trivial
    · rcases c with ⟨phase, c⟩ | c
      · exact ⟨h.1, h.2.1, ih h.2.2 n⟩
      · exact ⟨h.1, h.2.1, ih h.2.2 n⟩

theorem continues_advances {k : ℕ} {last : ProgressCounters} {advances : List ProgressCounters}
    {rest : List ProgressCall} (h : Rising last advances) (hrest : ∀ l, Continues k l rest) :
    Continues k last (advances.map .advance ++ rest) := by
  induction advances generalizing last with
  | nil => exact hrest last
  | cons c cs ih => exact ⟨h.1, h.2.1, ih h.2.2⟩

/-- A whole phase, whatever the counters were before it. -/
theorem continues_phase {k : ℕ} {phase : String} {entry : ProgressCounters}
    {advances : List ProgressCounters} {rest : List ProgressCall}
    (hphase : batchCommitPhases[k + 1]? = some phase) (hentry : entry.WithinTotals)
    (h : Rising entry advances) (hrest : ∀ l, Continues (k + 1) l rest) (last : ProgressCounters) :
    Continues k last (phaseCalls phase entry advances ++ rest) :=
  ⟨hphase, hentry, continues_advances h hrest⟩

theorem readAdvances_rising {units total : ℕ} : ∀ {bytes : ℕ} {reads : List ℕ}
    {rest : List ProgressCounters}, bytes + reads.sum ≤ total →
      Rising ⟨units, none, bytes + reads.sum, some total⟩ rest →
      Rising ⟨units, none, bytes, some total⟩ (readAdvances units (some total) bytes reads ++ rest)
  | bytes, [], rest, _, hrest => by simpa [readAdvances] using hrest
  | bytes, n :: ns, rest, hle, hrest => by
    rw [List.sum_cons, ← Nat.add_assoc] at hle hrest
    refine ⟨⟨le_refl _, Nat.le_add_right _ _, rfl, rfl⟩, ⟨by simp, ?_⟩,
      readAdvances_rising hle hrest⟩
    intro t ht
    cases ht
    simp only
    omega

theorem scanAdvances_rising {total : ℕ} : ∀ {count bytes : ℕ} {records : List (List ℕ)},
    bytes + (records.map fun r => r.sum + 1).sum ≤ total →
      Rising ⟨count, none, bytes, some total⟩ (scanAdvances (some total) count bytes records)
  | _, _, [], _ => trivial
  | count, bytes, r :: rs, hle => by
    rw [List.map_cons, List.sum_cons, ← Nat.add_assoc] at hle
    refine readAdvances_rising (by omega) ⟨⟨Nat.le_succ _, ?_, rfl, rfl⟩, ⟨by simp, ?_⟩,
      scanAdvances_rising hle⟩
    · simp only
      omega
    · intro t ht
      cases ht
      simp only
      omega

theorem vectorAdvances_rising {units : ℕ} {total : Option ℕ} :
    ∀ {index bytes : ℕ} {publish : List ℕ}, index + publish.length ≤ units →
      (∀ t, total = some t → bytes + 8 * publish.sum ≤ t) →
      ∀ {entry : ℕ}, entry ≤ bytes →
      Rising ⟨index, some units, entry, total⟩ (vectorAdvances units total index bytes publish)
  | _, _, [], _, _, _, _ => trivial
  | index, bytes, n :: ns, hunits, htotal, entry, hentry => by
    rw [List.length_cons] at hunits
    simp only [List.sum_cons] at htotal
    refine ⟨⟨Nat.le_succ _, ?_, rfl, rfl⟩, ⟨?_, ?_⟩, ?_⟩
    · simp only
      omega
    · intro t ht
      cases ht
      simp only
      omega
    · intro t ht
      have := htotal t ht
      simp only
      omega
    · refine vectorAdvances_rising (by omega) ?_ (le_refl _)
      intro t ht
      have := htotal t ht
      omega

theorem jsonAdvances_rising : ∀ {bytes reported : ℕ} {writes : List ℕ}, reported ≤ bytes →
    Rising ⟨0, none, reported, none⟩ (jsonAdvances bytes reported writes)
  | _, _, [], _ => trivial
  | bytes, reported, n :: ns, hle => by
    rw [jsonAdvances]
    split
    · refine ⟨⟨le_refl _, ?_, rfl, rfl⟩, ⟨by simp, by simp⟩, jsonAdvances_rising (le_refl _)⟩
      simp only
      omega
    · exact jsonAdvances_rising (by omega)

/-- The calls of a commit go through the phases in order, with counters that only rise. -/
theorem commitCalls_continues {w : CommitWork} (hw : w.Steady) (last : ProgressCounters) :
    Continues 0 last (commitCalls w) := by
  have within : ∀ {u b t : ℕ}, b ≤ t → (⟨u, none, b, some t⟩ : ProgressCounters).WithinTotals := by
    intro u b t h
    refine ⟨by simp, ?_⟩
    intro s hs
    cases hs
    exact h
  have units : ∀ {u b t : ℕ} {total : Option ℕ}, u ≤ t → (∀ s, total = some s → b ≤ s) →
      (⟨u, some t, b, total⟩ : ProgressCounters).WithinTotals := by
    intro u b t total h hb
    refine ⟨?_, hb⟩
    intro s hs
    cases hs
    exact h
  refine continues_phase rfl (within (Nat.zero_le _)) (scanAdvances_rising ?_) ?_ last
  · exact (Nat.zero_add _).le
  refine continues_phase rfl (units (Nat.zero_le _) (by simp))
    (vectorAdvances_rising ?_ (by simp) (le_refl _)) ?_
  · exact (Nat.zero_add _).le
  refine continues_phase rfl (units (Nat.zero_le _) (by simp))
    (vectorAdvances_rising ?_ ?_ (Nat.zero_le _)) ?_
  · exact (Nat.zero_add _).le
  · intro t ht
    cases ht
    exact le_refl _
  refine continues_phase rfl (units (le_refl _) ?_) trivial ?_
  · intro t ht
    cases ht
    exact le_refl _
  refine continues_phase rfl (within (Nat.zero_le _)) ?_ ?_
  · rw [← List.append_nil (readAdvances _ _ _ _)]
    exact readAdvances_rising (by rw [hw.blob, Nat.zero_add]) trivial
  refine continues_phase rfl (within (le_refl _)) trivial ?_
  refine continues_phase rfl ⟨by simp, by simp⟩ (jsonAdvances_rising (le_refl _)) ?_
  refine continues_phase rfl (within (le_refl _)) trivial ?_
  refine continues_phase rfl (within (le_refl _)) trivial ?_
  refine continues_phase rfl (within (le_refl _)) trivial ?_
  refine continues_phase rfl (within (Nat.zero_le _)) ?_ ?_
  · rw [← List.append_nil (readAdvances _ _ _ _)]
    exact readAdvances_rising (by rw [hw.hashed, Nat.zero_add]) trivial
  refine continues_phase rfl (within (le_refl _)) trivial ?_
  intro l
  exact ⟨rfl, ⟨by simp, by simp⟩, trivial⟩

/-! ### What has been emitted -/

/-- The place of a frame's phase in the inventory. -/
def NativeProgressFrame.index (f : NativeProgressFrame) : ℕ := batchCommitPhases.idxOf f.phase

/-- The frames of a commit that has entered phase `k`: numbered from 1, the phases in order and
none left out, the counters rising within a phase and within their totals, and the phases still to
come affordable. -/
structure Emitted (policy : NativeProgressPolicy) (frames : List NativeProgressFrame) (k : ℕ) :
    Prop where
  sequence : frames.map (·.sequence) = List.range' 1 frames.length
  ordered : frames.Pairwise fun f g => f.index ≤ g.index
  known : ∀ f ∈ frames, f.phase ∈ batchCommitPhases ∧ f.index ≤ k
  entered : ∀ j ≤ k, ∃ f ∈ frames, f.index = j
  rising : frames.Pairwise fun f g => f.index = g.index →
    f.counters.completedUnits ≤ g.counters.completedUnits
      ∧ f.counters.completedBytes ≤ g.counters.completedBytes
  totals : ∀ f ∈ frames, f.counters.WithinTotals
  affordable : frames.length + (batchCommitPhases.length - (k + 1)) ≤ policy.maxFrames

theorem idxOf_phase {k : ℕ} {phase : String} (h : batchCommitPhases[k]? = some phase) :
    batchCommitPhases.idxOf phase = k := by
  obtain ⟨hk, rfl⟩ := List.getElem?_eq_some_iff.mp h
  exact List.Nodup.idxOf_getElem (by decide) k hk

theorem pairwise_snoc {α : Type} {R : α → α → Prop} {xs : List α} {x : α} (h : xs.Pairwise R)
    (hx : ∀ y ∈ xs, R y x) : (xs ++ [x]).Pairwise R := by
  refine List.pairwise_append.mpr ⟨h, List.pairwise_singleton R x, ?_⟩
  intro y hy z hz
  rw [List.mem_singleton.mp hz]
  exact hx y hy

/-- One more frame, of the last phase entered or of the next one. -/
theorem Emitted.snoc {policy : NativeProgressPolicy} {frames : List NativeProgressFrame} {j k : ℕ}
    {f : NativeProgressFrame} (h : Emitted policy frames j) (hk : k = j ∨ k = j + 1)
    (hphase : batchCommitPhases[k]? = some f.phase) (hseq : f.sequence = frames.length + 1)
    (hrising : ∀ g ∈ frames, g.index = k →
      g.counters.completedUnits ≤ f.counters.completedUnits
        ∧ g.counters.completedBytes ≤ f.counters.completedBytes)
    (htotals : f.counters.WithinTotals)
    (hafford : frames.length + 1 + (batchCommitPhases.length - (k + 1)) ≤ policy.maxFrames) :
    Emitted policy (frames ++ [f]) k := by
  have hindex : f.index = k := idxOf_phase hphase
  have hjk : j ≤ k := by
    rcases hk with rfl | rfl
    · exact le_refl _
    · exact Nat.le_succ _
  refine {
    sequence := ?_
    ordered := pairwise_snoc h.ordered ?_
    known := ?_
    entered := ?_
    rising := pairwise_snoc h.rising ?_
    totals := ?_
    affordable := ?_ }
  · rw [List.map_append, h.sequence, List.length_append, List.length_singleton, List.range'_concat]
    simp [hseq, Nat.add_comm]
  · intro g hg
    rw [hindex]
    exact (h.known g hg).2.trans hjk
  · intro g hg
    rcases List.mem_append.mp hg with hg | hg
    · exact ⟨(h.known g hg).1, (h.known g hg).2.trans hjk⟩
    · rw [List.mem_singleton.mp hg]
      exact ⟨List.mem_of_getElem? hphase, hindex.le⟩
  · intro i hi
    rcases Nat.lt_or_ge j i with hji | hji
    · exact ⟨f, by simp, by omega⟩
    · obtain ⟨g, hg, hgi⟩ := h.entered i hji
      exact ⟨g, List.mem_append_left _ hg, hgi⟩
  · intro g hg hgf
    exact hrising g hg (hgf.trans hindex)
  · intro g hg
    rcases List.mem_append.mp hg with hg | hg
    · exact h.totals g hg
    · rw [List.mem_singleton.mp hg]
      exact htotals
  · rw [List.length_append, List.length_singleton]
    exact hafford

/-- The emitter between two calls, after a call with the counters `last`. -/
structure Synced (p : NativeCommitProgress) (last : ProgressCounters) : Prop where
  accepted : p.policy.Accepted
  emitted : Emitted p.policy p.frames p.phaseIndex
  phase_lt : p.phaseIndex < batchCommitPhases.length
  count : p.emittedFrames = p.frames.length
  sequence : p.sequence = p.frames.length
  frames_pos : 0 < p.frames.length
  id : p.requestId ≤ jsonSafeIntegerMax
  below : ∀ f ∈ p.frames, f.index = p.phaseIndex →
    f.counters.completedUnits ≤ p.counters.completedUnits
      ∧ f.counters.completedBytes ≤ p.counters.completedBytes
  last : p.counters.Le last

/-- The errors that are left to a call with the counters `c`: the clock, the output, the size of a
frame, and a counter no frame can carry. -/
def Excused (c : ProgressCounters) (e : ProgressError) : Prop :=
  e = .clock ∨ e = .output ∨ e = .message "progress frame exceeds policy byte limit"
    ∨ (¬ c.Safe ∧ ∃ name, e = .message (name ++ " is outside the canonical safe-integer range"))

theorem validateSafeCounter_cases (name : String) (value : ℕ) :
    (value ≤ jsonSafeIntegerMax ∧ validateSafeCounter name value true = .ok ())
      ∨ (jsonSafeIntegerMax < value ∧ validateSafeCounter name value true
          = .error (name ++ " is outside the canonical safe-integer range")) := by
  rcases Nat.lt_or_ge jsonSafeIntegerMax value with h | h
  · exact .inr ⟨h, by simp [validateSafeCounter, h]⟩
  · exact .inl ⟨h, validateSafeCounter_ok.mpr ⟨h, by simp⟩⟩

theorem checkTotal_cases (name : String) {completed : ℕ} {total : Option ℕ}
    (h : ∀ t, total = some t → completed ≤ t) :
    ((∀ t, total = some t → t ≤ jsonSafeIntegerMax) ∧ checkTotal name completed total = .ok ())
      ∨ ((∃ t, total = some t ∧ jsonSafeIntegerMax < t) ∧ checkTotal name completed total
          = .error (name ++ " is outside the canonical safe-integer range")) := by
  rcases total with _ | t
  · exact .inl ⟨by simp, rfl⟩
  · rcases validateSafeCounter_cases name t with ⟨ht, hv⟩ | ⟨ht, hv⟩
    · refine .inl ⟨?_, ?_⟩
      · intro s hs
        cases hs
        exact ht
      · simp only [checkTotal, hv]
        exact ensure_ok.mpr (h t rfl)
    · refine .inr ⟨⟨t, rfl, ht⟩, ?_⟩
      simp only [checkTotal, hv]
      rfl

/-- Counters within their totals are refused only for their size. -/
theorem ProgressCounters.new_cases {c : ProgressCounters} (h : c.WithinTotals) :
    ProgressCounters.new c.completedUnits c.totalUnits c.completedBytes c.totalBytes = .ok c
      ∨ (¬ c.Safe ∧ ∃ name, ProgressCounters.new c.completedUnits c.totalUnits c.completedBytes
          c.totalBytes = .error (name ++ " is outside the canonical safe-integer range")) := by
  unfold ProgressCounters.new
  rcases validateSafeCounter_cases "completedUnits" c.completedUnits with ⟨-, h1⟩ | ⟨hn, h1⟩
  · rcases validateSafeCounter_cases "completedBytes" c.completedBytes with ⟨-, h2⟩ | ⟨hn, h2⟩
    · rcases checkTotal_cases "totalUnits" h.units with ⟨-, h3⟩ | ⟨⟨t, ht, hn⟩, h3⟩
      · rcases checkTotal_cases "totalBytes" h.bytes with ⟨-, h4⟩ | ⟨⟨t, ht, hn⟩, h4⟩
        · left
          rw [h1, h2, h3, h4]
          rfl
        · right
          refine ⟨?_, "totalBytes", by rw [h1, h2, h3, h4]; rfl⟩
          intro hs
          have := hs.totalBytes t ht
          omega
      · right
        refine ⟨?_, "totalUnits", by rw [h1, h2, h3]; rfl⟩
        intro hs
        have := hs.totalUnits t ht
        omega
    · right
      refine ⟨?_, "completedBytes", by rw [h1, h2]; rfl⟩
      intro hs
      have := hs.bytes
      omega
  · right
    refine ⟨?_, "completedUnits", by rw [h1]; rfl⟩
    intro hs
    have := hs.units
    omega

/-- A frame the budget has room for is written, or the size of the frame or the output stops it. -/
theorem writeFrame_cases (host : ProgressHost) (p : NativeCommitProgress)
    (frame : NativeProgressFrame) (hroom : p.emittedFrames + 1 ≤ p.policy.maxFrames)
    (hmax : p.policy.maxFrames ≤ jsonSafeIntegerMax) :
    (∃ e, p.writeFrame host frame = (p, some e)
        ∧ (e = .output ∨ e = .message "progress frame exceeds policy byte limit"))
      ∨ ∃ ms r, p.writeFrame host frame
          = ({ p with emittedFrames := p.emittedFrames + 1, frames := p.frames ++ [frame],
                      readings := p.readings + 1, lastEmittedMs := ms }, r)
          ∧ (r = none ∨ r = some .clock) := by
  have hadd : checkedAdd p.emittedFrames 1 = some (p.emittedFrames + 1) := by
    refine checkedAdd_of_lt ?_
    unfold jsonSafeIntegerMax at hmax
    omega
  unfold NativeCommitProgress.writeFrame
  split
  · exact .inl ⟨_, rfl, .inr rfl⟩
  · rw [hadd]
    simp only [if_neg (Nat.not_lt.mpr hroom)]
    split
    · exact .inl ⟨_, rfl, .inl rfl⟩
    · right
      rcases hclock : host.clock p.readings with _ | ms
      · exact ⟨p.lastEmittedMs, some .clock, rfl, .inr rfl⟩
      · exact ⟨ms, none, rfl, .inl rfl⟩

theorem progress_ok {id sequence k : ℕ} {phase : String} {c : ProgressCounters}
    (hid : id ≤ jsonSafeIntegerMax) (hseq : sequence ≤ jsonSafeIntegerMax) (hone : 1 < sequence)
    (hphase : batchCommitPhases[k + 1]? = some phase) :
    NativeProgressFrame.progress id sequence phase c = .ok ⟨id, sequence, phase, c⟩ := by
  have hne : phase ≠ "admitted" := by
    rintro rfl
    have h0 : batchCommitPhases.idxOf "admitted" = 0 := by decide
    rw [idxOf_phase hphase] at h0
    cases h0
  unfold NativeProgressFrame.progress
  rw [(ensure_ok (u := ())).mpr ⟨hne, List.mem_of_getElem? hphase⟩,
    (validateSafeCounter_ok (u := ())).mpr ⟨hid, by simp⟩,
    (validateSafeCounter_ok (u := ())).mpr ⟨hseq, fun _ => by omega⟩,
    (ensure_ok (u := ())).mpr (by omega)]
  rfl

/-- What every call of a commit does: the frames stay well formed, only excused errors stop it, and
without one the emitter goes on in phase `k` from the call's counters. -/
structure Served (p : NativeCommitProgress) (k : ℕ) (c : ProgressCounters) (r : Emission) :
    Prop where
  policy : r.1.policy = p.policy
  emitted : ∃ j, Emitted p.policy r.1.frames j
  synced : r.2 = none → Synced r.1 c ∧ r.1.phaseIndex = k
  excused : ∀ e, r.2 = some e → Excused c e

/-- The emission of one frame with the counters `c` in phase `k`. -/
theorem emit_served (host : ProgressHost) {p : NativeCommitProgress} {last c : ProgressCounters}
    {k : ℕ} {phase : String} (h : Synced p last) (hk : k = p.phaseIndex ∨ k = p.phaseIndex + 1)
    (hphase : batchCommitPhases[k]? = some phase) (hc : c.WithinTotals)
    (hbelow : ∀ f ∈ p.frames, f.index = k →
      f.counters.completedUnits ≤ c.completedUnits ∧ f.counters.completedBytes ≤ c.completedBytes)
    (hafford : p.frames.length + 1 + (batchCommitPhases.length - (k + 1)) ≤ p.policy.maxFrames) :
    Served p k c (NativeCommitProgress.writeFrame host
      { p with sequence := p.sequence + 1, counters := c, phaseIndex := k }
      ⟨p.requestId, p.sequence + 1, phase, c⟩) := by
  have hafter : Emitted p.policy
      (p.frames ++ [(⟨p.requestId, p.sequence + 1, phase, c⟩ : NativeProgressFrame)]) k :=
    h.emitted.snoc hk hphase (by rw [h.sequence]) hbelow hc hafford
  have hindex : batchCommitPhases.idxOf phase = k := idxOf_phase hphase
  have hlt : k < batchCommitPhases.length := (List.getElem?_eq_some_iff.mp hphase).1
  rcases writeFrame_cases host
      { p with sequence := p.sequence + 1, counters := c, phaseIndex := k }
      ⟨p.requestId, p.sequence + 1, phase, c⟩
      (by simp only [h.count]; omega) h.accepted.maxFrames_le
    with ⟨e, hw, he⟩ | ⟨ms, r, hw, hr⟩
  · rw [hw]
    refine ⟨rfl, ⟨_, h.emitted⟩, by simp, ?_⟩
    intro e' he'
    cases he'
    rcases he with rfl | rfl
    · exact .inr (.inl rfl)
    · exact .inr (.inr (.inl rfl))
  · rw [hw]
    refine ⟨rfl, ⟨k, hafter⟩, ?_, ?_⟩
    · rintro -
      refine ⟨?_, rfl⟩
      exact {
        accepted := h.accepted
        emitted := hafter
        phase_lt := hlt
        count := by simp [h.count]
        sequence := by simp [h.sequence]
        frames_pos := by simp
        id := h.id
        below := by
          intro f hf hfk
          rcases List.mem_append.mp hf with hf | hf
          · exact hbelow f hf hfk
          · rw [List.mem_singleton.mp hf]
            exact ⟨le_refl _, le_refl _⟩
        last := .refl c }
    · intro e he
      rcases hr with rfl | rfl
      · cases he
      · cases he
        exact .inl rfl

theorem sequence_add_one {p : NativeCommitProgress} {last : ProgressCounters} (h : Synced p last)
    (hroom : p.frames.length + 1 ≤ p.policy.maxFrames) :
    checkedAdd p.sequence 1 = some (p.sequence + 1) ∧ p.sequence + 1 ≤ jsonSafeIntegerMax := by
  have hmax := h.accepted.maxFrames_le
  have hseq := h.sequence
  refine ⟨checkedAdd_of_lt ?_, by omega⟩
  unfold jsonSafeIntegerMax at hmax
  omega

theorem enterPhase_served (host : ProgressHost) {p : NativeCommitProgress}
    {last c : ProgressCounters} {phase : String} (h : Synced p last)
    (hphase : batchCommitPhases[p.phaseIndex + 1]? = some phase) (hc : c.WithinTotals) :
    Served p (p.phaseIndex + 1) c (p.enterPhase host phase c) := by
  have hlt : p.phaseIndex + 1 < batchCommitPhases.length :=
    (List.getElem?_eq_some_iff.mp hphase).1
  have hafford := h.emitted.affordable
  have hroom : p.frames.length + 1 ≤ p.policy.maxFrames := by omega
  obtain ⟨hadd, hseq⟩ := sequence_add_one h hroom
  rcases ProgressCounters.new_cases hc with hnew | ⟨hlarge, name, hnew⟩
  · have hframe := progress_ok (c := c) h.id hseq
      (by have := h.sequence; have := h.frames_pos; omega) hphase
    simp only [NativeCommitProgress.enterPhase, hphase, ne_eq, not_true_eq_false, if_false, hnew,
      hadd, hframe]
    refine emit_served host h (.inr rfl) hphase hc ?_ (by omega)
    intro f hf hfk
    have := (h.emitted.known f hf).2
    omega
  · simp only [NativeCommitProgress.enterPhase, hphase, ne_eq, not_true_eq_false, if_false, hnew]
    refine ⟨rfl, ⟨_, h.emitted⟩, by simp, ?_⟩
    intro e he
    cases he
    exact .inr (.inr (.inr ⟨hlarge, name, rfl⟩))

theorem validateCounters_cases {p : NativeCommitProgress} {last c : ProgressCounters}
    (h : Synced p last) (hle : last.Le c) (hc : c.WithinTotals) :
    p.validateCounters c = .ok c
      ∨ (¬ c.Safe ∧ ∃ name, p.validateCounters c
          = .error (name ++ " is outside the canonical safe-integer range")) := by
  have hpc := h.last.trans hle
  unfold NativeCommitProgress.validateCounters
  rw [(ensure_ok (u := ())).mpr ⟨hpc.units, hpc.bytes⟩,
    (ensure_ok (u := ())).mpr (.inr hpc.totalUnits),
    (ensure_ok (u := ())).mpr (.inr hpc.totalBytes)]
  exact ProgressCounters.new_cases hc

theorem heartbeats_some {policy : NativeProgressPolicy} (h : policy.Accepted) (elapsed : ℕ) :
    ∃ n, heartbeats (policy.absoluteDeadlineMs - elapsed) policy.heartbeatIntervalMs = some n
      ∧ n ≤ policy.absoluteDeadlineMs + policy.heartbeatIntervalMs := by
  have hb := h.heartbeat_le
  have ha := h.absolute_le
  refine ⟨(policy.absoluteDeadlineMs - elapsed + (policy.heartbeatIntervalMs - 1))
    / policy.heartbeatIntervalMs, ?_, ?_⟩
  · rw [heartbeats, checkedAdd_of_lt, Option.map_some]
    unfold jsonSafeIntegerMax at ha hb
    omega
  · have := Nat.div_le_self
      (policy.absoluteDeadlineMs - elapsed + (policy.heartbeatIntervalMs - 1))
      policy.heartbeatIntervalMs
    omega

/-- The reserve is at least one frame for every phase still to come. -/
theorem remainingReserve_some {p : NativeCommitProgress} (h : p.policy.Accepted) (elapsed : ℕ) :
    ∃ reserve, p.remainingReserve elapsed = some reserve
      ∧ batchCommitPhases.length - (p.phaseIndex + 1) ≤ reserve := by
  obtain ⟨n, hn, hle⟩ := heartbeats_some h elapsed
  have hb := h.heartbeat_le
  have ha := h.absolute_le
  have hlen : batchCommitPhases.length = 14 := rfl
  refine ⟨batchCommitPhases.length - (p.phaseIndex + 1) + n, ?_, Nat.le_add_right _ _⟩
  simp only [NativeCommitProgress.remainingReserve, hn]
  refine checkedAdd_of_lt ?_
  unfold jsonSafeIntegerMax at ha hb
  omega

/-- A call that writes nothing leaves the emitter in step. -/
theorem quiet_served {p q : NativeCommitProgress} {last c : ProgressCounters} (h : Synced p last)
    (hle : last.Le c) (hq : q = { p with readings := q.readings }) :
    Served p p.phaseIndex c (q, none) := by
  refine ⟨by rw [hq], ⟨p.phaseIndex, by rw [hq]; exact h.emitted⟩, ?_, by simp⟩
  rintro -
  refine ⟨?_, by rw [hq]⟩
  rw [hq]
  exact {
    accepted := h.accepted
    emitted := h.emitted
    phase_lt := h.phase_lt
    count := h.count
    sequence := h.sequence
    frames_pos := h.frames_pos
    id := h.id
    below := h.below
    last := h.last.trans hle }

theorem advance_served (host : ProgressHost) {p : NativeCommitProgress}
    {last c : ProgressCounters} (h : Synced p last) (hpos : 0 < p.phaseIndex) (hle : last.Le c)
    (hc : c.WithinTotals) : Served p p.phaseIndex c (p.advance host c) := by
  have hpc := h.last.trans hle
  unfold NativeCommitProgress.advance
  rcases validateCounters_cases h hle hc with hv | ⟨hlarge, name, hv⟩
  · rw [hv]
    dsimp only
    split
    · exact quiet_served h hle rfl
    rcases hclock : host.clock p.readings with _ | elapsed
    · refine ⟨rfl, ⟨_, h.emitted⟩, by simp, ?_⟩
      intro e he
      cases he
      exact .inl rfl
    dsimp only
    split
    · exact quiet_served h hle rfl
    obtain ⟨reserve, hreserve, hres⟩ :=
      remainingReserve_some (p := { p with readings := p.readings + 1 }) h.accepted elapsed
    rw [hreserve]
    dsimp only
    split
    · exact quiet_served h hle rfl
    next hroom =>
    -- the frame and the reserve fit in the budget
    have hfit : p.frames.length + 1 + reserve ≤ p.policy.maxFrames := by
      rw [h.count] at hroom
      unfold checkedAdd at hroom
      split at hroom
      · rw [Option.bind_some] at hroom
        split at hroom
        · simpa using hroom
        · simp at hroom
      · simp at hroom
    dsimp only at hres
    obtain ⟨hadd, hseq⟩ := sequence_add_one h (by omega)
    have hphase : batchCommitPhases[p.phaseIndex]?
        = some (batchCommitPhases.getD p.phaseIndex "") := by
      rw [List.getD_eq_getElem?_getD, List.getElem?_eq_getElem h.phase_lt]
      rfl
    have hframe := progress_ok (k := p.phaseIndex - 1) (c := c) h.id hseq
      (by have := h.sequence; have := h.frames_pos; omega)
      (by rw [Nat.sub_add_cancel hpos]; exact hphase)
    rw [hadd]
    dsimp only
    rw [hframe]
    dsimp only
    have hread : Synced { p with readings := p.readings + 1 } last :=
      ⟨h.accepted, h.emitted, h.phase_lt, h.count, h.sequence, h.frames_pos, h.id, h.below, h.last⟩
    have hbelow : ∀ f ∈ p.frames, f.index = p.phaseIndex →
        f.counters.completedUnits ≤ c.completedUnits
          ∧ f.counters.completedBytes ≤ c.completedBytes := by
      intro f hf hfk
      exact ⟨(h.below f hf hfk).1.trans hpc.units, (h.below f hf hfk).2.trans hpc.bytes⟩
    have hserved := emit_served host hread (.inl rfl) hphase hc hbelow (by dsimp only; omega)
    exact ⟨hserved.policy, hserved.emitted, hserved.synced, hserved.excused⟩
  · rw [hv]
    refine ⟨rfl, ⟨_, h.emitted⟩, by simp, ?_⟩
    intro e he
    cases he
    exact .inr (.inr (.inr ⟨hlarge, name, rfl⟩))

theorem call_served (host : ProgressHost) {p : NativeCommitProgress} {last : ProgressCounters}
    {c : ProgressCall} {cs : List ProgressCall} (h : Synced p last)
    (hpos : 0 < p.phaseIndex ∨ ∃ phase d, c = .enterPhase phase d)
    (hc : Continues p.phaseIndex last (c :: cs)) :
    0 < p.phaseIndex + c.entries
      ∧ Served p (p.phaseIndex + c.entries) c.counters (p.call host c)
      ∧ Continues (p.phaseIndex + c.entries) c.counters cs := by
  rcases c with ⟨phase, c⟩ | c
  · exact ⟨Nat.succ_pos _, enterPhase_served host h hc.1 hc.2.1, hc.2.2⟩
  · have hpos : 0 < p.phaseIndex := by
      rcases hpos with hpos | ⟨phase, d, hd⟩
      · exact hpos
      · cases hd
    exact ⟨hpos, advance_served host h hpos hc.1 hc.2.1, hc.2.2⟩

/-- A run of calls that go on from one another keeps the frames well formed, and a call of it is
stopped only by an excused error. -/
theorem calls_served (host : ProgressHost) {cs : List ProgressCall} :
    ∀ {p : NativeCommitProgress} {last : ProgressCounters}, Synced p last →
      (0 < p.phaseIndex ∨ ∀ c, cs.head? = some c → ∃ phase d, c = .enterPhase phase d) →
      Continues p.phaseIndex last cs →
      (∃ j, Emitted p.policy (p.calls host cs).1.frames j)
        ∧ ((p.calls host cs).2 = none →
            Emitted p.policy (p.calls host cs).1.frames
              (p.phaseIndex + (cs.map ProgressCall.entries).sum))
        ∧ ∀ e, (p.calls host cs).2 = some e → ∃ c ∈ cs, Excused c.counters e := by
  induction cs with
  | nil =>
    intro p last h _ _
    exact ⟨⟨_, h.emitted⟩, fun _ => h.emitted, by simp [NativeCommitProgress.calls]⟩
  | cons c cs ih =>
    intro p last h hpos hc
    obtain ⟨hk, hserved, hrest⟩ := call_served host h
      (hpos.imp id fun hhead => hhead c rfl) hc
    rw [List.map_cons, List.sum_cons, ← Nat.add_assoc]
    rw [NativeCommitProgress.calls]
    rcases hcall : p.call host c with ⟨q, _ | e⟩
    · rw [hcall] at hserved
      obtain ⟨hq, hqk⟩ := hserved.synced rfl
      dsimp only at hq hqk ⊢
      rw [← hqk] at hrest hk ⊢
      obtain ⟨h1, h2, h3⟩ := ih hq (.inl hk) hrest
      have hpolicy : q.policy = p.policy := hserved.policy
      rw [hpolicy] at h1 h2
      refine ⟨h1, h2, ?_⟩
      intro e he
      obtain ⟨d, hd, hex⟩ := h3 e he
      exact ⟨d, List.mem_cons_of_mem _ hd, hex⟩
    · rw [hcall] at hserved
      refine ⟨hserved.emitted, by simp, ?_⟩
      intro e' he'
      exact ⟨c, List.mem_cons_self, hserved.excused e' he'⟩

/-- After its start the emitter has written the admitted frame and nothing else. -/
theorem start_synced {host : ProgressHost} {policy : NativeProgressPolicy} {id : ℕ}
    {p : NativeCommitProgress} (hpolicy : policy.Accepted)
    (h : NativeCommitProgress.start host policy id = (p, none)) :
    Synced p ⟨0, none, 0, none⟩ ∧ p.phaseIndex = 0 ∧ p.policy = policy := by
  unfold NativeCommitProgress.start at h
  rcases hadm : NativeProgressFrame.admitted id with e | admitted
  · rw [hadm] at h
    cases h
  · rw [hadm] at h
    obtain ⟨_, hid, hadm⟩ := bind_ok.mp hadm
    cases hadm
    have hlen := hpolicy.phases_le
    have h14 : batchCommitPhases.length = 14 := rfl
    rcases writeFrame_cases host (.initial policy id) ⟨id, 1, "admitted", ⟨0, none, 0, none⟩⟩
      (by simp only [NativeCommitProgress.initial]; omega) hpolicy.maxFrames_le with ⟨e, hw, -⟩ | ⟨ms, r, hw, -⟩
    · cases hw.symm.trans h
    · obtain ⟨rfl, -⟩ := Prod.mk.inj (hw.symm.trans h)
      have hindex : batchCommitPhases.idxOf "admitted" = 0 := by decide
      have hmem : "admitted" ∈ batchCommitPhases := by decide
      have hlt : 0 < batchCommitPhases.length := by omega
      have hafford : 1 + (batchCommitPhases.length - (0 + 1)) ≤ policy.maxFrames := by omega
      refine ⟨?_, rfl, rfl⟩
      exact {
        accepted := hpolicy
        emitted := {
          sequence := rfl
          ordered := List.pairwise_singleton _ _
          known := by
            intro f hf
            rw [List.mem_singleton.mp hf]
            exact ⟨hmem, hindex.le⟩
          entered := by
            intro j hj
            exact ⟨_, List.mem_singleton_self _, by rw [Nat.le_zero.mp hj]; exact hindex⟩
          rising := List.pairwise_singleton _ _
          totals := by
            intro f hf
            rw [List.mem_singleton.mp hf]
            exact ⟨by simp, by simp⟩
          affordable := hafford }
        phase_lt := hlt
        count := rfl
        sequence := rfl
        frames_pos := Nat.one_pos
        id := (validateSafeCounter_ok.mp hid).1
        below := by
          intro f hf _
          rw [List.mem_singleton.mp hf]
          exact ⟨le_refl _, le_refl _⟩
        last := .refl _ }

/-! ### The sizes of a commit -/

/-- The counters of a phase stay below its last ones. -/
structure ProgressCounters.Below (units bytes : ℕ) (totalUnits totalBytes : Option ℕ)
    (c : ProgressCounters) : Prop where
  units : c.completedUnits ≤ units
  bytes : c.completedBytes ≤ bytes
  totalUnits : c.totalUnits = totalUnits
  totalBytes : c.totalBytes = totalBytes

theorem readAdvances_below {units : ℕ} {total : Option ℕ} : ∀ {bytes : ℕ} {reads : List ℕ},
    ∀ c ∈ readAdvances units total bytes reads, c.Below units (bytes + reads.sum) none total
  | _, [] => by simp [readAdvances]
  | bytes, n :: ns => by
    intro c hc
    rw [List.sum_cons, ← Nat.add_assoc]
    rcases List.mem_cons.mp hc with rfl | hc
    · exact ⟨le_refl _, Nat.le_add_right _ _, rfl, rfl⟩
    · exact readAdvances_below c hc

theorem scanAdvances_below {total : Option ℕ} : ∀ {count bytes : ℕ} {records : List (List ℕ)},
    ∀ c ∈ scanAdvances total count bytes records,
      c.Below (count + records.length) (bytes + (records.map fun r => r.sum + 1).sum) none total
  | _, _, [] => by simp [scanAdvances]
  | count, bytes, r :: rs => by
    intro c hc
    rw [List.map_cons, List.sum_cons, List.length_cons]
    rcases List.mem_append.mp hc with hc | hc
    · have := readAdvances_below c hc
      exact ⟨this.units.trans (by omega), this.bytes.trans (by omega), this.totalUnits,
        this.totalBytes⟩
    rcases List.mem_cons.mp hc with rfl | hc
    · exact ⟨by dsimp only; omega, by dsimp only; omega, rfl, rfl⟩
    · have := scanAdvances_below c hc
      exact ⟨this.units.trans (by omega), this.bytes.trans (by omega), this.totalUnits,
        this.totalBytes⟩

theorem vectorAdvances_below {units : ℕ} {total : Option ℕ} :
    ∀ {index bytes : ℕ} {publish : List ℕ}, ∀ c ∈ vectorAdvances units total index bytes publish,
      c.Below (index + publish.length) (bytes + 8 * publish.sum) (some units) total
  | _, _, [] => by simp [vectorAdvances]
  | index, bytes, n :: ns => by
    intro c hc
    rw [List.sum_cons, List.length_cons]
    rcases List.mem_cons.mp hc with rfl | hc
    · exact ⟨by dsimp only; omega, by dsimp only; omega, rfl, rfl⟩
    · have := vectorAdvances_below c hc
      exact ⟨this.units.trans (by omega), this.bytes.trans (by omega), this.totalUnits,
        this.totalBytes⟩

theorem jsonAdvances_below : ∀ {bytes reported : ℕ} {writes : List ℕ},
    ∀ c ∈ jsonAdvances bytes reported writes, c.Below 0 (bytes + writes.sum) none none
  | _, _, [] => by simp [jsonAdvances]
  | bytes, reported, n :: ns => by
    intro c hc
    rw [List.sum_cons, ← Nat.add_assoc]
    rw [jsonAdvances] at hc
    split at hc
    · rcases List.mem_cons.mp hc with rfl | hc
      · exact ⟨le_refl _, Nat.le_add_right _ _, rfl, rfl⟩
      · exact jsonAdvances_below c hc
    · exact jsonAdvances_below c hc

theorem safe_of_below {units bytes : ℕ} {totalUnits totalBytes : Option ℕ} {c : ProgressCounters}
    (h : c.Below units bytes totalUnits totalBytes) (hu : units ≤ jsonSafeIntegerMax)
    (hb : bytes ≤ jsonSafeIntegerMax) (htu : ∀ t ∈ totalUnits, t ≤ jsonSafeIntegerMax)
    (htb : ∀ t ∈ totalBytes, t ≤ jsonSafeIntegerMax) : c.Safe := by
  refine ⟨h.units.trans hu, h.bytes.trans hb, ?_, ?_⟩
  · intro t ht
    exact htu t (h.totalUnits ▸ ht)
  · intro t ht
    exact htb t (h.totalBytes ▸ ht)

theorem safe_of_phase {phase : String} {entry : ProgressCounters}
    {advances : List ProgressCounters} (hentry : entry.Safe) (h : ∀ c ∈ advances, c.Safe) :
    ∀ c ∈ phaseCalls phase entry advances, c.counters.Safe := by
  intro c hc
  rcases List.mem_cons.mp hc with rfl | hc
  · exact hentry
  · obtain ⟨d, hd, rfl⟩ := List.mem_map.mp hc
    exact h d hd

/-- With fewer than 2^53 vectors and bytes of canonical JSON, the frames can carry every counter
of a commit. -/
theorem commitCalls_safe {w : CommitWork} (hw : w.Steady)
    (hunits : w.publish.length ≤ jsonSafeIntegerMax) (hjson : w.jsonBytes ≤ jsonSafeIntegerMax) :
    ∀ c ∈ commitCalls w, c.counters.Safe := by
  have hwal : w.walBytes ≤ jsonSafeIntegerMax := hw.wal_le.trans (by decide)
  have hseg : w.segmentBytes ≤ jsonSafeIntegerMax := hw.segment_le.trans (by decide)
  have hrec : w.records.length ≤ jsonSafeIntegerMax := hw.records_le.trans (by decide)
  have none_le : ∀ t ∈ (none : Option ℕ), t ≤ jsonSafeIntegerMax := by simp
  have some_le : ∀ {n : ℕ}, n ≤ jsonSafeIntegerMax → ∀ t ∈ some n, t ≤ jsonSafeIntegerMax := by
    intro n hn t ht
    exact Option.mem_some_iff.mp ht ▸ hn
  have entry : ∀ {u b : ℕ} {tu tb : Option ℕ}, u ≤ jsonSafeIntegerMax → b ≤ jsonSafeIntegerMax →
      (∀ t ∈ tu, t ≤ jsonSafeIntegerMax) → (∀ t ∈ tb, t ≤ jsonSafeIntegerMax) →
      (⟨u, tu, b, tb⟩ : ProgressCounters).Safe := fun hu hb htu htb => ⟨hu, hb, htu, htb⟩
  have sum_le : 8 * w.publish.sum ≤ w.segmentBytes := by
    unfold CommitWork.segmentBytes
    omega
  intro c hc
  simp only [commitCalls, List.mem_append] at hc
  rcases hc with hc | hc | hc | hc | hc | hc | hc | hc | hc | hc | hc | hc | hc
  · refine safe_of_phase (entry (by omega) (by omega) none_le (some_le hwal)) ?_ c hc
    intro d hd
    refine safe_of_below (scanAdvances_below d hd) (by omega) ?_ none_le (some_le hwal)
    rw [Nat.zero_add]
    exact hwal
  · refine safe_of_phase (entry (by omega) (by omega) (some_le hunits) none_le) ?_ c hc
    intro d hd
    exact safe_of_below (vectorAdvances_below d hd) (by omega) (by omega) (some_le hunits) none_le
  · refine safe_of_phase (entry (by omega) (by omega) (some_le hunits) (some_le hseg)) ?_ c hc
    intro d hd
    exact safe_of_below (vectorAdvances_below d hd) (by omega) hseg (some_le hunits)
      (some_le hseg)
  · exact safe_of_phase (entry hunits hseg (some_le hunits) (some_le hseg)) (by simp) c hc
  · refine safe_of_phase (entry (by omega) (by omega) none_le (some_le hseg)) ?_ c hc
    intro d hd
    refine safe_of_below (readAdvances_below d hd) (by omega) ?_ none_le (some_le hseg)
    rw [hw.blob]
    omega
  · exact safe_of_phase (entry (by omega) hseg none_le (some_le hseg)) (by simp) c hc
  · refine safe_of_phase (entry (by omega) (by omega) none_le none_le) ?_ c hc
    intro d hd
    refine safe_of_below (jsonAdvances_below d hd) (by omega) ?_ none_le none_le
    rw [Nat.zero_add]
    exact hjson
  · exact safe_of_phase (entry (by omega) hjson none_le (some_le hjson)) (by simp) c hc
  · exact safe_of_phase (entry (by omega) hjson none_le (some_le hjson)) (by simp) c hc
  · exact safe_of_phase (entry (by omega) hjson none_le (some_le hjson)) (by simp) c hc
  · refine safe_of_phase (entry (by omega) (by omega) none_le (some_le hwal)) ?_ c hc
    intro d hd
    refine safe_of_below (readAdvances_below d hd) (by omega) ?_ none_le (some_le hwal)
    rw [hw.hashed]
    omega
  · exact safe_of_phase (entry (by omega) (by omega) none_le (some_le (by omega))) (by simp) c hc
  · exact safe_of_phase (entry (by omega) (by omega) none_le none_le) (by simp) c hc

/-- Every start of a commit's calls, under every accepted policy and every clock: only the clock,
the output or the frame size limit can stop it, short of 2^53 vectors or bytes of JSON, and the
frames written are well formed and within the budget. -/
theorem commit_progress_wellformed (host : ProgressHost) (raw : RawNativeProgressPolicy)
    (policy : NativeProgressPolicy) (id n : ℕ) (w : CommitWork) (p : NativeCommitProgress)
    (hpolicy : NativeProgressPolicy.tryFrom raw = .ok policy)
    (hstart : NativeCommitProgress.start host policy id = (p, none)) (hw : w.Steady) :
    (∀ e, (p.calls host ((commitCalls w).take n)).2 = some e →
        e = .clock ∨ e = .output ∨ e = .message "progress frame exceeds policy byte limit"
          ∨ jsonSafeIntegerMax < w.publish.length ∨ jsonSafeIntegerMax < w.jsonBytes)
      ∧ (∃ k, Emitted policy (p.calls host ((commitCalls w).take n)).1.frames k)
      ∧ ((p.calls host ((commitCalls w).take n)).2 = none →
          Emitted policy (p.calls host ((commitCalls w).take n)).1.frames
            (((commitCalls w).take n).map ProgressCall.entries).sum) := by
  obtain ⟨hsync, hzero, rfl⟩ := start_synced (NativeProgressPolicy.tryFrom_accepted hpolicy) hstart
  have hcalls : Continues p.phaseIndex ⟨0, none, 0, none⟩ ((commitCalls w).take n) :=
    hzero.symm ▸ (commitCalls_continues hw _).take n
  have hhead : ∀ c, ((commitCalls w).take n).head? = some c →
      ∃ phase d, c = .enterPhase phase d := by
    intro c hc
    rcases n with _ | n
    · cases hc
    · cases hc
      exact ⟨_, _, rfl⟩
  obtain ⟨h1, h2, h3⟩ := calls_served host hsync (.inr hhead) hcalls
  rw [hzero, Nat.zero_add] at h2
  refine ⟨?_, h1, h2⟩
  intro e he
  obtain ⟨c, hc, hex⟩ := h3 e he
  rcases hex with rfl | rfl | rfl | ⟨hlarge, -⟩
  · exact .inl rfl
  · exact .inr (.inl rfl)
  · exact .inr (.inr (.inl rfl))
  · right; right; right
    by_contra hsize
    obtain ⟨hu, hj⟩ := not_or.mp hsize
    exact hlarge (commitCalls_safe hw (Nat.not_lt.mp hu) (Nat.not_lt.mp hj) c
      (List.mem_of_mem_take hc))

/-- A policy with room for the phases and the heartbeats of ten minutes. -/
def samplePolicy : RawNativeProgressPolicy where
  schema := nativeProgressPolicySchema
  protocolVersion := nativeProgressProtocolVersion
  methods := [{
    method := "batch_commit"
    phases := batchCommitPhases
    initialFrameDeadlineMs := 1000
    inactivityDeadlineMs := 30000
    phaseHardDeadlineMs := batchCommitPhases.map fun phase => ⟨phase, 600000⟩
    absoluteDeadlineMs := 600000
    minFrameIntervalMs := 500
    heartbeatIntervalMs := 5000
    earlyByteDelta := 67108864
    earlyUnitDelta := 4096
    maxFrames := 256
    maxFrameBytes := 512 }]

/-- What the policy is accepted as. -/
def sampleAccepted : NativeProgressPolicy where
  initialFrameDeadlineMs := 1000
  inactivityDeadlineMs := 30000
  phaseHardDeadlineMs := batchCommitPhases.map fun phase => (phase, 600000)
  absoluteDeadlineMs := 600000
  minFrameIntervalMs := 500
  heartbeatIntervalMs := 5000
  earlyByteDelta := 67108864
  earlyUnitDelta := 4096
  maxFrames := 256
  maxFrameBytes := 512

/-- A clock that ticks five seconds a reading, and an output that takes everything. -/
def sampleHost : ProgressHost := ⟨fun n => some (5000 * n), fun _ => true⟩

/-- Two records, two vectors of which one is empty, one read or two of each file. -/
def sampleWork : CommitWork := ⟨[[3, 4], [10]], 2, [1, 0], [10], [40, 2], [19]⟩

theorem commit_progress_wellformed_sample :
    ∃ k, Emitted sampleAccepted
      ((NativeCommitProgress.start sampleHost sampleAccepted 7).1.calls sampleHost
        ((commitCalls sampleWork).take 12)).1.frames k :=
  (commit_progress_wellformed sampleHost samplePolicy sampleAccepted 7 12 sampleWork _ rfl
    (Prod.ext rfl (by decide +kernel))
    ⟨by decide, by decide, by decide, by decide, by decide⟩).2.1

end AiraGraphdb.Native
