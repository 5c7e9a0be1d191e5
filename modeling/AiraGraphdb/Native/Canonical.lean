import AiraGraphdb.Native.Progress
import AiraGraphdb.Native.WalScan
import AiraGraphdb.Schemes.Canonical

/-! # The canonical texts of the persistence contract

Evidence, the progress policy and progress frames are exchanged as texts, of which only the canonical
one is taken back. For each of them a text is taken exactly if it is what a value that passes the
checks is written as. So the frames that a commit writes are read back as they were emitted
(`emitted_frames_read`). What the JSON reader says of a text that it refuses is a parameter. -/

namespace AiraGraphdb.Native

open Schemes Schemes.Json

section Codecs

variable [Externals] (refused : Bytes → String)

/-! ### Evidence -/

def PreparedCommitEvidence.canonicalBytes (e : PreparedCommitEvidence) : Bytes :=
  e.payload.canonicalBytes preparedCommitEvidenceSchema

def CommitEvidence.canonicalBytes (e : CommitEvidence) : Bytes :=
  e.payload.canonicalBytes commitEvidenceSchema

/-- Evidence as it is read: its fields are those of stored evidence. -/
def readPreparedEvidence (raw : Bytes) : Except String PreparedCommitEvidence := do
  let parsed ← ofOption (fromSlice StoredCommitEvidence.read raw) (refused raw)
  ensure (parsed.schema = preparedCommitEvidenceSchema)
    ("expected schema " ++ preparedCommitEvidenceSchema)
  PreparedCommitEvidence.new parsed.transactionNonce parsed.baseGeneration parsed.generation
    parsed.walSha256 parsed.walBytes parsed.walRecordCount

def PreparedCommitEvidence.fromCanonicalBytes : Bytes → Except String PreparedCommitEvidence :=
  canonically (readPreparedEvidence refused) canonicalBytes "prepared evidence is not canonical JSON"

def readCommitEvidence (raw : Bytes) : Except String CommitEvidence := do
  let parsed ← ofOption (fromSlice StoredCommitEvidence.read raw) (refused raw)
  ensure (parsed.schema = commitEvidenceSchema) ("expected schema " ++ commitEvidenceSchema)
  let prepared ← PreparedCommitEvidence.new parsed.transactionNonce parsed.baseGeneration
    parsed.generation parsed.walSha256 parsed.walBytes parsed.walRecordCount
  pure prepared.commitEvidence

def CommitEvidence.fromCanonicalBytes : Bytes → Except String CommitEvidence :=
  canonically (readCommitEvidence refused) canonicalBytes "commit evidence is not canonical JSON"

/-- A payload under the name of a schema. -/
def CommitEvidencePayload.stored (e : CommitEvidencePayload) (schema : String) :
    StoredCommitEvidence :=
  ⟨schema, e.transactionNonce, e.baseGeneration, e.generation, e.walSha256, e.walBytes,
    e.walRecordCount⟩

/-- The fields after the schema, as they are printed. -/
def CommitEvidencePayload.printedFields (e : CommitEvidencePayload) : Bytes :=
  printMembers (rawMembers floats [("transactionNonce", .str e.transactionNonce),
    ("baseGeneration", numU64 e.baseGeneration), ("generation", numU64 e.generation),
    ("walSha256", .str e.walSha256), ("walBytes", numU64 e.walBytes),
    ("walRecordCount", numU64 e.walRecordCount)])

theorem print_stored (e : CommitEvidencePayload) (schema : String) :
    (e.stored schema).value.print floats =
      utf8 "\x7b\"schema\":\"" ++ (escape (utf8 schema) ++ 0x22 :: e.printedFields) := by
  have hhead : utf8 "\x7b\"schema\":\"" = 0x7B :: 0x22 :: (escape (utf8 "schema") ++ [0x22, 0x3A, 0x22]) := by
    decide
  rw [hhead]
  simp [CommitEvidencePayload.stored, StoredCommitEvidence.value, Value.print, Value.raw, rawMembers,
    Raw.print, CommitEvidencePayload.printedFields]

/-- The canonical text is the printed one, under any schema: its fields need no escapes. -/
theorem print_stored_eq (e : CommitEvidencePayload) {schema : String}
    (hschema : escape (utf8 schema) = utf8 schema) :
    (e.stored schema).value.print floats = e.canonicalBytes schema := by
  have hplain : escape (utf8 commitEvidenceSchema) = utf8 commitEvidenceSchema := by decide
  have hcommit : (e.stored commitEvidenceSchema).value.print floats
      = e.canonicalBytes commitEvidenceSchema := StoredCommitEvidence.print_fromValidated ⟨e⟩
  rw [print_stored, hplain] at hcommit
  rw [print_stored, hschema]
  simp only [CommitEvidencePayload.canonicalBytes, List.append_assoc, List.append_cancel_left_eq]
    at hcommit ⊢
  exact hcommit

theorem fromSlice_stored (e : StoredCommitEvidence) :
    fromSlice StoredCommitEvidence.read (e.value.print floats) = some e := by
  rw [fromSlice, parse_value, Option.bind_some, nestingLimit, StoredCommitEvidence.read,
    StoredCommitEvidence.value,
    Fields.read_raw floats true (by simp [StoredCommitEvidence.fields]) (by simp) 126]
  simp [Fields.required, lookupKey, numU64]

omit [Externals] in
theorem PreparedCommitEvidence.new_self (e : PreparedCommitEvidence) :
    PreparedCommitEvidence.new e.payload.transactionNonce e.payload.baseGeneration
      e.payload.generation e.payload.walSha256 e.payload.walBytes e.payload.walRecordCount = .ok e := by
  rw [PreparedCommitEvidence.new, CommitEvidencePayload.new_self]
  rfl

theorem readPreparedEvidence_canonicalBytes (e : PreparedCommitEvidence) :
    readPreparedEvidence refused e.canonicalBytes = .ok e := by
  rw [readPreparedEvidence, PreparedCommitEvidence.canonicalBytes, ← print_stored_eq _ (by decide),
    fromSlice_stored]
  exact bind_ok.mpr ⟨_, rfl, bind_ok.mpr ⟨(), ensure_ok.mpr rfl, e.new_self⟩⟩

theorem readCommitEvidence_canonicalBytes (e : CommitEvidence) :
    readCommitEvidence refused e.canonicalBytes = .ok e := by
  rw [readCommitEvidence, CommitEvidence.canonicalBytes, ← print_stored_eq _ (by decide),
    fromSlice_stored]
  exact bind_ok.mpr ⟨_, rfl, bind_ok.mpr ⟨(), ensure_ok.mpr rfl,
    bind_ok.mpr ⟨⟨e.payload⟩, PreparedCommitEvidence.new_self ⟨e.payload⟩, rfl⟩⟩⟩

theorem prepared_fromCanonicalBytes {raw : Bytes} {e : PreparedCommitEvidence} :
    PreparedCommitEvidence.fromCanonicalBytes refused raw = .ok e ↔ raw = e.canonicalBytes :=
  (canonically_ok (fun _ => True) (fun _ => trivial)
    fun _ => readPreparedEvidence_canonicalBytes refused _).trans (iff_of_eq (true_and _))

theorem commit_fromCanonicalBytes {raw : Bytes} {e : CommitEvidence} :
    CommitEvidence.fromCanonicalBytes refused raw = .ok e ↔ raw = e.canonicalBytes :=
  (canonically_ok (fun _ => True) (fun _ => trivial)
    fun _ => readCommitEvidence_canonicalBytes refused _).trans (iff_of_eq (true_and _))

/-- Each text is taken as the evidence that is written so, and each piece of evidence is written as one
text. No text is evidence of both kinds, and the evidence of a commit is in its prepared form what was
prepared. -/
theorem evidence_codec (raw : Bytes) :
    (∀ e, PreparedCommitEvidence.fromCanonicalBytes refused raw = .ok e ↔ raw = e.canonicalBytes)
      ∧ (∀ e, CommitEvidence.fromCanonicalBytes refused raw = .ok e ↔ raw = e.canonicalBytes)
      ∧ (∀ e e', PreparedCommitEvidence.fromCanonicalBytes refused raw = .ok e →
        CommitEvidence.fromCanonicalBytes refused raw ≠ .ok e')
      ∧ ∀ e e' : PreparedCommitEvidence, e.commitEvidence.canonicalBytes = e'.commitEvidence.canonicalBytes
        ↔ e.canonicalBytes = e'.canonicalBytes := by
  refine ⟨fun e => prepared_fromCanonicalBytes refused, fun e => commit_fromCanonicalBytes refused,
    fun e e' h h' => ?_, fun e e' => ?_⟩
  · rw [prepared_fromCanonicalBytes] at h
    rw [commit_fromCanonicalBytes, h, PreparedCommitEvidence.canonicalBytes,
      CommitEvidence.canonicalBytes, ← print_stored_eq _ (by decide), ← print_stored_eq _ (by decide)]
      at h'
    have hsame := congrArg (fromSlice StoredCommitEvidence.read) h'
    rw [fromSlice_stored, fromSlice_stored] at hsame
    exact absurd (congrArg (Option.map StoredCommitEvidence.schema) hsame) (by
      simp [CommitEvidencePayload.stored, preparedCommitEvidenceSchema, commitEvidenceSchema])
  · constructor
    · intro h
      have hcommit := (commit_fromCanonicalBytes refused).mpr h
      rw [(commit_fromCanonicalBytes refused).mpr rfl] at hcommit
      cases e
      cases e'
      cases hcommit
      rfl
    · intro h
      have hprepared := (prepared_fromCanonicalBytes refused).mpr h
      rw [(prepared_fromCanonicalBytes refused).mpr rfl] at hprepared
      cases hprepared
      rfl

/-! ### Progress frames -/

structure RawNativeProgressFrame where
  schema : String
  kind : String
  protocolVersion : ℕ
  id : ℕ
  sequence : ℕ
  method : String
  phase : String
  completedUnits : ℕ
  totalUnits : Option ℕ
  completedBytes : ℕ
  totalBytes : Option ℕ

def RawNativeProgressFrame.fields : List String :=
  ["schema", "kind", "protocolVersion", "id", "sequence", "method", "phase", "completedUnits",
    "totalUnits", "completedBytes", "totalBytes"]

/-- A 64-bit counter. -/
def counter : Reader ℕ := fun limit r => (Reader.u64 floats limit r).map UInt64.toNat

def RawNativeProgressFrame.read : Reader RawNativeProgressFrame := fun limit r => do
  let fs ← Fields.read RawNativeProgressFrame.fields true limit r
  return {
    schema := ← fs.required "schema" Reader.string
    kind := ← fs.required "kind" Reader.string
    protocolVersion := ← fs.required "protocolVersion" counter
    id := ← fs.required "id" counter
    sequence := ← fs.required "sequence" counter
    method := ← fs.required "method" Reader.string
    phase := ← fs.required "phase" Reader.string
    completedUnits := ← fs.required "completedUnits" counter
    totalUnits := ← fs.optional "totalUnits" counter
    completedBytes := ← fs.required "completedBytes" counter
    totalBytes := ← fs.optional "totalBytes" counter }

def readProgressFrame (raw : Bytes) : Except String NativeProgressFrame := do
  let parsed ← ofOption (fromSlice RawNativeProgressFrame.read raw) (refused raw)
  ensure (parsed.schema = nativeProgressFrameSchema ∧ parsed.kind = "progress"
      ∧ parsed.protocolVersion = nativeProgressProtocolVersion ∧ parsed.method = "batch_commit")
    "progress frame schema or inventory is invalid"
  if parsed.phase = "admitted" then do
    ensure (parsed.sequence = 1 ∧ parsed.completedUnits = 0 ∧ parsed.totalUnits = none
        ∧ parsed.completedBytes = 0 ∧ parsed.totalBytes = none)
      "the admitted frame must be sequence 1 with zero counters"
    NativeProgressFrame.admitted parsed.id
  else do
    let counters ← ProgressCounters.new parsed.completedUnits parsed.totalUnits
      parsed.completedBytes parsed.totalBytes
    NativeProgressFrame.progress parsed.id parsed.sequence parsed.phase counters

def NativeProgressFrame.fromCanonicalBytes : Bytes → Except String NativeProgressFrame :=
  canonically (readProgressFrame refused) canonicalBytes "progress frame is not canonical JSON"

omit [Externals] in
/-- A frame as its constructors make it. -/
inductive NativeProgressFrame.Made : NativeProgressFrame → Prop
  | admitted {id : ℕ} {f : NativeProgressFrame} (h : NativeProgressFrame.admitted id = .ok f) : Made f
  | progress {id sequence : ℕ} {phase : String} {c d : ProgressCounters} {f : NativeProgressFrame}
      (hc : ProgressCounters.new c.completedUnits c.totalUnits c.completedBytes c.totalBytes = .ok d)
      (h : NativeProgressFrame.progress id sequence phase d = .ok f) : Made f

/-! #### A frame as it is printed -/

def counterValue (n : ℕ) : Value := numU64 (UInt64.ofNat n)

def totalValue (total : Option ℕ) : Value := total.elim .null counterValue

def NativeProgressFrame.value (f : NativeProgressFrame) : Value :=
  .obj [("schema", .str nativeProgressFrameSchema), ("kind", .str "progress"),
    ("protocolVersion", counterValue nativeProgressProtocolVersion), ("id", counterValue f.id),
    ("sequence", counterValue f.sequence), ("method", .str "batch_commit"), ("phase", .str f.phase),
    ("completedUnits", counterValue f.counters.completedUnits),
    ("totalUnits", totalValue f.counters.totalUnits),
    ("completedBytes", counterValue f.counters.completedBytes),
    ("totalBytes", totalValue f.counters.totalBytes)]

/-- The parts of a frame fit 64 bits, and the phase is one of the inventory. -/
structure NativeProgressFrame.Plain (f : NativeProgressFrame) : Prop where
  phase : f.phase ∈ batchCommitPhases
  id : f.id < 2 ^ 64
  sequence : f.sequence < 2 ^ 64
  completedUnits : f.counters.completedUnits < 2 ^ 64
  totalUnits : ∀ n ∈ f.counters.totalUnits, n < 2 ^ 64
  completedBytes : f.counters.completedBytes < 2 ^ 64
  totalBytes : ∀ n ∈ f.counters.totalBytes, n < 2 ^ 64

omit [Externals] in
theorem utf8_toString (n : ℕ) : utf8 (toString n) = decimal n := by
  have hrepr (m : ℕ) : toString m = String.ofList (Nat.toDigits 10 m) := rfl
  have hdigit : ∀ d < 10, utf8 (String.ofList [Nat.digitChar d]) = [UInt8.ofNat (48 + d)] := by decide
  induction n using Nat.strong_induction_on with
  | _ n ih =>
    rcases Nat.lt_or_ge n 10 with h | h
    · rw [hrepr, Nat.toDigits_of_lt_base h, hdigit n h, decimal_of_lt h]
    · rw [hrepr, Nat.toDigits_of_base_le (by omega) h, String.ofList_append, utf8_append, ← hrepr,
        ih _ (by omega), hdigit _ (Nat.mod_lt n (by omega)), decimal_of_ge h]

theorem print_counterValue {n : ℕ} (h : n < 2 ^ 64) : (counterValue n).raw floats = .num (decimal n) := by
  rw [counterValue, numU64, Value.raw, Number.lexeme, UInt64.toNat_ofNat', Nat.mod_eq_of_lt h]

def rawTotal (total : Option ℕ) : Raw := total.elim .null fun n => .num (decimal n)

theorem raw_totalValue {total : Option ℕ} (h : ∀ n ∈ total, n < 2 ^ 64) :
    (totalValue total).raw floats = rawTotal total := by
  cases total with
  | none => rfl
  | some n => exact print_counterValue (h n rfl)

omit [Externals] in
theorem utf8_totalText (total : Option ℕ) : utf8 (totalText total) = (rawTotal total).print := by
  cases total with
  | none => decide
  | some n => exact utf8_toString n

omit [Externals] in
theorem escape_phase {phase : String} (h : phase ∈ batchCommitPhases) :
    escape (utf8 phase) = utf8 phase := by
  have key : ∀ phase ∈ batchCommitPhases, escape (utf8 phase) = utf8 phase := by decide
  exact key phase h

theorem print_frame {f : NativeProgressFrame} (h : f.Plain) :
    f.value.print floats = f.canonicalBytes := by
  rw [NativeProgressFrame.canonicalBytes, toUTF8_toList]
  simp only [utf8_append, utf8_toString, utf8_totalText, NativeProgressFrame.value, Value.print,
    Value.raw, rawMembers, print_counterValue h.id, print_counterValue h.sequence,
    print_counterValue h.completedUnits, print_counterValue h.completedBytes,
    raw_totalValue h.totalUnits, raw_totalValue h.totalBytes, escape_phase h.phase, Raw.print,
    printMembers, List.append_assoc, List.cons_append, List.nil_append]
  rfl

/-! #### A frame is read as it was made -/

def NativeProgressFrame.parsed (f : NativeProgressFrame) : RawNativeProgressFrame :=
  ⟨nativeProgressFrameSchema, "progress", nativeProgressProtocolVersion, f.id, f.sequence,
    "batch_commit", f.phase, f.counters.completedUnits, f.counters.totalUnits,
    f.counters.completedBytes, f.counters.totalBytes⟩

theorem counter_raw {n : ℕ} (h : n < 2 ^ 64) (limit : ℕ) :
    counter limit ((counterValue n).raw floats) = some n := by
  rw [counter, counterValue, numU64, Reader.u64_raw, Option.map_some, UInt64.toNat_ofNat',
    Nat.mod_eq_of_lt h]

theorem total_raw {total : Option ℕ} (h : ∀ n ∈ total, n < 2 ^ 64) (limit : ℕ) :
    Reader.option counter limit ((totalValue total).raw floats) = some total := by
  cases total with
  | none => rfl
  | some n =>
    have hcounter := counter_raw (h n rfl) limit
    rw [totalValue, Option.elim_some, counterValue, numU64, Value.raw] at *
    rw [Reader.option, hcounter]
    · rfl
    · simp

theorem fromSlice_frame {f : NativeProgressFrame} (h : f.Plain) :
    fromSlice RawNativeProgressFrame.read f.canonicalBytes = some f.parsed := by
  rw [← print_frame h, fromSlice, parse_value, Option.bind_some, nestingLimit,
    RawNativeProgressFrame.read, NativeProgressFrame.value,
    Fields.read_raw floats true (by simp [RawNativeProgressFrame.fields]) (by simp) 126]
  have hversion : nativeProgressProtocolVersion < 2 ^ 64 := by decide
  simp [Fields.required, Fields.optional, lookupKey, counter_raw hversion, counter_raw h.id,
    counter_raw h.sequence, counter_raw h.completedUnits, counter_raw h.completedBytes,
    total_raw h.totalUnits, total_raw h.totalBytes, NativeProgressFrame.parsed]

omit [Externals] in
theorem counters_ok {c d : ProgressCounters}
    (h : ProgressCounters.new c.completedUnits c.totalUnits c.completedBytes c.totalBytes = .ok d) :
    d = c ∧ c.completedUnits ≤ jsonSafeIntegerMax ∧ c.completedBytes ≤ jsonSafeIntegerMax
      ∧ (∀ n ∈ c.totalUnits, n ≤ jsonSafeIntegerMax) ∧ ∀ n ∈ c.totalBytes, n ≤ jsonSafeIntegerMax := by
  have htotal {name : String} {completed : ℕ} {total : Option ℕ} {u : Unit}
      (ht : checkTotal name completed total = .ok u) : ∀ n ∈ total, n ≤ jsonSafeIntegerMax := by
    intro n hn
    cases hn
    obtain ⟨_, hsafe, -⟩ := bind_ok.mp ht
    exact (validateSafeCounter_ok.mp hsafe).1
  obtain ⟨_, hunits, h⟩ := bind_ok.mp h
  obtain ⟨_, hbytes, h⟩ := bind_ok.mp h
  obtain ⟨_, htotalUnits, h⟩ := bind_ok.mp h
  obtain ⟨_, htotalBytes, h⟩ := bind_ok.mp h
  cases h
  exact ⟨rfl, (validateSafeCounter_ok.mp hunits).1, (validateSafeCounter_ok.mp hbytes).1,
    htotal htotalUnits, htotal htotalBytes⟩

omit [Externals] in
theorem admitted_ok {id : ℕ} {f : NativeProgressFrame} (h : NativeProgressFrame.admitted id = .ok f) :
    f = ⟨id, 1, "admitted", ⟨0, none, 0, none⟩⟩ ∧ id ≤ jsonSafeIntegerMax := by
  obtain ⟨_, hid, h⟩ := bind_ok.mp h
  cases h
  exact ⟨rfl, (validateSafeCounter_ok.mp hid).1⟩

omit [Externals] in
theorem progress_inv {id sequence : ℕ} {phase : String} {c : ProgressCounters}
    {f : NativeProgressFrame} (h : NativeProgressFrame.progress id sequence phase c = .ok f) :
    f = ⟨id, sequence, phase, c⟩ ∧ phase ≠ "admitted" ∧ phase ∈ batchCommitPhases
      ∧ id ≤ jsonSafeIntegerMax ∧ sequence ≤ jsonSafeIntegerMax := by
  obtain ⟨_, hphase, h⟩ := bind_ok.mp h
  obtain ⟨_, hid, h⟩ := bind_ok.mp h
  obtain ⟨_, hsequence, h⟩ := bind_ok.mp h
  obtain ⟨_, -, h⟩ := bind_ok.mp h
  cases h
  have hphase := ensure_ok.mp hphase
  exact ⟨rfl, hphase.1, hphase.2, (validateSafeCounter_ok.mp hid).1,
    (validateSafeCounter_ok.mp hsequence).1⟩

omit [Externals] in
theorem NativeProgressFrame.Made.plain {f : NativeProgressFrame} (h : f.Made) : f.Plain := by
  have fits {n : ℕ} (hn : n ≤ jsonSafeIntegerMax) : n < 2 ^ 64 := lt_of_le_of_lt hn (by decide)
  cases h with
  | admitted h =>
    obtain ⟨rfl, hid⟩ := admitted_ok h
    have hphase : "admitted" ∈ batchCommitPhases := by decide
    have hzero : 0 < 2 ^ 64 := by decide
    have hone : 1 < 2 ^ 64 := by decide
    have hnone : ∀ n ∈ (none : Option ℕ), n < 2 ^ 64 := by simp
    exact ⟨hphase, fits hid, hone, hzero, hnone, hzero, hnone⟩
  | progress hc h =>
    obtain ⟨rfl, hunits, hbytes, htotalUnits, htotalBytes⟩ := counters_ok hc
    obtain ⟨rfl, -, hphase, hid, hsequence⟩ := progress_inv h
    exact ⟨hphase, fits hid, fits hsequence, fits hunits, fun n hn => fits (htotalUnits n hn),
      fits hbytes, fun n hn => fits (htotalBytes n hn)⟩

theorem readProgressFrame_canonicalBytes {f : NativeProgressFrame} (h : f.Made) :
    readProgressFrame refused f.canonicalBytes = .ok f := by
  rw [readProgressFrame, fromSlice_frame h.plain]
  refine bind_ok.mpr ⟨f.parsed, rfl, bind_ok.mpr ⟨(), ensure_ok.mpr ⟨rfl, rfl, rfl, rfl⟩, ?_⟩⟩
  cases h with
  | admitted h =>
    obtain ⟨rfl, hid⟩ := admitted_ok h
    refine (if_pos rfl).trans ?_
    exact bind_ok.mpr ⟨(), ensure_ok.mpr ⟨rfl, rfl, rfl, rfl, rfl⟩, h⟩
  | progress hc h =>
    obtain ⟨rfl, -⟩ := counters_ok hc
    obtain ⟨rfl, hphase, -⟩ := progress_inv h
    refine (if_neg hphase).trans ?_
    exact bind_ok.mpr ⟨_, hc, h⟩

theorem made_of_read {raw : Bytes} {f : NativeProgressFrame}
    (h : readProgressFrame refused raw = .ok f) : f.Made := by
  obtain ⟨parsed, -, h⟩ := bind_ok.mp h
  obtain ⟨_, -, h⟩ := bind_ok.mp h
  split_ifs at h
  · obtain ⟨_, -, h⟩ := bind_ok.mp h
    exact .admitted h
  · obtain ⟨counters, hc, h⟩ := bind_ok.mp h
    exact @NativeProgressFrame.Made.progress _ _ _
      ⟨parsed.completedUnits, parsed.totalUnits, parsed.completedBytes, parsed.totalBytes⟩ _ _ hc h

theorem frame_fromCanonicalBytes {raw : Bytes} {f : NativeProgressFrame} :
    NativeProgressFrame.fromCanonicalBytes refused raw = .ok f ↔ f.Made ∧ raw = f.canonicalBytes :=
  canonically_ok NativeProgressFrame.Made (made_of_read refused)
    (readProgressFrame_canonicalBytes refused)

/-! #### The frames of a commit -/

omit [Externals] in
/-- What the emitter writes, each frame on a line. -/
def progressOutput (frames : List NativeProgressFrame) : Bytes :=
  frames.flatMap fun f => f.canonicalBytes ++ [lineFeed]

theorem lineFeed_notMem_canonicalBytes {f : NativeProgressFrame} (h : f.Made) :
    lineFeed ∉ f.canonicalBytes := by
  intro hm
  rw [← print_frame h.plain] at hm
  exact absurd (ge_of_mem_print floats _ lineFeed hm) (by decide)

theorem splitLines_progressOutput : ∀ {frames : List NativeProgressFrame}, (∀ f ∈ frames, f.Made) →
    splitLines (progressOutput frames) = (frames.map NativeProgressFrame.canonicalBytes, [])
  | [], _ => rfl
  | f :: frames, h => by
    rw [List.forall_mem_cons] at h
    have hcons : progressOutput (f :: frames)
        = f.canonicalBytes ++ lineFeed :: progressOutput frames := by simp [progressOutput]
    rw [hcons, splitLines_line (lineFeed_notMem_canonicalBytes h.1), splitLines_progressOutput h.2]
    rfl

omit [Externals] in
theorem writeFrame_made (host : ProgressHost) {p : NativeCommitProgress} {frame : NativeProgressFrame}
    (hp : ∀ f ∈ p.frames, f.Made) (hframe : frame.Made) :
    ∀ f ∈ (p.writeFrame host frame).1.frames, f.Made := by
  have happend : ∀ f ∈ p.frames ++ [frame], f.Made := by
    simpa [or_imp, forall_and] using ⟨hp, hframe⟩
  unfold NativeCommitProgress.writeFrame
  split
  · exact hp
  · split
    · exact hp
    · split
      · exact hp
      · split
        · exact hp
        · dsimp only
          split
          · exact happend
          · exact happend

omit [Externals] in
theorem start_made (host : ProgressHost) (policy : NativeProgressPolicy) (id : ℕ) :
    ∀ f ∈ (NativeCommitProgress.start host policy id).1.frames, f.Made := by
  have hinitial : ∀ f ∈ (NativeCommitProgress.initial policy id).frames, f.Made := by
    simp [NativeCommitProgress.initial]
  unfold NativeCommitProgress.start
  split
  · exact hinitial
  · next hadmitted => exact writeFrame_made host hinitial (.admitted hadmitted)

omit [Externals] in
theorem enterPhase_made (host : ProgressHost) {p : NativeCommitProgress} (phase : String)
    (c : ProgressCounters) (hp : ∀ f ∈ p.frames, f.Made) :
    ∀ f ∈ (p.enterPhase host phase c).1.frames, f.Made := by
  unfold NativeCommitProgress.enterPhase
  split
  · exact hp
  · split
    · exact hp
    · next counters hc =>
      split
      · exact hp
      · split
        · exact hp
        · next hframe => exact writeFrame_made host hp (.progress hc hframe)

omit [Externals] in
theorem validateCounters_made {p : NativeCommitProgress} {c d : ProgressCounters}
    (h : p.validateCounters c = .ok d) :
    ProgressCounters.new c.completedUnits c.totalUnits c.completedBytes c.totalBytes = .ok d := by
  obtain ⟨_, -, h⟩ := bind_ok.mp h
  obtain ⟨_, -, h⟩ := bind_ok.mp h
  obtain ⟨_, -, h⟩ := bind_ok.mp h
  exact h

omit [Externals] in
theorem advance_made (host : ProgressHost) {p : NativeCommitProgress} (c : ProgressCounters)
    (hp : ∀ f ∈ p.frames, f.Made) : ∀ f ∈ (p.advance host c).1.frames, f.Made := by
  unfold NativeCommitProgress.advance
  split
  · exact hp
  · next counters hc =>
    dsimp only
    split
    · exact hp
    · split
      · exact hp
      · split
        · exact hp
        · split
          · exact hp
          · split
            · exact hp
            · split
              · exact hp
              · split
                · exact hp
                · next hframe =>
                  exact writeFrame_made host hp (.progress (validateCounters_made hc) hframe)

omit [Externals] in
theorem calls_made (host : ProgressHost) : ∀ {cs : List ProgressCall} {p : NativeCommitProgress},
    (∀ f ∈ p.frames, f.Made) → ∀ f ∈ (p.calls host cs).1.frames, f.Made
  | [], _, hp => hp
  | c :: cs, p, hp => by
    have hcall : ∀ f ∈ (p.call host c).1.frames, f.Made := by
      cases c with
      | enterPhase phase c => exact enterPhase_made host phase c hp
      | advance c => exact advance_made host c hp
    rw [NativeCommitProgress.calls]
    split
    · next h =>
      rw [h] at hcall
      exact calls_made host hcall
    · next h =>
      rw [h] at hcall
      exact hcall

/-- The emission of a commit from its start: the calls follow if the start succeeds. -/
def NativeCommitProgress.emission (host : ProgressHost) (policy : NativeProgressPolicy) (id : ℕ)
    (cs : List ProgressCall) : Emission :=
  match NativeCommitProgress.start host policy id with
  | (p, none) => p.calls host cs
  | (p, some e) => (p, some e)

omit [Externals] in
theorem emission_made (host : ProgressHost) (policy : NativeProgressPolicy) (id : ℕ)
    (cs : List ProgressCall) : ∀ f ∈ (NativeCommitProgress.emission host policy id cs).1.frames, f.Made := by
  have hstart := start_made host policy id
  unfold NativeCommitProgress.emission
  split
  · next h =>
    rw [h] at hstart
    exact calls_made host hstart
  · next h =>
    rw [h] at hstart
    exact hstart

theorem mapM_canonicalBytes : ∀ {frames : List NativeProgressFrame}, (∀ f ∈ frames, f.Made) →
    (frames.map NativeProgressFrame.canonicalBytes).mapM
      (NativeProgressFrame.fromCanonicalBytes refused) = .ok frames
  | [], _ => rfl
  | f :: frames, h => by
    rw [List.forall_mem_cons] at h
    rw [List.map_cons, List.mapM_cons, (frame_fromCanonicalBytes refused).mpr ⟨h.1, rfl⟩]
    exact bind_ok.mpr ⟨_, rfl, bind_ok.mpr ⟨_, mapM_canonicalBytes h.2, rfl⟩⟩

def RawPhaseHardDeadline.fields : List String := ["phase", "deadlineMs"]

def RawPhaseHardDeadline.read : Reader RawPhaseHardDeadline := fun limit r => do
  let fs ← Fields.read RawPhaseHardDeadline.fields true limit r
  return {
    phase := ← fs.required "phase" Reader.string
    deadlineMs := ← fs.required "deadlineMs" counter }

def RawNativeProgressMethodPolicy.fields : List String :=
  ["method", "phases", "initialFrameDeadlineMs", "inactivityDeadlineMs", "phaseHardDeadlineMs",
    "absoluteDeadlineMs", "minFrameIntervalMs", "heartbeatIntervalMs", "earlyByteDelta",
    "earlyUnitDelta", "maxFrames", "maxFrameBytes"]

def RawNativeProgressMethodPolicy.read : Reader RawNativeProgressMethodPolicy := fun limit r => do
  let fs ← Fields.read RawNativeProgressMethodPolicy.fields true limit r
  return {
    method := ← fs.required "method" Reader.string
    phases := ← fs.required "phases" (Reader.list Reader.string)
    initialFrameDeadlineMs := ← fs.required "initialFrameDeadlineMs" counter
    inactivityDeadlineMs := ← fs.required "inactivityDeadlineMs" counter
    phaseHardDeadlineMs := ← fs.required "phaseHardDeadlineMs" (Reader.list RawPhaseHardDeadline.read)
    absoluteDeadlineMs := ← fs.required "absoluteDeadlineMs" counter
    minFrameIntervalMs := ← fs.required "minFrameIntervalMs" counter
    heartbeatIntervalMs := ← fs.required "heartbeatIntervalMs" counter
    earlyByteDelta := ← fs.required "earlyByteDelta" counter
    earlyUnitDelta := ← fs.required "earlyUnitDelta" counter
    maxFrames := ← fs.required "maxFrames" counter
    maxFrameBytes := ← fs.required "maxFrameBytes" counter }

def RawNativeProgressPolicy.fields : List String := ["schema", "protocolVersion", "methods"]

def RawNativeProgressPolicy.read : Reader RawNativeProgressPolicy := fun limit r => do
  let fs ← Fields.read RawNativeProgressPolicy.fields true limit r
  return {
    schema := ← fs.required "schema" Reader.string
    protocolVersion := ← fs.required "protocolVersion" counter
    methods := ← fs.required "methods" (Reader.list RawNativeProgressMethodPolicy.read) }

def readProgressPolicy (raw : Bytes) : Except String NativeProgressPolicy := do
  NativeProgressPolicy.tryFrom
    (← ofOption (fromSlice RawNativeProgressPolicy.read raw) (refused raw))

/-- The parts with commas in between. -/
def separated : List Bytes → Bytes
  | [] => []
  | part :: parts => part ++ parts.flatMap fun next => utf8 "," ++ next

/-- One deadline of the policy as it is written. -/
def deadlineText (deadline : String × ℕ) : Bytes :=
  utf8 "\x7b\"phase\":\"" ++ utf8 deadline.1 ++ utf8 "\",\"deadlineMs\":" ++ decimal deadline.2
    ++ utf8 "\x7d"

/-- The one method of the policy as it is written. -/
def NativeProgressPolicy.methodText (p : NativeProgressPolicy) : Bytes :=
  [utf8 "\x7b\"method\":\"batch_commit\",\"phases\":[",
    separated (batchCommitPhases.map fun phase => utf8 "\"" ++ utf8 phase ++ utf8 "\""),
    utf8 "],\"initialFrameDeadlineMs\":", decimal p.initialFrameDeadlineMs,
    utf8 ",\"inactivityDeadlineMs\":", decimal p.inactivityDeadlineMs,
    utf8 ",\"phaseHardDeadlineMs\":[", separated (p.phaseHardDeadlineMs.map deadlineText),
    utf8 "],\"absoluteDeadlineMs\":", decimal p.absoluteDeadlineMs,
    utf8 ",\"minFrameIntervalMs\":", decimal p.minFrameIntervalMs,
    utf8 ",\"heartbeatIntervalMs\":", decimal p.heartbeatIntervalMs,
    utf8 ",\"earlyByteDelta\":", decimal p.earlyByteDelta,
    utf8 ",\"earlyUnitDelta\":", decimal p.earlyUnitDelta,
    utf8 ",\"maxFrames\":", decimal p.maxFrames,
    utf8 ",\"maxFrameBytes\":", decimal p.maxFrameBytes, utf8 "\x7d"].flatten

def NativeProgressPolicy.canonicalBytes (p : NativeProgressPolicy) : Bytes :=
  [utf8 "\x7b\"schema\":\"", utf8 nativeProgressPolicySchema, utf8 "\",\"protocolVersion\":",
    decimal nativeProgressProtocolVersion, utf8 ",\"methods\":[", p.methodText,
    utf8 "]\x7d"].flatten

def NativeProgressPolicy.fromCanonicalBytes : Bytes → Except String NativeProgressPolicy :=
  canonically (readProgressPolicy refused) canonicalBytes "progress policy is not canonical JSON"

/-! #### A policy and what it was made of -/

def NativeProgressPolicy.rawMethod (p : NativeProgressPolicy) : RawNativeProgressMethodPolicy where
  method := "batch_commit"
  phases := batchCommitPhases
  initialFrameDeadlineMs := p.initialFrameDeadlineMs
  inactivityDeadlineMs := p.inactivityDeadlineMs
  phaseHardDeadlineMs := p.phaseHardDeadlineMs.map fun d => ⟨d.1, d.2⟩
  absoluteDeadlineMs := p.absoluteDeadlineMs
  minFrameIntervalMs := p.minFrameIntervalMs
  heartbeatIntervalMs := p.heartbeatIntervalMs
  earlyByteDelta := p.earlyByteDelta
  earlyUnitDelta := p.earlyUnitDelta
  maxFrames := p.maxFrames
  maxFrameBytes := p.maxFrameBytes

def NativeProgressPolicy.rawPolicy (p : NativeProgressPolicy) : RawNativeProgressPolicy :=
  ⟨nativeProgressPolicySchema, nativeProgressProtocolVersion, [p.rawMethod]⟩

/-- The policy passes the checks. -/
def NativeProgressPolicy.Checked (p : NativeProgressPolicy) : Prop :=
  NativeProgressPolicy.tryFrom p.rawPolicy = .ok p

omit [Externals] in
theorem phaseHardDeadline_ok {entry : RawPhaseHardDeadline × String} {d : String × ℕ}
    (h : phaseHardDeadline entry = .ok d) :
    entry.1 = ⟨d.1, d.2⟩ ∧ d.1 = entry.2 ∧ d.2 ≤ jsonSafeIntegerMax := by
  obtain ⟨_, hphase, h⟩ := bind_ok.mp h
  obtain ⟨_, hsafe, h⟩ := bind_ok.mp h
  cases h
  exact ⟨rfl, ensure_ok.mp hphase, (validateSafeCounter_ok.mp hsafe).1⟩

omit [Externals] in
theorem deadlines_ok {entries : List (RawPhaseHardDeadline × String)} {ds : List (String × ℕ)}
    (h : entries.mapM phaseHardDeadline = .ok ds) :
    entries.map Prod.fst = (ds.map fun d => ⟨d.1, d.2⟩) := by
  have hsteps := mapM_ok.mp h
  clear h
  induction hsteps with
  | nil => rfl
  | cons hstep _ ih => rw [List.map_cons, List.map_cons, ih, (phaseHardDeadline_ok hstep).1]

omit [Externals] in
/-- The checks keep everything. -/
theorem rawPolicy_of_tryFrom {raw : RawNativeProgressPolicy} {p : NativeProgressPolicy}
    (h : NativeProgressPolicy.tryFrom raw = .ok p) : raw = p.rawPolicy := by
  unfold NativeProgressPolicy.tryFrom at h
  obtain ⟨_, hshape, h⟩ := bind_ok.mp h
  obtain ⟨m, hm, h⟩ := bind_ok.mp h
  obtain ⟨_, hinventory, h⟩ := bind_ok.mp h
  obtain ⟨deadlines, hdeadlines, h⟩ := bind_ok.mp h
  obtain ⟨_, -, h⟩ := bind_ok.mp h
  obtain ⟨_, -, h⟩ := bind_ok.mp h
  obtain ⟨_, -, h⟩ := bind_ok.mp h
  obtain ⟨_, -, h⟩ := bind_ok.mp h
  obtain ⟨_, -, h⟩ := bind_ok.mp h
  cases h
  obtain ⟨hschema, hversion, hlength⟩ := ensure_ok.mp hshape
  obtain ⟨hmethod, hphases, hcount⟩ := ensure_ok.mp hinventory
  obtain ⟨m', hmethods⟩ := List.length_eq_one_iff.mp hlength
  rw [hmethods] at hm
  cases ofOption_ok.mp hm
  have hmap := deadlines_ok hdeadlines
  rw [List.map_fst_zip (by rw [hcount])] at hmap
  cases raw
  cases m
  simp only at hschema hversion hmethods hmethod hphases hmap
  subst hschema hversion hmethods hmethod hphases hmap
  rfl

/-- The numbers of a policy are canonical, and its deadlines those of phases of the inventory. -/
structure NativeProgressPolicy.Fits (p : NativeProgressPolicy) : Prop where
  numbers : ∀ entry ∈ p.rawMethod.numbers, entry.2 < 2 ^ 64
  deadlines : ∀ d ∈ p.phaseHardDeadlineMs, d.1 ∈ batchCommitPhases ∧ d.2 < 2 ^ 64

omit [Externals] in
theorem NativeProgressPolicy.Checked.fits {p : NativeProgressPolicy} (h : p.Checked) : p.Fits := by
  have small {n : ℕ} (hn : n ≤ jsonSafeIntegerMax) : n < 2 ^ 64 := lt_of_le_of_lt hn (by decide)
  unfold NativeProgressPolicy.Checked NativeProgressPolicy.tryFrom at h
  obtain ⟨_, -, h⟩ := bind_ok.mp h
  obtain ⟨m, hm, h⟩ := bind_ok.mp h
  cases ofOption_ok.mp hm
  obtain ⟨_, -, h⟩ := bind_ok.mp h
  obtain ⟨deadlines, hdeadlines, h⟩ := bind_ok.mp h
  obtain ⟨_, hnumbers, h⟩ := bind_ok.mp h
  obtain ⟨_, -, h⟩ := bind_ok.mp h
  obtain ⟨_, -, h⟩ := bind_ok.mp h
  obtain ⟨_, -, h⟩ := bind_ok.mp h
  obtain ⟨_, -, h⟩ := bind_ok.mp h
  have hsame : deadlines = p.phaseHardDeadlineMs :=
    congrArg NativeProgressPolicy.phaseHardDeadlineMs (Except.ok.inj h)
  constructor
  · intro entry he
    exact small (validateSafeCounter_ok.mp (forM_ok hnumbers entry he)).1
  · intro d hd
    obtain ⟨entry, hentry, hok⟩ := exists_of_mapM_ok hdeadlines (hsame ▸ hd)
    obtain ⟨-, hphase, hle⟩ := phaseHardDeadline_ok hok
    exact ⟨hphase ▸ (List.of_mem_zip hentry).2, small hle⟩

/-! #### A policy as it is printed -/

def deadlineValue (d : String × ℕ) : Value :=
  .obj [("phase", .str d.1), ("deadlineMs", counterValue d.2)]

def NativeProgressPolicy.methodValue (p : NativeProgressPolicy) : Value :=
  .obj [("method", .str "batch_commit"), ("phases", .arr (batchCommitPhases.map .str)),
    ("initialFrameDeadlineMs", counterValue p.initialFrameDeadlineMs),
    ("inactivityDeadlineMs", counterValue p.inactivityDeadlineMs),
    ("phaseHardDeadlineMs", .arr (p.phaseHardDeadlineMs.map deadlineValue)),
    ("absoluteDeadlineMs", counterValue p.absoluteDeadlineMs),
    ("minFrameIntervalMs", counterValue p.minFrameIntervalMs),
    ("heartbeatIntervalMs", counterValue p.heartbeatIntervalMs),
    ("earlyByteDelta", counterValue p.earlyByteDelta), ("earlyUnitDelta", counterValue p.earlyUnitDelta),
    ("maxFrames", counterValue p.maxFrames), ("maxFrameBytes", counterValue p.maxFrameBytes)]

def NativeProgressPolicy.value (p : NativeProgressPolicy) : Value :=
  .obj [("schema", .str nativeProgressPolicySchema),
    ("protocolVersion", counterValue nativeProgressProtocolVersion), ("methods", .arr [p.methodValue])]

omit [Externals] in
theorem flatMap_comma (parts : List Bytes) :
    parts.flatMap (fun next => utf8 "," ++ next) = parts.flatMap (0x2C :: ·) := rfl

omit [Externals] in
theorem print_arr (vs : List Raw) :
    (Raw.arr vs).print = 0x5B :: (separated (vs.map Raw.print) ++ [0x5D]) := by
  have hitems (vs : List Raw) : printItems vs = (vs.map Raw.print).flatMap (0x2C :: ·) ++ [0x5D] := by
    induction vs with
    | nil => rfl
    | cons v vs ih => simp [printItems, ih]
  cases vs with
  | nil => rfl
  | cons v vs => simp [Raw.print, hitems, separated, flatMap_comma]

/-- A member of an object as it is printed. -/
def memberText (m : String × Value) : Bytes :=
  0x22 :: (escape (utf8 m.1) ++ 0x22 :: 0x3A :: (m.2.raw floats).print)

theorem print_obj (ms : List (String × Value)) :
    ((Value.obj ms).raw floats).print = 0x7B :: (separated (ms.map memberText) ++ [0x7D]) := by
  have hmembers (ms : List (String × Value)) : printMembers (rawMembers floats ms)
      = (ms.map memberText).flatMap (0x2C :: ·) ++ [0x7D] := by
    induction ms with
    | nil => rfl
    | cons m ms ih => simp [rawMembers, printMembers, ih, memberText]
  cases ms with
  | nil => rfl
  | cons m ms => simp [Value.raw, rawMembers, Raw.print, hmembers, separated, flatMap_comma, memberText]

theorem memberText_counter {n : ℕ} (h : n < 2 ^ 64) (name : String) :
    memberText (name, counterValue n) = 0x22 :: (escape (utf8 name) ++ 0x22 :: 0x3A :: decimal n) := by
  rw [memberText, print_counterValue h]
  rfl

theorem print_deadline {d : String × ℕ} (hphase : d.1 ∈ batchCommitPhases) (hd : d.2 < 2 ^ 64) :
    ((deadlineValue d).raw floats).print = deadlineText d := by
  simp only [deadlineValue, Value.raw, rawMembers, Raw.print, printMembers, print_counterValue hd,
    escape_phase hphase, deadlineText, List.append_assoc, List.cons_append, List.nil_append]
  rfl

theorem print_deadlines {p : NativeProgressPolicy} (h : p.Fits) :
    ((Value.arr (p.phaseHardDeadlineMs.map deadlineValue)).raw floats).print
      = 0x5B :: (separated (p.phaseHardDeadlineMs.map deadlineText) ++ [0x5D]) := by
  rw [Value.raw, rawItems_eq, print_arr, List.map_map, List.map_map]
  refine congrArg (fun parts => 0x5B :: (separated parts ++ [0x5D])) ?_
  exact List.map_congr_left fun d hd => print_deadline (h.deadlines d hd).1 (h.deadlines d hd).2

theorem print_phases : ((Value.arr (batchCommitPhases.map .str)).raw floats).print
    = 0x5B :: (separated (batchCommitPhases.map fun phase => utf8 "\"" ++ utf8 phase ++ utf8 "\"")
      ++ [0x5D]) := by
  rw [Value.raw, rawItems_eq, print_arr, List.map_map, List.map_map]
  refine congrArg (fun parts => 0x5B :: (separated parts ++ [0x5D])) (List.map_congr_left fun phase h => ?_)
  simp only [Function.comp_apply, Value.raw, Raw.print, escape_phase h]
  rfl

theorem print_method {p : NativeProgressPolicy} (h : p.Fits) :
    (p.methodValue.raw floats).print = p.methodText := by
  have hnumbers := h.numbers
  simp only [RawNativeProgressMethodPolicy.numbers, NativeProgressPolicy.rawMethod,
    List.forall_mem_cons] at hnumbers
  obtain ⟨h1, h2, h3, h4, h5, h6, h7, h8, h9, -⟩ := hnumbers
  have hphases : memberText ("phases", .arr (batchCommitPhases.map .str)) = 0x22 :: (escape (utf8 "phases")
      ++ 0x22 :: 0x3A :: 0x5B :: (separated (batchCommitPhases.map fun phase =>
        utf8 "\"" ++ utf8 phase ++ utf8 "\"") ++ [0x5D])) := by rw [memberText, print_phases]
  have hdeadlines : memberText ("phaseHardDeadlineMs", .arr (p.phaseHardDeadlineMs.map deadlineValue))
      = 0x22 :: (escape (utf8 "phaseHardDeadlineMs") ++ 0x22 :: 0x3A :: 0x5B ::
        (separated (p.phaseHardDeadlineMs.map deadlineText) ++ [0x5D])) := by
    rw [memberText, print_deadlines h]
  rw [NativeProgressPolicy.methodText]
  generalize separated (batchCommitPhases.map fun phase => utf8 "\"" ++ utf8 phase ++ utf8 "\"") = phases
    at hphases ⊢
  generalize separated (p.phaseHardDeadlineMs.map deadlineText) = deadlines at hdeadlines ⊢
  have first : utf8 "\x7b\"method\":\"batch_commit\",\"phases\":[" =
      0x7B :: 0x22 :: (escape (utf8 "method") ++ 0x22 :: 0x3A :: 0x22 :: (escape (utf8 "batch_commit")
        ++ 0x22 :: 0x2C :: 0x22 :: (escape (utf8 "phases") ++ [0x22, 0x3A, 0x5B]))) := by decide
  have hmethod : memberText ("method", .str "batch_commit") = 0x22 :: (escape (utf8 "method")
      ++ 0x22 :: 0x3A :: 0x22 :: (escape (utf8 "batch_commit") ++ [0x22])) := rfl
  have comma : utf8 "," = [0x2C] := by decide
  have k1 : utf8 "],\"initialFrameDeadlineMs\":" =
      0x5D :: 0x2C :: 0x22 :: (escape (utf8 "initialFrameDeadlineMs") ++ [0x22, 0x3A]) := by decide
  have k2 : utf8 ",\"inactivityDeadlineMs\":" =
      0x2C :: 0x22 :: (escape (utf8 "inactivityDeadlineMs") ++ [0x22, 0x3A]) := by decide
  have k3 : utf8 ",\"phaseHardDeadlineMs\":[" =
      0x2C :: 0x22 :: (escape (utf8 "phaseHardDeadlineMs") ++ [0x22, 0x3A, 0x5B]) := by decide
  have k4 : utf8 "],\"absoluteDeadlineMs\":" =
      0x5D :: 0x2C :: 0x22 :: (escape (utf8 "absoluteDeadlineMs") ++ [0x22, 0x3A]) := by decide
  have k5 : utf8 ",\"minFrameIntervalMs\":" =
      0x2C :: 0x22 :: (escape (utf8 "minFrameIntervalMs") ++ [0x22, 0x3A]) := by decide
  have k6 : utf8 ",\"heartbeatIntervalMs\":" =
      0x2C :: 0x22 :: (escape (utf8 "heartbeatIntervalMs") ++ [0x22, 0x3A]) := by decide
  have k7 : utf8 ",\"earlyByteDelta\":" =
      0x2C :: 0x22 :: (escape (utf8 "earlyByteDelta") ++ [0x22, 0x3A]) := by decide
  have k8 : utf8 ",\"earlyUnitDelta\":" =
      0x2C :: 0x22 :: (escape (utf8 "earlyUnitDelta") ++ [0x22, 0x3A]) := by decide
  have k9 : utf8 ",\"maxFrames\":" =
      0x2C :: 0x22 :: (escape (utf8 "maxFrames") ++ [0x22, 0x3A]) := by decide
  have k10 : utf8 ",\"maxFrameBytes\":" =
      0x2C :: 0x22 :: (escape (utf8 "maxFrameBytes") ++ [0x22, 0x3A]) := by decide
  have last : utf8 "\x7d" = [0x7D] := by decide
  rw [NativeProgressPolicy.methodValue, print_obj]
  simp only [List.map_cons, List.map_nil, hphases, hdeadlines, memberText_counter h1,
    memberText_counter h2, memberText_counter h3, memberText_counter h4, memberText_counter h5,
    memberText_counter h6, memberText_counter h7, memberText_counter h8, memberText_counter h9,
    separated, hmethod, comma, List.flatten_cons, List.flatten_nil, List.flatMap_cons, List.flatMap_nil, List.append_assoc,
    List.cons_append, List.nil_append, List.append_nil, first, k1, k2, k3, k4, k5, k6, k7, k8, k9, k10,
    last]

theorem print_policy {p : NativeProgressPolicy} (h : p.Fits) :
    p.value.print floats = p.canonicalBytes := by
  have hversion : nativeProgressProtocolVersion < 2 ^ 64 := by decide
  have hschema : memberText ("schema", .str nativeProgressPolicySchema) = 0x22 :: (escape (utf8 "schema")
      ++ 0x22 :: 0x3A :: 0x22 :: (escape (utf8 nativeProgressPolicySchema) ++ [0x22])) := rfl
  have hmethods : memberText ("methods", .arr [p.methodValue]) = 0x22 :: (escape (utf8 "methods")
      ++ 0x22 :: 0x3A :: 0x5B :: ((p.methodValue.raw floats).print ++ [0x5D])) := by
    simp only [memberText, Value.raw, rawItems, Raw.print, printItems, List.cons_append]
  have hplain : escape (utf8 nativeProgressPolicySchema) = utf8 nativeProgressPolicySchema := by decide
  have first : utf8 "\x7b\"schema\":\"" =
      0x7B :: 0x22 :: (escape (utf8 "schema") ++ [0x22, 0x3A, 0x22]) := by decide
  have version : utf8 "\",\"protocolVersion\":" =
      0x22 :: 0x2C :: 0x22 :: (escape (utf8 "protocolVersion") ++ [0x22, 0x3A]) := by decide
  have methods : utf8 ",\"methods\":[" =
      0x2C :: 0x22 :: (escape (utf8 "methods") ++ [0x22, 0x3A, 0x5B]) := by decide
  have last : utf8 "]\x7d" = [0x5D, 0x7D] := by decide
  have comma : utf8 "," = [0x2C] := by decide
  rw [Value.print, NativeProgressPolicy.value, print_obj]
  simp only [List.map_cons, List.map_nil, hschema, memberText_counter hversion, hmethods,
    print_method h, hplain, separated, comma, List.flatten_cons, List.flatten_nil, List.flatMap_cons,
    List.flatMap_nil,
    NativeProgressPolicy.canonicalBytes, first, version, methods, last, List.append_assoc,
    List.cons_append, List.nil_append, List.append_nil]

/-! #### A policy is read as it was checked -/

theorem deadline_raw {d : String × ℕ} (h : d.2 < 2 ^ 64) (limit : ℕ) :
    RawPhaseHardDeadline.read (limit + 1) ((deadlineValue d).raw floats) = some ⟨d.1, d.2⟩ := by
  rw [RawPhaseHardDeadline.read, deadlineValue,
    Fields.read_raw floats true (by simp [RawPhaseHardDeadline.fields]) (by simp) limit]
  simp [Fields.required, lookupKey, counter_raw h]

theorem deadlines_raw {p : NativeProgressPolicy} (h : p.Fits) (limit : ℕ) :
    Reader.list RawPhaseHardDeadline.read (limit + 2)
      ((Value.arr (p.phaseHardDeadlineMs.map deadlineValue)).raw floats)
      = some (p.phaseHardDeadlineMs.map fun d => ⟨d.1, d.2⟩) := by
  rw [Value.raw, rawItems_eq, Reader.list, List.map_map, List.mapM_map]
  have hall : ∀ ds : List (String × ℕ), (∀ d ∈ ds, d.2 < 2 ^ 64) →
      ds.mapM (RawPhaseHardDeadline.read (limit + 1) ∘ (fun v => v.raw floats) ∘ deadlineValue)
        = some (ds.map fun d => ⟨d.1, d.2⟩) := by
    intro ds hds
    induction ds with
    | nil => rfl
    | cons d ds ih =>
      rw [List.forall_mem_cons] at hds
      simp [deadline_raw hds.1, ih hds.2]
  exact hall _ fun d hd => (h.deadlines d hd).2

/-- A field of a printed record is read from its member. -/
theorem required_raw {α : Type} {ms : List (String × Value)} {v : Value} {name : String} {d : Reader α}
    {limit : ℕ} {a : α} (h : lookupKey name ms = some v) (hd : d limit (v.raw floats) = some a) :
    (⟨true, limit, ms.map fun m => (m.1, m.2.raw floats)⟩ : Fields).required name d = some a := by
  rw [Fields.required, lookupKey_map, h]
  exact hd

theorem method_raw {p : NativeProgressPolicy} (h : p.Fits) (limit : ℕ) :
    RawNativeProgressMethodPolicy.read (limit + 3) (p.methodValue.raw floats) = some p.rawMethod := by
  have hnumbers := h.numbers
  simp only [RawNativeProgressMethodPolicy.numbers, NativeProgressPolicy.rawMethod,
    List.forall_mem_cons] at hnumbers
  obtain ⟨h1, h2, h3, h4, h5, h6, h7, h8, h9, -⟩ := hnumbers
  have hphases : Reader.list Reader.string (limit + 2)
      ((Value.arr (batchCommitPhases.map .str)).raw floats) = some batchCommitPhases :=
    Reader.list_raw floats fun phase _ => Reader.string_raw floats phase _
  rw [RawNativeProgressMethodPolicy.read, NativeProgressPolicy.methodValue,
    Fields.read_raw floats true (by simp [RawNativeProgressMethodPolicy.fields]) (by simp) (limit + 2)]
  refine Option.bind_eq_some_iff.mpr ⟨_, rfl, ?_⟩
  refine Option.bind_eq_some_iff.mpr ⟨_, required_raw (by rfl) (Reader.string_raw floats _ _), ?_⟩
  refine Option.bind_eq_some_iff.mpr ⟨_, required_raw (by rfl) hphases, ?_⟩
  refine Option.bind_eq_some_iff.mpr ⟨_, required_raw (by rfl) (counter_raw h1 _), ?_⟩
  refine Option.bind_eq_some_iff.mpr ⟨_, required_raw (by rfl) (counter_raw h2 _), ?_⟩
  refine Option.bind_eq_some_iff.mpr ⟨_, required_raw (by rfl) (deadlines_raw h limit), ?_⟩
  refine Option.bind_eq_some_iff.mpr ⟨_, required_raw (by rfl) (counter_raw h3 _), ?_⟩
  refine Option.bind_eq_some_iff.mpr ⟨_, required_raw (by rfl) (counter_raw h4 _), ?_⟩
  refine Option.bind_eq_some_iff.mpr ⟨_, required_raw (by rfl) (counter_raw h5 _), ?_⟩
  refine Option.bind_eq_some_iff.mpr ⟨_, required_raw (by rfl) (counter_raw h6 _), ?_⟩
  refine Option.bind_eq_some_iff.mpr ⟨_, required_raw (by rfl) (counter_raw h7 _), ?_⟩
  refine Option.bind_eq_some_iff.mpr ⟨_, required_raw (by rfl) (counter_raw h8 _), ?_⟩
  refine Option.bind_eq_some_iff.mpr ⟨_, required_raw (by rfl) (counter_raw h9 _), ?_⟩
  rfl

theorem fromSlice_policy {p : NativeProgressPolicy} (h : p.Fits) :
    fromSlice RawNativeProgressPolicy.read p.canonicalBytes = some p.rawPolicy := by
  have hversion : nativeProgressProtocolVersion < 2 ^ 64 := by decide
  have hmethods : Reader.list RawNativeProgressMethodPolicy.read 126
      ((Value.arr [p.methodValue]).raw floats) = some [p.rawMethod] := by
    simp [Value.raw, rawItems, Reader.list, method_raw h]
  rw [← print_policy h, fromSlice, parse_value, Option.bind_some, nestingLimit,
    RawNativeProgressPolicy.read, NativeProgressPolicy.value,
    Fields.read_raw floats true (by simp [RawNativeProgressPolicy.fields]) (by simp) 126]
  simp [Fields.required, lookupKey, counter_raw hversion, hmethods, NativeProgressPolicy.rawPolicy]

theorem checked_of_read {raw : Bytes} {p : NativeProgressPolicy}
    (h : readProgressPolicy refused raw = .ok p) : p.Checked := by
  obtain ⟨parsed, -, h⟩ := bind_ok.mp h
  rw [NativeProgressPolicy.Checked, ← rawPolicy_of_tryFrom h, h]

theorem readProgressPolicy_canonicalBytes {p : NativeProgressPolicy} (h : p.Checked) :
    readProgressPolicy refused p.canonicalBytes = .ok p :=
  bind_ok.mpr ⟨p.rawPolicy, by rw [fromSlice_policy h.fits]; rfl, h⟩

end Codecs

end AiraGraphdb.Native
