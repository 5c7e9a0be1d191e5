import AiraGraphdb.Native.WalGuard

/-! # The scanner on what the writer wrote

A log of records of one generation is scanned back with its exact length, record count and digest,
provided that every record nests at most 128 arrays and objects; one that nests deeper is refused,
and the log with it. -/

namespace AiraGraphdb.Native

open Schemes Schemes.Json

/-! ### Lines -/

theorem splitLines_cons {b : UInt8} (h : b ≠ lineFeed) (bs : Bytes) :
    splitLines (b :: bs) = match splitLines bs with
      | ([], tail) => ([], b :: tail)
      | (line :: lines, tail) => ((b :: line) :: lines, tail) := by
  rcases hs : splitLines bs with ⟨_ | ⟨line, lines⟩, tail⟩ <;> simp [splitLines, h, hs]

/-- A line in front is the first line. -/
theorem splitLines_line {line : Bytes} (h : lineFeed ∉ line) (rest : Bytes) :
    splitLines (line ++ lineFeed :: rest) = (line :: (splitLines rest).1, (splitLines rest).2) := by
  induction line with
  | nil => rw [List.nil_append, splitLines, if_pos rfl]
  | cons b line ih =>
    have hb : b ≠ lineFeed := by
      intro he
      exact h (by simp [he])
    rw [List.cons_append, splitLines_cons hb, ih fun hm => h (by simp [hm])]

section Scan

variable [Externals]

/-! ### Records -/

/-- A request that may stand in the log: a mutation, with the snapshot in it. -/
structure RpcRequest.Loggable (req : RpcRequest) : Prop where
  mutating : isMutatingMethod req.method = true
  not_file : req.method ≠ "memory_save_file"

/-- The guard lets the record of this request pass. -/
def RpcRequest.Nests (req : RpcRequest) : Prop :=
  2 + req.params.depth ≤ GuardedJsonReader.maxNesting

instance (req : RpcRequest) : Decidable req.Nests :=
  inferInstanceAs (Decidable (2 + req.params.depth ≤ GuardedJsonReader.maxNesting))

/-- The bytes of a record without its line feed. -/
def recordLine (generation : UInt64) (req : RpcRequest) : Bytes :=
  (WalRecordRef.value generation req).print floats

theorem streamWalRecord_eq (generation : UInt64) (req : RpcRequest) :
    streamWalRecord generation req = recordLine generation req ++ [lineFeed] := rfl

theorem length_streamWalRecord (generation : UInt64) (req : RpcRequest) :
    (streamWalRecord generation req).length = (recordLine generation req).length + 1 := by
  rw [streamWalRecord_eq, List.length_append]
  rfl

theorem lineFeed_notMem_recordLine (generation : UInt64) (req : RpcRequest) :
    lineFeed ∉ recordLine generation req := by
  intro h
  have hle := ge_of_mem_print floats (WalRecordRef.value generation req) lineFeed h
  exact absurd hle (by decide)

theorem recordLine_ne_nil (generation : UInt64) (req : RpcRequest) :
    recordLine generation req ≠ [] := by
  intro h
  have hp := parse_value floats (WalRecordRef.value generation req)
  rw [show Value.print floats (WalRecordRef.value generation req) = [] from h] at hp
  cases hp

/-- The log after these requests. -/
def walContent (generation : UInt64) (reqs : List RpcRequest) : Bytes :=
  reqs.flatMap (streamWalRecord generation)

theorem splitLines_walContent (generation : UInt64) (reqs : List RpcRequest) :
    splitLines (walContent generation reqs) = (reqs.map (recordLine generation), []) := by
  induction reqs with
  | nil => rfl
  | cons req reqs ih =>
    have he : walContent generation (req :: reqs) =
        recordLine generation req ++ lineFeed :: walContent generation reqs := by
      simp [walContent, streamWalRecord_eq]
    rw [he, splitLines_line (lineFeed_notMem_recordLine generation req), ih]
    rfl

/-! ### One record -/

/-- The envelope that the reader finds in a record. -/
def recordEnvelope (generation : UInt64) (req : RpcRequest) : ScannedWalEnvelope :=
  ⟨some walVersion, some generation, some ⟨req.id, req.method⟩, none, none, none⟩

theorem fromSlice_recordLine (generation : UInt64) (req : RpcRequest) :
    fromSlice ScannedWalEnvelope.read (recordLine generation req) =
      some (recordEnvelope generation req) := by
  have hreq : ScannedRpcRequest.read 126 (req.value.raw floats) = some ⟨req.id, req.method⟩ := by
    rw [ScannedRpcRequest.read, RpcRequest.value,
      Fields.read_raw floats true (by simp [ScannedRpcRequest.fields]) (by simp) 125]
    simp [Fields.required, lookupKey, Reader.ignored]
  rw [fromSlice, recordLine, parse_value, Option.bind_some, nestingLimit, ScannedWalEnvelope.read,
    WalRecordRef.value, Fields.read_raw floats true (by simp [ScannedWalEnvelope.fields])
    (by simp) 126]
  simp [deserializePresent, Fields.defaulted, lookupKey, hreq, recordEnvelope]

omit [Externals] in
theorem utf8ByteSize_le_of_mutating {method : String} (h : isMutatingMethod method = true) :
    method.utf8ByteSize ≤ GuardedJsonReader.maxEnvelopeStringBytes := by
  have key : ∀ m ∈ (methodSpecs.filter (·.wal)).map (·.name),
      m.utf8ByteSize ≤ GuardedJsonReader.maxEnvelopeStringBytes := by decide
  exact key method (isMutatingMethod_iff.mp h)

theorem scanEnvelope_recordLine (generation : UInt64) {req : RpcRequest} (h : req.Loggable) :
    scanEnvelope (recordLine generation req) =
      if req.Nests then .ok (recordEnvelope generation req)
      else .error "parse WAL record failed" := by
  have hg : GuardedJsonReader.new.account (recordLine generation req) =
      if req.Nests then some (.between []) else none :=
    GuardedJsonReader.account_record generation (utf8ByteSize_le_of_mutating h.mutating)
  rw [scanEnvelope, hg, fromSlice_recordLine]
  by_cases hn : req.Nests
  · simp only [if_pos hn]
  · simp only [if_neg hn]

/-- The state of a scan that has seen records of one generation only. -/
structure WalScanState.On (generation : UInt64) (st : WalScanState) : Prop where
  notLegacy : st.legacyRaw = false
  base : st.baseGeneration = if st.recordCount = 0 then none else some generation

/-- The limits leave room for one more record. -/
structure WalScanState.Room (generation : UInt64) (st : WalScanState) (req : RpcRequest) :
    Prop where
  count : st.recordCount + 1 ≤ maxWalRecords
  record : (streamWalRecord generation req).length ≤ maxWalRecordBytes
  bytes : st.bytes + (streamWalRecord generation req).length ≤ maxWalBytes

/-- The state after one more record. -/
def WalScanState.push (generation : UInt64) (st : WalScanState) (req : RpcRequest) :
    WalScanState :=
  ⟨st.bytes + (streamWalRecord generation req).length, st.recordCount + 1, some generation, false⟩

theorem scanRecord_recordLine {generation : UInt64} {st : WalScanState} {req : RpcRequest}
    (allowLegacy : Bool) (hst : st.On generation) (hroom : st.Room generation req)
    (hreq : req.Loggable) :
    scanRecord allowLegacy st (recordLine generation req) =
      if req.Nests then .ok (st.push generation req)
      else .error "parse WAL record failed" := by
  have hlen := length_streamWalRecord generation req
  have h1 : ¬ maxWalRecords ≤ st.recordCount := by
    have := hroom.count
    omega
  have h2 : ¬ maxWalRecordBytes < (recordLine generation req).length + 1 := by
    have := hroom.record
    omega
  have h3 : ¬ maxWalBytes < st.bytes + ((recordLine generation req).length + 1) := by
    have := hroom.bytes
    omega
  have h4 : (recordLine generation req).isEmpty = false := by
    rw [List.isEmpty_eq_false_iff]
    exact recordLine_ne_nil generation req
  have h5 : st.baseGeneration.any (· != generation) = false := by
    rw [hst.base]
    split <;> simp
  have h6 : ¬ isMutatingMethod req.method = false := by simp [hreq.mutating]
  simp only [scanRecord, bind, Except.bind, pure, Except.pure, if_neg h1, if_neg h2,
    scanEnvelope_recordLine generation hreq]
  by_cases hn : req.Nests
  · simp only [if_pos hn, h4, recordEnvelope, hst.notLegacy, if_neg hreq.not_file, if_neg h3, h5,
      if_neg h6, ne_eq, not_true_eq_false, if_false, Bool.false_eq_true, WalScanState.push, hlen]
  · simp only [if_neg hn]

/-! ### The whole log -/

theorem WalScanState.On.push {generation : UInt64} (st : WalScanState) (req : RpcRequest) :
    (st.push generation req).On generation := ⟨rfl, rfl⟩

/-- The scan of a log written by the writer: every record counted, or one too deep. -/
theorem scanRecords_map {generation : UInt64} (allowLegacy : Bool) (reqs : List RpcRequest) :
    ∀ st : WalScanState, st.On generation → st.recordCount + reqs.length ≤ maxWalRecords →
      (∀ req ∈ reqs, req.Loggable ∧ (streamWalRecord generation req).length ≤ maxWalRecordBytes) →
      st.bytes + (walContent generation reqs).length ≤ maxWalBytes →
      scanRecords allowLegacy st (reqs.map (recordLine generation)) =
        if ∀ req ∈ reqs, req.Nests then .ok (reqs.foldl (WalScanState.push generation) st)
        else .error "parse WAL record failed" := by
  induction reqs with
  | nil =>
    intro st _ _ _ _
    simp [scanRecords]
  | cons req reqs ih =>
    intro st hst hcount hreqs hbytes
    have hlen : (walContent generation (req :: reqs)).length =
        (streamWalRecord generation req).length + (walContent generation reqs).length := by
      simp [walContent]
    rw [List.length_cons] at hcount
    have hroom : st.Room generation req :=
      ⟨by omega, (hreqs req (by simp)).2, by omega⟩
    rw [List.map_cons, scanRecords, bind, Except.instMonad]
    simp only [Except.bind, scanRecord_recordLine allowLegacy hst hroom (hreqs req (by simp)).1]
    by_cases hn : req.Nests
    · rw [if_pos hn]
      dsimp only
      rw [ih (st.push generation req) (.push st req)
        (by simp only [WalScanState.push]; omega) (fun r hr => hreqs r (by simp [hr]))
        (by simp only [WalScanState.push]; omega)]
      simp [hn]
    · rw [if_neg hn, if_neg (by simp [hn])]

theorem foldl_push (generation : UInt64) (reqs : List RpcRequest) : ∀ st : WalScanState,
    reqs.foldl (WalScanState.push generation) st = ⟨st.bytes + (walContent generation reqs).length,
      st.recordCount + reqs.length, if reqs.isEmpty then st.baseGeneration else some generation,
      if reqs.isEmpty then st.legacyRaw else false⟩ := by
  induction reqs with
  | nil =>
    intro st
    simp [walContent]
  | cons req reqs ih =>
    intro st
    rw [List.foldl_cons, ih, WalScanState.push]
    simp only [WalScanState.mk.injEq, List.length_cons, walContent, List.flatMap_cons,
      List.length_append]
    refine ⟨by omega, by omega, ?_, ?_⟩
    · split <;> rfl
    · split <;> rfl

/-- What the writer knows of its log: its length, its record count, the digest of its bytes and
the generation of its records. -/
def writerEvidence (generation : UInt64) (reqs : List RpcRequest) : WalScanEvidence where
  bytes := (walContent generation reqs).length
  recordCount := reqs.length
  digest := sha256 (walContent generation reqs)
  baseGeneration := if reqs.isEmpty then none else some generation
  legacyRaw := false

/-- The requests stay within the limits of the log. -/
structure WithinLimits (generation : UInt64) (reqs : List RpcRequest) : Prop where
  count : reqs.length ≤ maxWalRecords
  records : ∀ req ∈ reqs, req.Loggable ∧
    (streamWalRecord generation req).length ≤ maxWalRecordBytes
  bytes : (walContent generation reqs).length ≤ maxWalBytes

/-- The scanner finds what the writer knows, unless a record nests too deep for the guard. -/
theorem scanWalFile_walContent {generation : UInt64} {reqs : List RpcRequest}
    (h : WithinLimits generation reqs) (allowLegacy : Bool) :
    scanWalFile (walContent generation reqs) allowLegacy =
      if ∀ req ∈ reqs, req.Nests then .ok (writerEvidence generation reqs)
      else .error "parse WAL record failed" := by
  have hscan := scanRecords_map allowLegacy reqs .start ⟨rfl, rfl⟩
    (by simpa [WalScanState.start] using h.count) h.records
    (by simpa [WalScanState.start] using h.bytes)
  simp only [scanWalFile, bind, Except.bind, pure, Except.pure, if_neg (Nat.not_lt.mpr h.bytes),
    splitLines_walContent, hscan]
  by_cases hn : ∀ req ∈ reqs, req.Nests
  · rw [if_pos hn]
    simp only [foldl_push, WalScanState.start, Nat.zero_add, List.isEmpty_nil, Bool.not_true,
      Bool.false_eq_true, if_false, ite_self, writerEvidence, if_pos hn]
  · rw [if_neg hn]
    simp only [if_neg hn]

end Scan

end AiraGraphdb.Native
