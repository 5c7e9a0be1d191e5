import AiraGraphdb.Native.Lifecycle
import AiraGraphdb.Native.WalScan

/-! # The log of a run

The server and its directory go through a run together. As long as a transaction is open, the log
in the directory is what the admitted requests have written, and what the server has counted. The
scanner finds the same, unless a record nests deeper than its guard allows; only a snapshot that was
read from a file can do that. -/

namespace AiraGraphdb.Native

open Schemes Schemes.Json

section Journal

variable [Externals]

/-! ### How deep a request nests -/

omit [Externals] in
theorem params_within [Externals] {frame : Bytes} {incoming : IncomingRpcRequest}
    (h : fromSlice IncomingRpcRequest.read frame = some incoming) : incoming.params.Within 126 := by
  obtain ⟨raw, -, h⟩ := Option.bind_eq_some_iff.mp h
  obtain ⟨fs, hfs, h⟩ := Option.bind_eq_some_iff.mp h
  have hlimit : fs.limit = 126 := by
    rw [nestingLimit] at hfs
    cases raw with
    | obj ms =>
      obtain ⟨found, -, rfl⟩ := Option.map_eq_some_iff.mp hfs
      rfl
    | arr vs =>
      simp only [Fields.read] at hfs
      split at hfs
      · cases hfs
        rfl
      · cases hfs
    | _ => cases hfs
  obtain ⟨_, -, h⟩ := Option.bind_eq_some_iff.mp h
  obtain ⟨_, -, h⟩ := Option.bind_eq_some_iff.mp h
  obtain ⟨params, hparams, h⟩ := Option.bind_eq_some_iff.mp h
  obtain ⟨_, -, h⟩ := Option.bind_eq_some_iff.mp h
  cases h
  rw [Fields.defaulted, hlimit] at hparams
  split at hparams
  · obtain ⟨hn, hd⟩ := ofRaw_spec floats hparams
    exact ⟨hn, hd⟩
  · cases hparams
    exact .null 126

/-- A file that the request saves nests at most 125 arrays and objects. -/
def ShallowFile (input : Host × Bytes) : Prop :=
  ∀ incoming snapshot, fromSlice IncomingRpcRequest.read input.2 = some incoming →
    incoming.method = "memory_save_file" →
    readSnapshotFile input.1 incoming.params = .ok snapshot → snapshot.depth ≤ 125

/-- What is admitted from a line nests no deeper than the guard allows. -/
theorem nests_of_shallow {host : Host} {frame : Bytes} {incoming : IncomingRpcRequest}
    {canonical : RpcRequest} (hshallow : ShallowFile (host, frame))
    (hparse : fromSlice IncomingRpcRequest.read frame = some incoming)
    (hcan : canonicalizeRequest host incoming.intoRpc = .ok canonical) : canonical.Nests := by
  rw [RpcRequest.Nests, GuardedJsonReader.maxNesting]
  rw [canonicalizeRequest] at hcan
  split at hcan
  · cases hcan
    have hd : incoming.intoRpc.params.depth ≤ 126 := (params_within hparse).depth_le
    omega
  · next hfile =>
    obtain ⟨snapshot, hread, rfl⟩ := map_ok.mp hcan
    have hd := hshallow incoming snapshot hparse (not_not.mp hfile) hread
    simp only [Value.depth, maxMemberDepth]
    omega

/-- What is admitted may stand in the log. -/
theorem loggable_of_admitted {host : Host} {s : Server} {req canonical : RpcRequest}
    (h : Admitted host s req canonical) : canonical.Loggable := by
  have hcan := h.canonicalized
  rw [canonicalizeRequest] at hcan
  split at hcan
  · next hne =>
    cases hcan
    exact ⟨h.mutating, hne⟩
  · obtain ⟨snapshot, -, rfl⟩ := map_ok.mp hcan
    exact ⟨show isMutatingMethod "memory_save" = true by decide,
      show "memory_save" ≠ "memory_save_file" by decide⟩

/-! ### The log of a transaction -/

/-- The log holds exactly these requests, and the server has counted them. -/
structure Logged (reqs : List RpcRequest) (s : Server) (dir : Dir) : Prop where
  limits : WithinLimits s.state.generation reqs
  nests : ∀ req ∈ reqs, req.Nests
  bytes : s.walBytes = (walContent s.state.generation reqs).length
  count : s.walRecordCount = reqs.length
  hashed : s.walHashed = walContent s.state.generation reqs
  file : reqs ≠ [] → ∃ inode, dir.wal = some ⟨inode, walContent s.state.generation reqs⟩
    ∧ s.walFile = some inode ∧ s.walIdentity = some inode

omit [Externals] in
theorem done_appendWal (record : Bytes) : ∀ (dir : Dir) (inode : ℕ) (content : Bytes),
    dir.wal = some ⟨inode, content⟩ →
    (done Dir.apply (record.map .appendWal) dir).wal = some ⟨inode, content ++ record⟩ := by
  induction record with
  | nil =>
    intro dir inode content h
    simpa [done] using h
  | cons b record ih =>
    intro dir inode content h
    rw [List.map_cons, done_cons, ih _ inode (content ++ [b])]
    · simp
    · simp [Dir.apply, h]

omit [Externals] in
/-- An append that is not interrupted. -/
theorem wal_walAppend (host : Host) (dir : Dir) (record : Bytes) :
    (dir.run (walAppendEffects host dir record) none).wal
      = some ⟨appendInode host dir, ((dir.wal.map (·.content)).getD []) ++ record⟩ := by
  rw [Dir.run, walAppendEffects, appendInode]
  rcases hw : dir.wal with _ | wal
  · simp only [Option.isNone_none, if_true, List.singleton_append, done_cons]
    exact done_appendWal record _ host.inode [] rfl
  · simp only [Option.isNone_some, Bool.false_eq_true, if_false, List.nil_append]
    exact done_appendWal record dir wal.inode wal.content hw

omit [Externals] in
theorem walContent_snoc [Externals] (generation : UInt64) (reqs : List RpcRequest)
    (req : RpcRequest) :
    walContent generation (reqs ++ [req])
      = walContent generation reqs ++ streamWalRecord generation req := by
  simp [walContent]

/-- What an append has checked. -/
structure AppendOk (dir : Dir) (s : Server) (req : RpcRequest) (record : Bytes) : Prop where
  written : record = streamWalRecord s.state.generation req
  recordBytes : record.length ≤ maxWalRecordBytes
  bytes : s.walBytes + record.length ≤ maxWalBytes
  count : s.walRecordCount + 1 ≤ maxWalRecords
  length : ((dir.wal.map (·.content)).getD []).length = s.walBytes

theorem walAppendCheck_ok {dir : Dir} {s : Server} {req : RpcRequest} {record : Bytes}
    (h : walAppendCheck dir s req = .ok record) : AppendOk dir s req record := by
  obtain ⟨_, -, h⟩ := bind_ok.mp h
  obtain ⟨_, hrecord, h⟩ := bind_ok.mp h
  obtain ⟨_, hbytes, h⟩ := bind_ok.mp h
  obtain ⟨_, hcount, h⟩ := bind_ok.mp h
  obtain ⟨length, hlength, h⟩ := bind_ok.mp h
  obtain ⟨_, heq, h⟩ := bind_ok.mp h
  cases h
  refine ⟨rfl, ensure_ok.mp hrecord, ensure_ok.mp hbytes, ensure_ok.mp hcount, ?_⟩
  rw [← ensure_ok.mp heq]
  rcases hw : dir.wal with _ | wal
  · rcases hf : s.walFile with _ | inode
    · simp only [appendLength, hw, hf] at hlength
      split at hlength
      · cases hlength
        rfl
      · cases hlength
    · simp only [appendLength, hw, hf] at hlength
      cases hlength
  · rcases hf : s.walFile with _ | inode <;> simp only [appendLength, hw, hf] at hlength <;>
      split at hlength
    all_goals first
      | cases hlength; rfl
      | cases hlength

/-- The log that an append finds. -/
theorem Logged.content {reqs : List RpcRequest} {dir : Dir} {s : Server} {req : RpcRequest}
    {record : Bytes} (h : Logged reqs s dir) (hok : AppendOk dir s req record) :
    (dir.wal.map (·.content)).getD [] = walContent s.state.generation reqs := by
  rcases eq_or_ne reqs [] with rfl | hne
  · have hlen := hok.length
    rw [h.bytes] at hlen
    exact List.eq_nil_of_length_eq_zero hlen
  · obtain ⟨inode, hw, -⟩ := h.file hne
    rw [hw]
    rfl

/-- An append keeps the limits of the log. -/
theorem Logged.within {reqs : List RpcRequest} {dir : Dir} {s : Server} {req : RpcRequest}
    {record : Bytes} (h : Logged reqs s dir) (hok : AppendOk dir s req record)
    (hreq : req.Loggable) : WithinLimits s.state.generation (reqs ++ [req]) := by
  refine ⟨?_, ?_, ?_⟩
  · have := hok.count
    rw [h.count] at this
    simpa using this
  · intro r hr
    rcases List.mem_append.mp hr with hr | hr
    · exact h.limits.records r hr
    · rw [List.mem_singleton.mp hr]
      exact ⟨hreq, hok.written ▸ hok.recordBytes⟩
  · have := hok.bytes
    rw [h.bytes, hok.written] at this
    rwa [walContent_snoc, List.length_append]

/-- An admitted request is in the log. -/
theorem Logged.append {reqs : List RpcRequest} {host : Host} {dir : Dir} {s : Server}
    {req canonical : RpcRequest} {record : Bytes} {applied : Applied} (h : Logged reqs s dir)
    (ha : Admitted host s req canonical) (hnests : canonical.Nests)
    (hcheck : walAppendCheck dir s canonical = .ok record)
    (happlied : applyMutation s.toMemory canonical = .ok applied) :
    Logged (reqs ++ [canonical])
      ((s.logged canonical record (appendInode host dir)).mutated applied)
      (dir.run (walAppendEffects host dir record) none) := by
  have hok := walAppendCheck_ok hcheck
  have hwithin := h.within hok (loggable_of_admitted ha)
  have hcontent := h.content hok
  obtain rfl := hok.written
  have hgen : applied.memory.state.generation = s.state.generation :=
    (applyMutation_sameCommit happlied).generation
  have hgen' : ((s.logged canonical (streamWalRecord s.state.generation canonical)
      (appendInode host dir)).mutated applied).state.generation = s.state.generation := hgen
  refine ⟨?_, ?_, ?_, ?_, ?_, ?_⟩
  · rw [hgen']
    exact hwithin
  · intro r hr
    rcases List.mem_append.mp hr with hr | hr
    · exact h.nests r hr
    · rw [List.mem_singleton.mp hr]
      exact hnests
  · rw [hgen', walContent_snoc, List.length_append, ← h.bytes]
    rfl
  · rw [List.length_append, ← h.count]
    rfl
  · rw [hgen', walContent_snoc, ← h.hashed]
    rfl
  · intro _
    refine ⟨appendInode host dir, ?_, rfl, rfl⟩
    rw [wal_walAppend, hcontent, hgen', walContent_snoc]

/-! ### What the scanner and a restart find -/

/-- The evidence that the writer would give of its log. -/
def Server.walEvidence (s : Server) : WalScanEvidence :=
  ⟨s.walBytes, s.walRecordCount, sha256 s.walHashed, some s.state.generation, false⟩

theorem Logged.scan {reqs : List RpcRequest} {s : Server} {dir : Dir} (h : Logged reqs s dir)
    (hne : reqs ≠ []) (allowLegacy : Bool) :
    scanWalFile (walContent s.state.generation reqs) allowLegacy = .ok s.walEvidence := by
  have hempty : reqs.isEmpty = false := by
    rw [List.isEmpty_eq_false_iff]
    exact hne
  rw [scanWalFile_walContent h.limits, if_pos h.nests, writerEvidence, Server.walEvidence, h.bytes,
    h.count, h.hashed, hempty]
  rfl

/-- The evidence of a prepare is that of the log. -/
structure Certifies (s : Server) (evidence : PreparedCommitEvidence) (walIdentity : ℕ) : Prop where
  identity : s.walIdentity = some walIdentity
  written : s.walRecordCount ≠ 0
  bytes : evidence.payload.walBytes = UInt64.ofNat s.walBytes
  count : evidence.payload.walRecordCount = UInt64.ofNat s.walRecordCount
  digest : evidence.payload.walSha256 = (sha256 s.walHashed).hex

omit [Externals] in
theorem preparedNew_ok {transactionNonce walSha256 : String} {base gen bytes count : UInt64}
    {e : PreparedCommitEvidence}
    (h : PreparedCommitEvidence.new transactionNonce base gen walSha256 bytes count = .ok e) :
    e.payload.walSha256 = walSha256 ∧ e.payload.walBytes = bytes
      ∧ e.payload.walRecordCount = count := by
  obtain ⟨payload, hp, rfl⟩ := map_ok.mp h
  obtain ⟨-, -, -, hsha, hbytes, hcount⟩ := CommitEvidencePayload.new_ok hp
  exact ⟨hsha, hbytes, hcount⟩

theorem prepareActive_certifies {host : Host} {dir : Dir} {s : Server} {baseGeneration : UInt64}
    {transactionNonce : String} {evidence : PreparedCommitEvidence} {walIdentity : ℕ}
    (h : prepareActive host dir s baseGeneration transactionNonce = .ok (evidence, walIdentity)) :
    Certifies s evidence walIdentity := by
  obtain ⟨_, -, h⟩ := bind_ok.mp h
  obtain ⟨identity, hheld, h⟩ := bind_ok.mp h
  obtain ⟨_, -, h⟩ := bind_ok.mp h
  obtain ⟨_, hne, h⟩ := bind_ok.mp h
  obtain ⟨_, -, h⟩ := bind_ok.mp h
  obtain ⟨e, hnew, h⟩ := bind_ok.mp h
  cases h
  obtain ⟨hsha, hbytes, hcount⟩ := preparedNew_ok hnew
  refine ⟨?_, (ensure_ok.mp hne).2, hbytes, hcount, hsha⟩
  rw [heldWal] at hheld
  split at hheld
  · next inode wal hf hw =>
    split at hheld
    · next hok =>
      cases hheld
      exact hok.2.1
    · cases hheld
  · cases hheld

theorem Logged.ne_nil {reqs : List RpcRequest} {s : Server} {dir : Dir} (h : Logged reqs s dir)
    (hcount : s.walRecordCount ≠ 0) : reqs ≠ [] := by
  rintro rfl
  exact hcount h.count

/-- The scan of a commit finds the evidence that was prepared. -/
theorem Logged.verified {reqs : List RpcRequest} {s : Server} {dir : Dir}
    {evidence : PreparedCommitEvidence} {walIdentity : ℕ} (h : Logged reqs s dir)
    (hc : Certifies s evidence walIdentity) :
    ∃ wal, dir.wal = some wal ∧ verifiedWal dir s evidence walIdentity = .ok wal := by
  have hne := h.ne_nil hc.written
  obtain ⟨inode, hw, hf, hi⟩ := h.file hne
  refine ⟨_, hw, ?_⟩
  have hscan := h.scan hne false
  have hbytes : (UInt64.ofNat s.walBytes).toNat = s.walBytes := by
    have hle := h.limits.bytes
    rw [← h.bytes, maxWalBytes] at hle
    exact UInt64.toNat_ofNat_of_lt' (show s.walBytes < 2 ^ 64 by omega)
  have hcount : (UInt64.ofNat s.walRecordCount).toNat = s.walRecordCount := by
    have hle := h.limits.count
    rw [← h.count, maxWalRecords] at hle
    exact UInt64.toNat_ofNat_of_lt' (show s.walRecordCount < 2 ^ 64 by omega)
  have hopen : openedWal dir s = .ok dir.wal := by
    rw [openedWal, hf, hw]
    simp
  have hinode : inode = walIdentity := by
    rw [hc.identity] at hi
    exact (Option.some.inj hi).symm
  have hmatch : walMatches ⟨inode, walContent s.state.generation reqs⟩ s.walEvidence evidence
      walIdentity := by
    refine ⟨hinode, ?_, ?_, ?_⟩
    · rw [hc.bytes, hbytes]
      rfl
    · rw [hc.count, hcount]
      rfl
    · rw [hc.digest]
      rfl
  rw [verifiedWal, hopen, hw]
  simp only [bind, Except.bind, ofOption, hscan]
  have hbase : s.walEvidence.baseGeneration = some s.state.generation := rfl
  have hrecords : s.walEvidence.recordCount ≠ 0 := hc.written
  rw [(ensure_ok (u := ())).mpr hbase, (ensure_ok (u := ())).mpr hrecords,
    (ensure_ok (u := ())).mpr hmatch]
  rfl

/-- A start on this directory finds the log of its generation, and waits. -/
theorem Logged.replay {reqs : List RpcRequest} {s t : Server} {dir : Dir} {wal : WalFile}
    (h : Logged reqs s dir) (hne : reqs ≠ []) (hwal : dir.wal = some wal)
    (hgen : t.state.generation = s.state.generation) :
    replayWal dir.cleanup t = .ok ([], { t with
      walBytes := s.walBytes
      walRecordCount := s.walRecordCount
      walFile := some wal.inode
      transaction := .recoveryPending s.state.generation (sha256 s.walHashed) s.walRecordCount
        wal.inode }) := by
  obtain ⟨inode, hw, -⟩ := h.file hne
  obtain rfl : wal = ⟨inode, walContent s.state.generation reqs⟩ :=
    Option.some.inj (hwal.symm.trans hw)
  have hscan := h.scan hne (t.state.generation == 0)
  have hcount : s.walRecordCount ≠ 0 := by
    rw [h.count]
    simpa using hne
  have hw' : dir.cleanup.wal = some ⟨inode, walContent s.state.generation reqs⟩ := hw
  rw [replayWal, hw']
  simp only [bind, Except.bind, hscan, Server.walEvidence, if_neg hcount, pure, Except.pure]
  rw [hgen, if_neg (UInt64.lt_irrefl _), if_neg (UInt64.lt_irrefl _)]

/-! ### The invariant of a run -/

/-- What server and directory agree on between two lines. -/
structure InStep (s : Server) (dir : Dir) : Prop where
  idle : s.transaction = .idle → s.walBytes = 0 ∧ s.walRecordCount = 0
  active : ∀ baseGeneration nonce mutationSeen,
    s.transaction = .active baseGeneration nonce mutationSeen → ∃ reqs, Logged reqs s dir
  prepared : ∀ evidence walIdentity, s.transaction = .prepared evidence walIdentity →
    ∃ reqs, Logged reqs s dir ∧ Certifies s evidence walIdentity

/-- An active transaction has its log. -/
theorem InStep.logged {s : Server} {dir : Dir} (h : InStep s dir)
    (hactive : s.transaction.isActive = true) : ∃ reqs, Logged reqs s dir := by
  rcases htr : s.transaction with _ | ⟨g, n, m⟩ | _ | _
  all_goals first
    | exact h.active g n m htr
    | rw [htr] at hactive; cases hactive

theorem inStep_start {dbStem : String} {dir after : Dir} {s : Server}
    (h : start dbStem dir = .ok (after, s)) : InStep s after := by
  have htold := told_start h
  refine ⟨fun hidle => ⟨(htold.idle hidle).1, (htold.idle hidle).2.1⟩, ?_, ?_⟩
  · intro g n m ha
    obtain ⟨⟨before, hb⟩, -⟩ := htold.active g n m ha
    simp at hb
  · intro ev w hp
    obtain ⟨before, pre, post, hb, -⟩ := htold.prepared ev w hp
    simp at hb

/-- A turn that does not end the process keeps them in step. -/
theorem InStep.turn {answer : Memory → RpcRequest → Result Value} {host : Host} {dir : Dir}
    {s : Server} {req : RpcRequest} {o : Outcome} (h : InStep s dir)
    (turn : Turn answer host dir s req o) (hlive : o.server.fatal = false)
    (hnests : ∀ canonical, canonicalizeRequest host req = .ok canonical → canonical.Nests) :
    InStep o.server o.dir := by
  cases turn with
  | stopped hfatal _ =>
    rw [hlive] at hfatal
    cases hfatal
  | refused failure => exact h
  | answered caches result hspec hclass =>
    refine ⟨h.idle, ?_, ?_⟩
    · intro g n m ha
      obtain ⟨reqs, hl⟩ := h.active g n m ha
      exact ⟨reqs, hl.limits, hl.nests, hl.bytes, hl.count, hl.hashed, hl.file⟩
    · intro ev w hp
      obtain ⟨reqs, hl, hc⟩ := h.prepared ev w hp
      exact ⟨reqs, ⟨hl.limits, hl.nests, hl.bytes, hl.count, hl.hashed, hl.file⟩,
        ⟨hc.identity, hc.written, hc.bytes, hc.count, hc.digest⟩⟩
  | began nonce hmethod hb =>
    refine ⟨?_, ?_, ?_⟩
    · intro hidle
      cases hidle
    · intro g n m _
      refine ⟨[], ⟨Nat.zero_le _, by simp, Nat.zero_le _⟩, by simp, hb.walBytes,
        hb.walRecordCount, rfl, ?_⟩
      intro hne
      exact absurd rfl hne
    · intro ev w hp
      cases hp
  | appendStopped stop _ _ hfatal _ =>
    rw [hlive] at hfatal
    cases hfatal
  | @mutated canonical record applied ha hcheck happlied =>
    obtain ⟨g, n, m, htr⟩ : ∃ g n m, s.transaction = .active g n m := by
      have := ha.active
      rcases htr : s.transaction with _ | ⟨g, n, m⟩ | _ | _
      all_goals first
        | exact ⟨g, n, m, rfl⟩
        | rw [htr] at this; cases this
    obtain ⟨reqs, hl⟩ := h.active g n m htr
    have hl' := hl.append ha (hnests canonical ha.canonicalized) hcheck happlied
    have htr' : ((s.logged canonical record (appendInode host dir)).mutated applied).transaction
        = .active g n true := by
      simp only [Server.mutated, Server.logged, htr]
    refine ⟨?_, ?_, ?_⟩
    · dsimp only
      rw [htr']
      intro hidle
      cases hidle
    · intro g' n' m' _
      exact ⟨_, hl'⟩
    · dsimp only
      rw [htr']
      intro ev w hp
      cases hp
  | @prepared evidence walIdentity hmethod hprepare =>
    have hkeep : ∀ reqs, Logged reqs s dir →
        Logged reqs { s with transaction := .prepared evidence walIdentity } dir := by
      intro reqs hl
      exact ⟨hl.limits, hl.nests, hl.bytes, hl.count, hl.hashed, hl.file⟩
    have hcert : Certifies s evidence walIdentity → Certifies
        { s with transaction := .prepared evidence walIdentity } evidence walIdentity := by
      intro hc
      exact ⟨hc.identity, hc.written, hc.bytes, hc.count, hc.digest⟩
    refine ⟨?_, ?_, ?_⟩
    · intro hidle
      cases hidle
    · intro g n m ha
      cases ha
    · intro ev w hp
      cases hp
      rw [prepareCommit] at hprepare
      split at hprepare
      · next htr =>
        cases hprepare
        obtain ⟨reqs, hl, hc⟩ := h.prepared _ _ htr
        exact ⟨reqs, hkeep reqs hl, hcert hc⟩
      · next g n htr =>
        obtain ⟨reqs, hl⟩ := h.active _ _ _ htr
        exact ⟨reqs, hkeep reqs hl, hcert (prepareActive_certifies hprepare)⟩
      · cases hprepare
      · cases hprepare
  | commitStopped k _ hfatal _ =>
    rw [hlive] at hfatal
    cases hfatal
  | committed hmethod htr hsupplied hcheck _ =>
    refine ⟨fun _ => ⟨rfl, rfl⟩, ?_, ?_⟩
    · intro g n m ha
      cases ha
    · intro ev w hp
      cases hp
  | discardStopped k _ hfatal _ =>
    rw [hlive] at hfatal
    cases hfatal
  | discarded hmethod hcheck =>
    refine ⟨fun _ => ⟨rfl, rfl⟩, ?_, ?_⟩
    · intro g n m ha
      cases ha
    · intro ev w hp
      cases hp

variable [Runtime]

/-- The loop with the server and its directory as the state. -/
def storeStep (answer : Memory → RpcRequest → Result Value) (c : Server × Dir)
    (input : Host × Bytes) : Option ((Server × Dir) × Option RpcResponse) :=
  (runNormal answer c.1 (input.1, c.2, input.2)).map fun p => ((p.1, p.2.1), p.2.2)

/-- A line changes nothing, or it is a request that is handled. -/
theorem storeStep_handled {answer : Memory → RpcRequest → Result Value} {c d : Server × Dir}
    {input : Host × Bytes} {response : Option RpcResponse}
    (h : storeStep answer c input = some (d, response)) : c.1.fatal = false ∧
      (d = c ∧ (response = none ∨ fromSlice IncomingRpcRequest.read input.2 = none) ∨
        ∃ incoming o, fromSlice IncomingRpcRequest.read input.2 = some incoming
          ∧ o = handleIncoming answer input.1 c.2 c.1 input.2.length incoming
          ∧ d = (o.server, o.dir) ∧ response = some ⟨incoming.id, o.result⟩) := by
  obtain ⟨host, frame⟩ := input
  obtain ⟨s, dir⟩ := c
  obtain ⟨⟨t, dir', response'⟩, hrun, heq⟩ := Option.map_eq_some_iff.mp h
  cases heq
  rw [runNormal] at hrun
  dsimp only at hrun
  split at hrun
  · cases hrun
  · next hfatal =>
    refine ⟨by simpa using (not_or.mp hfatal).1, ?_⟩
    split at hrun
    · cases hrun
    · split at hrun
      · cases hrun
        exact .inl ⟨rfl, .inl rfl⟩
      · split at hrun
        · next hparse =>
          cases hrun
          exact .inl ⟨rfl, .inr hparse⟩
        · next incoming hparse =>
          cases hrun
          exact .inr ⟨incoming, _, hparse, rfl, rfl, rfl⟩

/-- A line changes nothing, or it is the turn of a request. -/
theorem storeStep_cases {answer : Memory → RpcRequest → Result Value} {c d : Server × Dir}
    {input : Host × Bytes} {response : Option RpcResponse}
    (h : storeStep answer c input = some (d, response)) : c.1.fatal = false ∧
      (d = c ∧ (response = none ∨ fromSlice IncomingRpcRequest.read input.2 = none) ∨
        ∃ incoming o, fromSlice IncomingRpcRequest.read input.2 = some incoming
          ∧ Turn answer input.1 c.2 c.1 (IncomingRpcRequest.intoRpc incoming) o
          ∧ d = (o.server, o.dir) ∧ response = some ⟨incoming.id, o.result⟩) := by
  obtain ⟨hfatal, hkept | ⟨incoming, o, hparse, rfl, hd, hresponse⟩⟩ := storeStep_handled h
  · exact ⟨hfatal, .inl hkept⟩
  · exact ⟨hfatal, .inr ⟨incoming, _, hparse, turn_handleIncoming _ incoming, hd, hresponse⟩⟩

/-- The run lemma: server and directory stay in step as long as no deep file is saved. -/
theorem inStep_run {answer : Memory → RpcRequest → Result Value} {c₀ c : Server × Dir}
    {h : List ((Host × Bytes) × Option RpcResponse)} (h₀ : InStep c₀.1 c₀.2)
    (run : Trace (storeStep answer) c₀ h c) :
    (∀ e ∈ h, ShallowFile e.1) → c.1.fatal = false → InStep c.1 c.2 := by
  refine run.invariant
    (P := fun h c => (∀ e ∈ h, ShallowFile e.1) → c.1.fatal = false → InStep c.1 c.2) ?_ ?_
  · intro _ _
    exact h₀
  · intro h c input response d ih hstep hshallow hlive
    obtain ⟨hbefore, hcases⟩ := storeStep_cases hstep
    have hin := ih (fun e he => hshallow e (by simp [he])) hbefore
    rcases hcases with ⟨rfl, -⟩ | ⟨incoming, o, hparse, turn, rfl, -⟩
    · exact hin
    · exact hin.turn turn hlive fun canonical hcan =>
        nests_of_shallow (hshallow (input, response) (by simp)) hparse hcan

/-- The log of an open transaction, in every run that saves no deep file: the scanner reports what
the server has counted, a commit finds the evidence that was prepared, and a start on the directory
waits for a recovery. -/
theorem wal_scan_agrees {answer : Memory → RpcRequest → Result Value} {dbStem : String}
    {dir : Dir} {c₀ c : Server × Dir} {h : List ((Host × Bytes) × Option RpcResponse)}
    (hstart : start dbStem dir = .ok (c₀.2, c₀.1)) (run : Trace (storeStep answer) c₀ h c)
    (hshallow : ∀ e ∈ h, ShallowFile e.1) (hlive : c.1.fatal = false)
    (hopen : c.1.transaction.isActive = true ∨ c.1.transaction.preparedEvidence.isSome = true)
    (hcount : c.1.walRecordCount ≠ 0) :
    ∃ wal, c.2.wal = some wal
      ∧ (∀ allowLegacy, scanWalFile wal.content allowLegacy = .ok ⟨c.1.walBytes,
          c.1.walRecordCount, sha256 c.1.walHashed, some c.1.state.generation, false⟩)
      ∧ (∀ evidence walIdentity, c.1.transaction = .prepared evidence walIdentity →
          verifiedWal c.2 c.1 evidence walIdentity = .ok wal)
      ∧ ∀ t : Server, t.state.generation = c.1.state.generation →
          replayWal c.2.cleanup t = .ok ([], { t with
            walBytes := c.1.walBytes
            walRecordCount := c.1.walRecordCount
            walFile := some wal.inode
            transaction := .recoveryPending c.1.state.generation (sha256 c.1.walHashed)
              c.1.walRecordCount wal.inode }) := by
  have hin := inStep_run (inStep_start hstart) run hshallow hlive
  obtain ⟨reqs, hl, hcert⟩ : ∃ reqs, Logged reqs c.1 c.2 ∧ ∀ evidence walIdentity,
      c.1.transaction = .prepared evidence walIdentity → Certifies c.1 evidence walIdentity := by
    rcases htr : c.1.transaction with _ | ⟨g, n, m⟩ | ⟨ev, w⟩ | ⟨g, d, n, i⟩
    · rw [htr] at hopen
      rcases hopen with h | h <;> cases h
    · obtain ⟨reqs, hl⟩ := hin.active g n m htr
      refine ⟨reqs, hl, ?_⟩
      intro ev w hp
      cases hp
    · obtain ⟨reqs, hl, hc⟩ := hin.prepared ev w htr
      refine ⟨reqs, hl, ?_⟩
      intro ev' w' hp
      cases hp
      exact hc
    · rw [htr] at hopen
      rcases hopen with h | h <;> cases h
  have hne := hl.ne_nil hcount
  obtain ⟨inode, hw, -⟩ := hl.file hne
  refine ⟨_, hw, hl.scan hne, ?_, ?_⟩
  · intro ev w hp
    obtain ⟨wal, hw', hver⟩ := hl.verified (hcert ev w hp)
    rw [hw] at hw'
    cases hw'
    exact hver
  · intro t hgen
    exact hl.replay hne hw hgen

/-! ### Runs that are executed -/

/-- The lines one after another, as long as the process lives. -/
def storeRun (answer : Memory → RpcRequest → Result Value) (c : Server × Dir) :
    List (Host × Bytes) → Option (Server × Dir)
  | [] => some c
  | input :: inputs => match storeStep answer c input with
    | some (d, _) => storeRun answer d inputs
    | none => none

theorem storeRun_eq (answer : Memory → RpcRequest → Result Value) (inputs : List (Host × Bytes)) :
    ∀ c, storeRun answer c inputs = steps (storeStep answer) c inputs := by
  induction inputs with
  | nil => exact fun _ => rfl
  | cons input inputs ih =>
    intro c
    rw [storeRun, steps]
    rcases storeStep answer c input with _ | ⟨d, response⟩
    · rfl
    · exact ih d

/-- What is executed is a run. -/
theorem trace_of_storeRun {answer : Memory → RpcRequest → Result Value} {c₀ c d : Server × Dir}
    {inputs : List (Host × Bytes)} {h : List ((Host × Bytes) × Option RpcResponse)}
    (run : Trace (storeStep answer) c₀ h c) (hrun : storeRun answer c inputs = some d) :
    ∃ h', h'.map Prod.fst = h.map Prod.fst ++ inputs ∧ Trace (storeStep answer) c₀ h' d := by
  rw [storeRun_eq] at hrun
  exact run.of_steps hrun

end Journal

attribute [local instance] Concrete.externals Concrete.runtime

/-- So many arrays in one another. -/
def nested : ℕ → Value
  | 0 => .null
  | n + 1 => .arr [nested n]

/-- A snapshot that nests as deep as this. -/
def nestedFile (depth : ℕ) : Bytes :=
  (Value.obj [("corpusId", .str "c"), ("x", nested (depth - 1))]).print floats

def fileHost (depth : ℕ) : Host := { Concrete.host with readFile := fun _ => some (nestedFile depth) }

def saveFileLine : Bytes :=
  (Value.obj [("id", numU64 2), ("method", .str "memory_save_file"),
    ("params", .obj [("filePath", .str "f")])]).print floats

/-- A begin, and a save of a file that nests as deep as this. -/
def saveFileRun (depth : ℕ) : List (Host × Bytes) :=
  [(Concrete.host, Concrete.beginLine), (fileHost depth, saveFileLine)]

/-- What a run that starts on an empty directory has come to satisfies a test. -/
def endsWith (inputs : List (Host × Bytes)) (test : Server × Dir → Bool) : Bool :=
  match start "a" .empty with
  | .ok (dir, s) => match storeRun Concrete.answer (s, dir) inputs with
    | some c => test c
    | none => false
  | .error _ => false

theorem of_endsWith {inputs : List (Host × Bytes)} {test : Server × Dir → Bool}
    (h : endsWith inputs test = true) :
    ∃ (c₀ c : Server × Dir) (history : List ((Host × Bytes) × Option RpcResponse)),
      start "a" .empty = .ok (c₀.2, c₀.1) ∧ Trace (storeStep Concrete.answer) c₀ history c
        ∧ history.map Prod.fst = inputs ∧ test c = true := by
  rw [endsWith] at h
  split at h
  · next dir s hstart =>
    split at h
    · next c hrun =>
      obtain ⟨history, heq, run⟩ := trace_of_storeRun .nil hrun
      exact ⟨(s, dir), c, history, hstart, run, by simpa using heq, h⟩
    · cases h
  · cases h

/-- The transaction is active with one record, and its log satisfies a test. -/
def oneRecord (test : Bytes → Bool) (c : Server × Dir) : Bool :=
  !c.1.fatal && c.1.transaction.isActive && c.1.walRecordCount == 1
    && c.2.wal.any fun wal => test wal.content

theorem of_oneRecord {test : Bytes → Bool} {c : Server × Dir} (h : oneRecord test c = true) :
    c.1.fatal = false ∧ c.1.transaction.isActive = true ∧ c.1.walRecordCount = 1
      ∧ ∃ wal, c.2.wal = some wal ∧ test wal.content = true := by
  simp only [oneRecord, Bool.and_eq_true, Bool.not_eq_true', beq_iff_eq, Option.any_eq_true] at h
  obtain ⟨⟨⟨hlive, hactive⟩, hcount⟩, wal, hwal, htest⟩ := h
  exact ⟨hlive, hactive, hcount, wal, hwal, htest⟩

/-- A file that nests 126 deep is saved, and the log with it cannot be read any more. -/
theorem wal_scan_refuses_deep_file :
    ∃ (c₀ c : Server × Dir) (h : List ((Host × Bytes) × Option RpcResponse)) (wal : WalFile),
      start "a" .empty = .ok (c₀.2, c₀.1) ∧ Trace (storeStep Concrete.answer) c₀ h c
        ∧ h.map Prod.fst = saveFileRun 126 ∧ c.1.fatal = false ∧ c.1.transaction.isActive = true
        ∧ c.1.walRecordCount = 1 ∧ c.2.wal = some wal
        ∧ (∀ allowLegacy, (scanWalFile wal.content allowLegacy).isOk = false)
        ∧ (start "a" c.2).isOk = false := by
  have hrun : endsWith (saveFileRun 126) (fun c =>
      oneRecord (fun content => !(scanWalFile content true).isOk && !(scanWalFile content false).isOk)
        c && !(start "a" c.2).isOk) = true := by
    decide +kernel
  obtain ⟨c₀, c, h, hstart, run, hinputs, htest⟩ := of_endsWith hrun
  rw [Bool.and_eq_true] at htest
  obtain ⟨hlive, hactive, hcount, wal, hwal, hscan⟩ := of_oneRecord htest.1
  simp only [Bool.and_eq_true, Bool.not_eq_true'] at hscan
  refine ⟨c₀, c, h, wal, hstart, run, hinputs, hlive, hactive, hcount, hwal, ?_, by simpa using htest.2⟩
  intro allowLegacy
  cases allowLegacy with
  | true => exact hscan.1
  | false => exact hscan.2

/-- A host without files reads no deep one. -/
theorem shallowFile_concrete (frame : Bytes) : ShallowFile (Concrete.host, frame) := by
  intro incoming snapshot _ _ hread
  rw [readSnapshotFile] at hread
  rcases hp : ofOption ((incoming.params.get "filePath").bind Value.asStr)
    (clientFailure "missing filePath") with e | path <;> rw [hp] at hread <;> cases hread

/-- A begin and a mutation of an empty store. -/
def mutationRun : List (Host × Bytes) :=
  [(Concrete.host, Concrete.beginLine), (Concrete.host, Concrete.idleMutation.value.print floats)]

theorem wal_scan_agrees_mutation :
    ∃ (c₀ c : Server × Dir) (h : List ((Host × Bytes) × Option RpcResponse)) (wal : WalFile),
      start "a" .empty = .ok (c₀.2, c₀.1) ∧ Trace (storeStep Concrete.answer) c₀ h c
        ∧ h.map Prod.fst = mutationRun ∧ c.2.wal = some wal
        ∧ scanWalFile wal.content false = .ok ⟨c.1.walBytes, 1, sha256 c.1.walHashed,
            some c.1.state.generation, false⟩ := by
  have hrun : endsWith mutationRun (oneRecord fun _ => true) = true := by
    decide +kernel
  have hfiles : ∀ input ∈ mutationRun, ShallowFile input := by
    intro input hin
    simp only [mutationRun, List.mem_cons, List.not_mem_nil, or_false] at hin
    rcases hin with rfl | rfl
    · exact shallowFile_concrete _
    · exact shallowFile_concrete _
  obtain ⟨c₀, c, h, hstart, run, hinputs, htest⟩ := of_endsWith hrun
  obtain ⟨hlive, hactive, hcount, -⟩ := of_oneRecord htest
  have hshallow : ∀ e ∈ h, ShallowFile e.1 := by
    intro e he
    exact hfiles e.1 (hinputs ▸ List.mem_map_of_mem he)
  obtain ⟨wal, hwal, hscan, -⟩ := wal_scan_agrees hstart run hshallow hlive (.inl hactive)
    (by rw [hcount]; decide)
  rw [hcount] at hscan
  exact ⟨c₀, c, h, wal, hstart, run, hinputs, hwal, hscan false⟩

end AiraGraphdb.Native
