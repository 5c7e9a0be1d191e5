import AiraGraphdb.Native.Journal

/-! # A kill outside of a commit

A kill during an append leaves a prefix of the record at the end of the log, one during a discard
leaves the log at its place or in quarantine. The canonical document and the blobs stay as they
were, so the next start opens the same store. It then waits for a recovery, or finds nothing to
recover; only when the log ends inside of a record does it refuse, and every byte is kept. -/

namespace AiraGraphdb.Native

open Schemes Schemes.Json

section Crash

variable [Externals]

/-! ### What a kill leaves -/

/-- The directory after a kill at any effect of an append or of a discard. -/
inductive Killed (c : Server × Dir) : Dir → Prop
  | append {host : Host} {frame : Bytes} {incoming : IncomingRpcRequest} {canonical : RpcRequest}
      {record : Bytes} (hparse : fromSlice IncomingRpcRequest.read frame = some incoming)
      (hshallow : ShallowFile (host, frame))
      (hadmitted : Admitted host c.1 incoming.intoRpc canonical)
      (hcheck : walAppendCheck c.2 c.1 canonical = .ok record) (k : ℕ) :
      Killed c (c.2.run (walAppendEffects host c.2 record) (some k))
  | discard {params result : Value} (hcheck : discardCheck c.2 c.1 params = .ok result) (k : ℕ) :
      Killed c (c.2.run [.renameWal] (some k))

/-- The log ends inside of a record: its last byte is not a line feed. -/
def Torn (dir : Dir) : Prop :=
  ∃ wal b, dir.wal = some wal ∧ wal.content.getLast? = some b ∧ b ≠ lineFeed

/-- Nothing that was in the log is lost, it is in the log or in quarantine. -/
structure Kept (dir after : Dir) : Prop where
  log : ∀ wal, dir.wal = some wal →
    (∃ more, after.wal = some ⟨wal.inode, wal.content ++ more⟩)
      ∨ after.quarantined = dir.quarantined ++ [wal]
  quarantined : dir.quarantined <+: after.quarantined

/-- A start has found nothing to recover, or what a discard will accept. -/
def Recovered (dir : Dir) (s : Server) : Prop :=
  (s.transaction = .idle ∧ ∀ wal, dir.wal = some wal → wal.content = []) ∨
    ∃ pending params result, s.transaction.pending = some pending
      ∧ discardCheck dir s params = .ok result

/-- The canonical document and the blobs are the same. -/
structure SameStore (dir after : Dir) : Prop where
  canonical : after.canonical = dir.canonical
  files : after.files = dir.files

omit [Externals] in
theorem SameStore.trans {a b c : Dir} (h : SameStore a b) (h' : SameStore b c) :
    SameStore a c :=
  ⟨h'.canonical.trans h.canonical, h'.files.trans h.files⟩

/-- What is opened depends on the document and the blobs only. -/
theorem openResolved_congr {dbStem : String} {dir after : Dir} {s : Server}
    (h : SameStore dir after) (hopen : openResolved dbStem dir = .ok s) :
    ∃ t, openResolved dbStem after = .ok t ∧ t.toMemory = s.toMemory := by
  obtain ⟨state, hstate, hopen⟩ := bind_ok.mp hopen
  obtain ⟨evidence, hevidence, hopen⟩ := bind_ok.mp hopen
  obtain ⟨⟨values, lineage⟩, hvalues, hopen⟩ := bind_ok.mp hopen
  cases hopen
  rw [openResolved, h.canonical, h.files, hstate]
  simp only [bind, Except.bind, hevidence, hvalues]
  exact ⟨_, rfl, rfl⟩

/-- An effect on the log alone. -/
def FileEffect.onLog : FileEffect → Bool
  | .createWal _ | .appendWal _ | .zeroWal | .renameWal => true
  | _ => false

omit [Externals] in
theorem sameStore_done {effects : List FileEffect} (h : ∀ e ∈ effects, e.onLog = true) :
    ∀ dir : Dir, SameStore dir (done Dir.apply effects dir) := by
  induction effects with
  | nil =>
    intro dir
    exact ⟨rfl, rfl⟩
  | cons e effects ih =>
    intro dir
    rw [done_cons]
    refine SameStore.trans ?_ (ih (fun e he => h e (List.mem_cons_of_mem _ he)) _)
    have he := h e List.mem_cons_self
    cases e with
    | createWal inode => exact ⟨rfl, rfl⟩
    | appendWal byte => exact ⟨rfl, rfl⟩
    | zeroWal => exact ⟨rfl, rfl⟩
    | renameWal =>
      rw [Dir.apply]
      split
      · exact ⟨rfl, rfl⟩
      · exact ⟨rfl, rfl⟩
    | _ => cases he

omit [Externals] in
theorem sameStore_run {effects : List FileEffect} (h : ∀ e ∈ effects, e.onLog = true) (dir : Dir)
    (stop : Option ℕ) : SameStore dir (dir.run effects stop) := by
  cases stop with
  | none => exact sameStore_done h dir
  | some k => exact sameStore_done (fun e he => h e (List.mem_of_mem_take he)) dir

omit [Externals] in
theorem onLog_walAppendEffects (host : Host) (dir : Dir) (record : Bytes) :
    ∀ e ∈ walAppendEffects host dir record, e.onLog = true := by
  intro e he
  rcases List.mem_append.mp he with he | he
  · split at he
    · rw [List.mem_singleton.mp he]
      rfl
    · cases he
  · obtain ⟨b, -, rfl⟩ := List.mem_map.mp he
    rfl

omit [Externals] in
theorem onLog_renameWal : ∀ e ∈ [FileEffect.renameWal], e.onLog = true := by
  intro e he
  rw [List.mem_singleton.mp he]
  rfl

theorem Killed.sameStore {c : Server × Dir} {d : Dir} (h : Killed c d) : SameStore c.2 d := by
  cases h with
  | append _ _ _ _ k => exact sameStore_run (onLog_walAppendEffects _ _ _) _ _
  | discard _ k => exact sameStore_run onLog_renameWal _ _

omit [Externals] in
theorem quarantined_done_appendWal (record : Bytes) : ∀ dir : Dir,
    (done Dir.apply (record.map .appendWal) dir).quarantined = dir.quarantined := by
  induction record with
  | nil =>
    intro dir
    rfl
  | cons b record ih =>
    intro dir
    rw [List.map_cons, done_cons, ih]
    rfl

omit [Externals] in
/-- An append that is killed: the file is not there yet, or holds a prefix of the record more. -/
theorem wal_killed_append (host : Host) (dir : Dir) (record : Bytes) (k : ℕ) :
    (dir.wal = none ∧ (dir.run (walAppendEffects host dir record) (some k)).wal = none) ∨
      ∃ j, (dir.run (walAppendEffects host dir record) (some k)).wal
        = some ⟨appendInode host dir, (dir.wal.map (·.content)).getD [] ++ record.take j⟩ := by
  rw [Dir.run, walAppendEffects, appendInode]
  rcases hw : dir.wal with _ | wal
  · cases k with
    | zero => exact .inl ⟨rfl, by simpa using hw⟩
    | succ k =>
      refine .inr ⟨k, ?_⟩
      rw [Option.isNone_none, if_pos rfl, List.singleton_append, after_succ_cons,
        after_eq_done_take, ← List.map_take]
      exact done_appendWal (record.take k) _ host.inode [] rfl
  · refine .inr ⟨k, ?_⟩
    rw [Option.isNone_some, if_neg Bool.false_ne_true, List.nil_append, after_eq_done_take,
      ← List.map_take]
    exact done_appendWal (record.take k) dir wal.inode wal.content hw

omit [Externals] in
theorem quarantined_killed_append (host : Host) (dir : Dir) (record : Bytes) (k : ℕ) :
    (dir.run (walAppendEffects host dir record) (some k)).quarantined = dir.quarantined := by
  rw [Dir.run, walAppendEffects]
  rcases hw : dir.wal with _ | wal
  · cases k with
    | zero => rfl
    | succ k =>
      rw [Option.isNone_none, if_pos rfl, List.singleton_append, after_succ_cons,
        after_eq_done_take, ← List.map_take, quarantined_done_appendWal]
      rfl
  · rw [Option.isNone_some, if_neg Bool.false_ne_true, List.nil_append, after_eq_done_take,
      ← List.map_take, quarantined_done_appendWal]

omit [Externals] in
theorem wal_killed_discard {dir : Dir} {wal : WalFile} (hwal : dir.wal = some wal) (k : ℕ) :
    (k = 0 ∧ dir.run [.renameWal] (some k) = dir) ∨
      (dir.run [.renameWal] (some k)).wal = none
        ∧ (dir.run [.renameWal] (some k)).quarantined = dir.quarantined ++ [wal] := by
  cases k with
  | zero => exact .inl ⟨rfl, rfl⟩
  | succ k =>
    refine .inr ?_
    rw [Dir.run, after_succ_cons, after_nil, Dir.apply, hwal]
    exact ⟨rfl, rfl⟩

omit [Externals] in
theorem liftIo_ok {α : Type} {x : Except String α} {a : α} : liftIo x = .ok a ↔ x = .ok a := by
  rcases x with error | b <;> simp [liftIo]

theorem discardWalCheck_ok {dir : Dir} {s : Server} {pending : PendingRecovery}
    (h : discardWalCheck dir s pending = .ok ()) :
    ∃ wal current, dir.wal = some wal
      ∧ scanWalFile wal.content (pending.baseGeneration == 0) = .ok current
      ∧ current.recordCount = pending.recordCount
      ∧ current.baseGeneration = some pending.baseGeneration
      ∧ scanWalFile wal.content current.legacyRaw = .ok current := by
  obtain ⟨opened, hopened, h⟩ := bind_ok.mp h
  obtain ⟨wal, hwal, h⟩ := bind_ok.mp h
  obtain ⟨current, hcurrent, h⟩ := bind_ok.mp h
  obtain ⟨_, hsame, h⟩ := bind_ok.mp h
  obtain ⟨held, hheld, h⟩ := bind_ok.mp h
  obtain ⟨-, -, hcount, hbase⟩ := ensure_ok.mp hsame
  have hheld := liftIo_ok.mp hheld
  rw [ensure_ok.mp h] at hheld
  have hopened := liftIo_ok.mp hopened
  rw [ofOption_ok.mp hwal] at hopened
  refine ⟨wal, current, ?_, liftIo_ok.mp hcurrent, hcount, hbase, hheld⟩
  rw [openedWal] at hopened
  split at hopened
  · exact Except.ok.inj hopened
  · next hw =>
    split at hopened
    · rw [hw, Except.ok.inj hopened]
    · cases hopened
  · cases hopened

/-- What a discard has checked. -/
theorem discardCheck_log {dir : Dir} {s : Server} {params result : Value}
    (h : discardCheck dir s params = .ok result) :
    ∃ pending wal current, s.transaction.pending = some pending ∧ dir.wal = some wal
      ∧ scanWalFile wal.content (pending.baseGeneration == 0) = .ok current
      ∧ current.recordCount = pending.recordCount
      ∧ current.baseGeneration = some pending.baseGeneration
      ∧ scanWalFile wal.content current.legacyRaw = .ok current := by
  obtain ⟨pending, hpending, h⟩ := bind_ok.mp h
  obtain ⟨_, -, h⟩ := bind_ok.mp h
  obtain ⟨_, hlog, -⟩ := bind_ok.mp h
  obtain ⟨wal, current, hwal, hscan⟩ := discardWalCheck_ok hlog
  exact ⟨pending, wal, current, ofOption_ok.mp hpending, hwal, hscan⟩

theorem Killed.kept {c : Server × Dir} {d : Dir} (h : Killed c d) : Kept c.2 d := by
  cases h with
  | @append host _ _ _ record _ _ _ _ k =>
    refine ⟨?_, by rw [quarantined_killed_append]⟩
    intro wal hwal
    rcases wal_killed_append host c.2 record k with ⟨hnone, -⟩ | ⟨j, hj⟩
    · rw [hwal] at hnone
      cases hnone
    · refine .inl ⟨record.take j, ?_⟩
      rw [hj, appendInode, hwal]
      rfl
  | discard hcheck k =>
    obtain ⟨pending, wal, current, -, hwal, -⟩ := discardCheck_log hcheck
    rcases wal_killed_discard hwal k with ⟨-, hk⟩ | ⟨-, hk⟩
    · rw [hk]
      refine ⟨?_, List.prefix_rfl⟩
      intro w hw
      exact .inl ⟨[], by simp [hw]⟩
    · refine ⟨?_, ?_⟩
      · intro w hw
        rw [hwal] at hw
        cases hw
        exact .inr hk
      · rw [hk]
        exact List.prefix_append _ _

omit [Externals] in
theorem splitLines_torn {bs : Bytes} : ∀ {b : UInt8}, bs.getLast? = some b → b ≠ lineFeed →
    (splitLines bs).2 ≠ [] := by
  induction bs with
  | nil =>
    intro b h
    simp at h
  | cons a bs ih =>
    intro b h hb
    cases bs with
    | nil =>
      obtain rfl : a = b := by simpa using h
      simp [splitLines, hb]
    | cons c bs =>
      rw [List.getLast?_cons_cons] at h
      have htail := ih h hb
      by_cases ha : a = lineFeed
      · rw [splitLines, if_pos ha]
        exact htail
      · rw [splitLines_cons ha]
        rcases hs : splitLines (c :: bs) with ⟨_ | ⟨line, lines⟩, tail⟩
        · simp
        · simpa [hs] using htail

/-- A log that ends inside of a record is refused. -/
theorem scanWalFile_torn {content : Bytes} {b : UInt8} (h : content.getLast? = some b)
    (hb : b ≠ lineFeed) (allowLegacy : Bool) :
    ∃ error, scanWalFile content allowLegacy = .error error := by
  rcases hscan : scanWalFile content allowLegacy with error | evidence
  · exact ⟨error, rfl⟩
  · exfalso
    rw [scanWalFile] at hscan
    simp only [bind, Except.bind, pure, Except.pure, throw, throwThe, MonadExceptOf.throw] at hscan
    split at hscan
    · cases hscan
    · split at hscan
      · cases hscan
      · rw [if_pos] at hscan
        · cases hscan
        · simpa using splitLines_torn h hb

/-! ### The next start -/

theorem start_of_open {dbStem : String} {dir : Dir} {t : Server}
    (hopen : openResolved dbStem dir = .ok t) : start dbStem dir =
      (replayWal dir.cleanup t).map fun p => (dir.cleanup.run p.1 none, p.2) := by
  rw [start, hopen]
  simp only [bind, Except.bind]
  rcases replayWal dir.cleanup t with error | p <;> rfl

/-- A start refuses a torn log. -/
theorem start_torn {dbStem : String} {dir : Dir} {t : Server}
    (hopen : openResolved dbStem dir = .ok t) (h : Torn dir) :
    ∃ error, start dbStem dir = .error error := by
  obtain ⟨wal, b, hwal, hlast, hb⟩ := h
  obtain ⟨error, hscan⟩ := scanWalFile_torn hlast hb (t.state.generation == 0)
  refine ⟨error, ?_⟩
  have hwal' : dir.cleanup.wal = some wal := hwal
  rw [start_of_open hopen, replayWal, hwal']
  simp only [bind, Except.bind, hscan]
  rfl

/-- What a start recovers: the memory of the store, and a log that is dealt with. -/
def Recovers (dbStem : String) (dir : Dir) (mem : Memory) : Prop :=
  ∃ after s, start dbStem dir = .ok (after, s) ∧ s.toMemory = mem ∧ Recovered after s

/-- Without a log, or with an empty one, there is nothing to recover. -/
theorem recovers_of_empty {dbStem : String} {dir : Dir} {t : Server}
    (hopen : openResolved dbStem dir = .ok t) (h : ∀ wal, dir.wal = some wal → wal.content = []) :
    Recovers dbStem dir t.toMemory := by
  rcases hwal : dir.wal with _ | wal
  · refine ⟨dir.cleanup, t.idleOver none none, ?_, rfl, .inl ⟨rfl, h⟩⟩
    have hwal' : dir.cleanup.wal = none := hwal
    rw [start_of_open hopen, replayWal, hwal']
    rfl
  · refine ⟨dir.cleanup, t.idleOver (some wal.inode) (some wal.inode), ?_, rfl, .inl ⟨rfl, h⟩⟩
    have hwal' : dir.cleanup.wal = some wal := hwal
    rw [start_of_open hopen, replayWal, hwal']
    simp only [h wal hwal]
    rfl

/-- The parameters of a discard of this log. -/
def discardParams (generation : UInt64) (digest : Digest) : Value :=
  .obj [("baseGeneration", numU64 generation), ("walDigest", .str digest.hex)]

/-- The server that waits for the recovery of this log. -/
def Server.awaiting (t : Server) (inode : ℕ) (evidence : WalScanEvidence) : Server :=
  { t with
    walBytes := evidence.bytes
    walRecordCount := evidence.recordCount
    walFile := some inode
    transaction := .recoveryPending t.state.generation evidence.digest evidence.recordCount inode }

/-- What a scan has to find for a recovery to be pending. -/
structure Pending (t : Server) (content : Bytes) (evidence : WalScanEvidence) : Prop where
  scan : scanWalFile content (t.state.generation == 0) = .ok evidence
  held : scanWalFile content evidence.legacyRaw = .ok evidence
  records : evidence.recordCount ≠ 0
  base : evidence.baseGeneration = some t.state.generation

theorem discardCheck_awaiting {t : Server} {dir : Dir} {wal : WalFile} {evidence : WalScanEvidence}
    (hwal : dir.wal = some wal) (h : Pending t wal.content evidence) :
    ∃ result, discardCheck dir (t.awaiting wal.inode evidence)
      (discardParams t.state.generation evidence.digest) = .ok result := by
  have hopened : openedWal dir (t.awaiting wal.inode evidence) = .ok (some wal) := by
    rw [openedWal, hwal]
    simp [Server.awaiting]
  have hpending : (t.awaiting wal.inode evidence).transaction.pending
      = some ⟨t.state.generation, evidence.digest, evidence.recordCount, wal.inode⟩ := rfl
  have hclient : discardClientCheck
      ⟨t.state.generation, evidence.digest, evidence.recordCount, wal.inode⟩
      (discardParams t.state.generation evidence.digest) = .ok () := by
    simp [discardClientCheck, discardParams, Value.asObject, lookupKey, Value.asU64, Value.asStr,
      ofOption, ensure, bind, Except.bind]
  have hlog : discardWalCheck dir (t.awaiting wal.inode evidence)
      ⟨t.state.generation, evidence.digest, evidence.recordCount, wal.inode⟩ = .ok () := by
    simp only [discardWalCheck, hopened, liftIo, bind, Except.bind, ofOption, h.scan, h.held,
      h.base, and_self, ensure, if_true]
  rw [discardCheck, hpending]
  simp only [ofOption, bind, Except.bind, hclient, hlog]
  exact ⟨_, rfl⟩

/-- A log of the store's own generation is pending, and its discard is accepted. -/
theorem recovers_of_pending {dbStem : String} {dir : Dir} {t : Server} {wal : WalFile}
    {evidence : WalScanEvidence} (hopen : openResolved dbStem dir = .ok t)
    (hwal : dir.wal = some wal) (h : Pending t wal.content evidence) :
    Recovers dbStem dir t.toMemory := by
  have hwal' : dir.cleanup.wal = some wal := hwal
  obtain ⟨result, hresult⟩ := discardCheck_awaiting hwal' h
  refine ⟨dir.cleanup, t.awaiting wal.inode evidence, ?_, rfl,
    .inr ⟨_, _, result, rfl, hresult⟩⟩
  rw [start_of_open hopen, replayWal, hwal']
  simp only [bind, Except.bind, h.scan, if_neg h.records, h.base, pure, Except.pure,
    UInt64.lt_irrefl, if_false]
  rfl

/-- The log of requests of the store's own generation. -/
theorem pending_walContent {t : Server} {reqs : List RpcRequest} (hne : reqs ≠ [])
    (hlimits : WithinLimits t.state.generation reqs) (hnests : ∀ req ∈ reqs, req.Nests) :
    Pending t (walContent t.state.generation reqs) (writerEvidence t.state.generation reqs) := by
  have hscan : ∀ allowLegacy, scanWalFile (walContent t.state.generation reqs) allowLegacy
      = .ok (writerEvidence t.state.generation reqs) := by
    intro allowLegacy
    rw [scanWalFile_walContent hlimits, if_pos hnests]
  have hempty : reqs.isEmpty = false := by
    rw [List.isEmpty_eq_false_iff]
    exact hne
  refine ⟨hscan _, hscan _, ?_, ?_⟩
  · simpa [writerEvidence] using hne
  · simp [writerEvidence, hempty]

/-! ### What a turn keeps -/

section Turns

variable {answer : Memory → RpcRequest → Result Value} {host : Host} {dir : Dir} {s : Server}
  {req : RpcRequest} {o : Outcome}

/-- A turn keeps the store and its generation, or has published a later one. -/
theorem turn_sameStore (turn : Turn answer host dir s req o) (hlive : o.server.fatal = false) :
    (o.server.state.generation = s.state.generation ∧ SameStore dir o.dir)
      ∨ s.state.generation.toNat < o.server.state.generation.toNat := by
  have hself : SameStore dir dir := ⟨rfl, rfl⟩
  cases turn with
  | refused _ => exact .inl ⟨rfl, hself⟩
  | answered _ _ _ _ => exact .inl ⟨rfl, hself⟩
  | began _ _ _ => exact .inl ⟨rfl, hself⟩
  | @mutated canonical record applied _ _ happlied =>
    have hstore := sameStore_run (onLog_walAppendEffects host dir record) dir none
    exact .inl ⟨(applyMutation_sameCommit happlied).generation, hstore⟩
  | prepared _ _ => exact .inl ⟨rfl, hself⟩
  | committed _ _ _ hcheck _ =>
    refine .inr ?_
    have := persistCheck_generation hcheck
    simp only [Server.committed, Server.published]
    omega
  | discarded _ _ =>
    have hstore := sameStore_run onLog_renameWal dir none
    exact .inl ⟨rfl, hstore⟩
  | _ => simp_all

/-- What is pending after a turn was pending before it. -/
theorem turn_pending {pending : PendingRecovery} (turn : Turn answer host dir s req o)
    (hlive : o.server.fatal = false) (hpending : o.server.transaction.pending = some pending) :
    s.transaction.pending = some pending ∧ o.server.state = s.state ∧ o.dir = dir := by
  cases turn with
  | refused _ => exact ⟨hpending, rfl, rfl⟩
  | answered _ _ _ _ => exact ⟨hpending, rfl, rfl⟩
  | mutated hadmitted _ _ =>
    exfalso
    have hactive := hadmitted.active
    rcases htr : s.transaction with _ | ⟨g, n, m⟩ | _ | _
    all_goals rw [htr] at hactive
    all_goals simp_all [Server.mutated, Server.logged, TransactionState.pending,
      TransactionState.isActive]
  | _ => simp_all [TransactionState.pending, Server.committed, Server.discarded]

end Turns

/-! ### What a history has acknowledged -/

/-- The mutations that were answered since the transaction began, as they were logged. -/
def acknowledgeStep (reqs : List RpcRequest) (e : (Host × Bytes) × Option RpcResponse) :
    List RpcRequest :=
  match fromSlice IncomingRpcRequest.read e.1.2, e.2 with
  | some incoming, some response =>
    match eventOf incoming.intoRpc response.result with
    | .mutated _ => match canonicalizeRequest e.1.1 incoming.intoRpc with
      | .ok canonical => reqs ++ [canonical]
      | .error _ => reqs
    | .began | .committed _ | .discarded _ => []
    | _ => reqs
  | _, _ => reqs

def acknowledged (h : List ((Host × Bytes) × Option RpcResponse)) : List RpcRequest :=
  h.foldl acknowledgeStep []

/-- The log of an active transaction is what was acknowledged. -/
def Acknowledges (reqs : List RpcRequest) (s : Server) : Prop :=
  s.transaction.isActive = true → s.walHashed = walContent s.state.generation reqs

theorem acknowledges_turn {answer : Memory → RpcRequest → Result Value} {host : Host} {dir : Dir}
    {frame : Bytes} {s : Server} {incoming : IncomingRpcRequest} {o : Outcome}
    {reqs : List RpcRequest} (hreqs : Acknowledges reqs s)
    (hparse : fromSlice IncomingRpcRequest.read frame = some incoming)
    (turn : Turn answer host dir s incoming.intoRpc o) (hlive : o.server.fatal = false) :
    Acknowledges (acknowledgeStep reqs ((host, frame), some ⟨incoming.id, o.result⟩)) o.server := by
  intro hactive
  rw [acknowledgeStep]
  simp only [hparse]
  cases turn with
  | refused failure => exact hreqs hactive
  | answered caches result hspec hclass =>
    have hevent := eventOf_answered hspec (hclass.imp id And.left) result
    rcases hevent with he | he
    · rw [he]
      exact hreqs hactive
    · rw [he]
      exact hreqs hactive
  | began nonce hmethod hb =>
    have hevent : ∀ v, eventOf incoming.intoRpc (.ok v) = .began := by
      intro v
      rw [eventOf, hmethod]
      rfl
    rw [hevent]
    rfl
  | @mutated canonical record applied hadmitted hcheck happlied =>
    have hevent : ∀ v, eventOf incoming.intoRpc (.ok v) = .mutated incoming.intoRpc.id := by
      intro v
      rw [eventOf, if_pos hadmitted.mutating]
    have hgen : applied.memory.state.generation = s.state.generation :=
      (applyMutation_sameCommit happlied).generation
    rw [hevent]
    simp only [hadmitted.canonicalized]
    rw [walContent_snoc]
    show s.walHashed ++ record = _
    rw [hreqs hadmitted.active, (walAppendCheck_ok hcheck).written]
    simp only [Server.mutated, hgen]
  | _ => simp_all [TransactionState.isActive, Server.committed, Server.discarded]

/-! ### What a run keeps -/

section Runs

variable [Runtime] {answer : Memory → RpcRequest → Result Value}

/-- A run that publishes nothing keeps the store. -/
theorem sameStore_of_run {b c : Server × Dir} {h : List ((Host × Bytes) × Option RpcResponse)}
    (run : Trace (storeStep answer) b h c) : c.1.fatal = false →
    b.1.state.generation.toNat ≤ c.1.state.generation.toNat
      ∧ (c.1.state.generation = b.1.state.generation → SameStore b.2 c.2) := by
  induction run with
  | nil =>
    intro _
    exact ⟨le_rfl, fun _ => ⟨rfl, rfl⟩⟩
  | snoc run hs ih =>
    intro hlive
    obtain ⟨hbefore, hcases⟩ := storeStep_cases hs
    obtain ⟨hle, hsame⟩ := ih hbefore
    rcases hcases with ⟨rfl, -⟩ | ⟨incoming, o, hparse, turn, rfl, -⟩
    · exact ⟨hle, hsame⟩
    · rcases turn_sameStore turn hlive with ⟨hgen, hstore⟩ | hlt
      · rw [hgen]
        exact ⟨hle, fun heq => (hsame heq).trans hstore⟩
      · dsimp only
        refine ⟨by omega, ?_⟩
        intro heq
        rw [heq] at hlt
        omega

/-- A recovery is pending since the start, over the log that the start found. -/
theorem pending_of_run {c₀ c : Server × Dir} {h : List ((Host × Bytes) × Option RpcResponse)}
    (run : Trace (storeStep answer) c₀ h c) : c.1.fatal = false →
    ∀ pending, c.1.transaction.pending = some pending →
      c₀.1.transaction.pending = some pending ∧ c.1.state = c₀.1.state ∧ c.2 = c₀.2 := by
  induction run with
  | nil =>
    intro _ pending hpending
    exact ⟨hpending, rfl, rfl⟩
  | snoc run hs ih =>
    intro hlive pending hpending
    obtain ⟨hbefore, hcases⟩ := storeStep_cases hs
    rcases hcases with ⟨rfl, -⟩ | ⟨incoming, o, hparse, turn, rfl, -⟩
    · exact ih hbefore pending hpending
    · obtain ⟨hp, hstate, hdir⟩ := turn_pending turn hlive hpending
      obtain ⟨hp', hstate', hdir'⟩ := ih hbefore pending hp
      exact ⟨hp', hstate.trans hstate', hdir.trans hdir'⟩

/-- The log of an active transaction is what the run has acknowledged. -/
theorem acknowledges_run {c₀ c : Server × Dir} {h : List ((Host × Bytes) × Option RpcResponse)}
    (h₀ : c₀.1.transaction.isActive = false) (run : Trace (storeStep answer) c₀ h c) :
    c.1.fatal = false → Acknowledges (acknowledged h) c.1 := by
  induction run with
  | nil =>
    intro _ hactive
    rw [h₀] at hactive
    cases hactive
  | @snoc h c input response d run hs ih =>
    intro hlive
    obtain ⟨hbefore, hcases⟩ := storeStep_cases hs
    rw [acknowledged, List.foldl_append]
    rcases hcases with ⟨rfl, hnone⟩ | ⟨incoming, o, hparse, turn, rfl, rfl⟩
    · have hstep : acknowledgeStep (acknowledged h) (input, response) = acknowledged h := by
        rw [acknowledgeStep]
        rcases hnone with hr | hp
        · rw [hr]
          split
          · next hsome => cases hsome
          · rfl
        · simp only [hp]
      rw [List.foldl_cons, List.foldl_nil]
      show Acknowledges (acknowledgeStep (acknowledged h) (input, response)) d.1
      rw [hstep]
      exact ih hbefore
    · exact acknowledges_turn (ih hbefore) hparse turn hlive

omit [Runtime] in
/-- What a start leaves pending is of the store's own generation. -/
theorem start_pending {dbStem : String} {dir : Dir} {c₀ : Server × Dir}
    (hstart : start dbStem dir = .ok (c₀.2, c₀.1)) : c₀.1.transaction.isActive = false ∧
      ∀ pending, c₀.1.transaction.pending = some pending →
        pending.baseGeneration = c₀.1.state.generation ∧ pending.recordCount ≠ 0
          ∧ c₀.2.wal = dir.wal := by
  obtain ⟨s', hopen, h⟩ := bind_ok.mp hstart
  obtain ⟨⟨effects, t⟩, hreplay, h⟩ := bind_ok.mp h
  obtain ⟨s₀, dir₀⟩ := c₀
  cases h
  rw [replayWal] at hreplay
  split at hreplay
  · cases hreplay
    exact ⟨rfl, fun pending hpending => by cases hpending⟩
  · obtain ⟨scan, -, hreplay⟩ := bind_ok.mp hreplay
    simp only [bind, Except.bind, pure, Except.pure] at hreplay
    split at hreplay
    · split at hreplay
      · cases hreplay
      · cases hreplay
        exact ⟨rfl, fun pending hpending => by cases hpending⟩
    · next hcount =>
      split at hreplay
      · cases hreplay
      · split at hreplay
        · cases hreplay
        · split at hreplay
          · split at hreplay
            · cases hreplay
            · cases hreplay
              exact ⟨rfl, fun pending hpending => by cases hpending⟩
          · cases hreplay
            refine ⟨rfl, ?_⟩
            intro pending hpending
            cases hpending
            exact ⟨rfl, hcount, rfl⟩

/-! ### A kill -/

omit [Runtime] in
/-- A part of a record does not end with a line feed. -/
theorem getLast?_part {generation : UInt64} {req : RpcRequest} {j : ℕ} (h0 : j ≠ 0)
    (hlt : j < (streamWalRecord generation req).length) (before : Bytes) :
    ∃ b, (before ++ (streamWalRecord generation req).take j).getLast? = some b ∧ b ≠ lineFeed := by
  rw [length_streamWalRecord] at hlt
  rw [streamWalRecord_eq, List.take_append_of_le_length (by omega)]
  have hne : (recordLine generation req).take j ≠ [] := by
    rw [ne_eq, List.take_eq_nil_iff]
    rintro (h | h)
    · exact h0 h
    · exact recordLine_ne_nil generation req h
  refine ⟨((recordLine generation req).take j).getLast hne, ?_, ?_⟩
  · rw [List.getLast?_append_of_ne_nil _ hne, List.getLast?_eq_some_getLast hne]
  · intro heq
    have hmem := List.mem_of_mem_take (List.getLast_mem hne)
    rw [heq] at hmem
    exact lineFeed_notMem_recordLine generation req hmem

omit [Runtime] in
/-- The start after an append that was killed. -/
theorem recovers_append {dbStem : String} {dir d : Dir} {s u : Server} {reqs : List RpcRequest}
    {canonical : RpcRequest} {record : Bytes} (hl : Logged reqs s dir)
    (hok : AppendOk dir s canonical record) (hlog : canonical.Loggable) (hnests : canonical.Nests)
    (hopen : openResolved dbStem d = .ok u) (hgen : u.state.generation = s.state.generation)
    {inode j : ℕ} (hj : d.wal = some ⟨inode, (dir.wal.map (·.content)).getD [] ++ record.take j⟩)
    (htorn : ¬ Torn d) : Recovers dbStem d u.toMemory := by
  have hlimits := hl.limits
  have hwithin := hl.within hok hlog
  rw [hl.content hok, hok.written] at hj
  rw [← hgen] at hj hlimits hwithin
  rcases eq_or_ne j 0 with rfl | h0
  · rw [List.take_zero, List.append_nil] at hj
    rcases eq_or_ne reqs [] with rfl | hne
    · refine recovers_of_empty hopen ?_
      intro wal hwal
      rw [hj] at hwal
      cases hwal
      rfl
    · exact recovers_of_pending hopen hj (pending_walContent hne hlimits hl.nests)
  · rcases Nat.lt_or_ge j (streamWalRecord u.state.generation canonical).length with hlt | hge
    · obtain ⟨b, hb, hne⟩ := getLast?_part h0 hlt (walContent u.state.generation reqs)
      exact absurd ⟨_, b, hj, hb, hne⟩ htorn
    · rw [List.take_of_length_le hge, ← walContent_snoc] at hj
      refine recovers_of_pending hopen hj (pending_walContent (by simp) hwithin ?_)
      intro r hr
      rcases List.mem_append.mp hr with hr | hr
      · exact hl.nests r hr
      · rw [List.mem_singleton.mp hr]
        exact hnests

/-- A kill outside of a commit, in a run that saves no deep file: what was acknowledged is in the
log or in quarantine, byte for byte; the next start refuses a log that ends inside of a record, and
otherwise opens the same store and waits for a recovery, or finds nothing to recover. -/
theorem crash_outside_commit {dbStem : String} {dir d : Dir} {c₀ b c : Server × Dir} {t : Server}
    {h h' : List ((Host × Bytes) × Option RpcResponse)}
    (hstart : start dbStem dir = .ok (c₀.2, c₀.1)) (run : Trace (storeStep answer) c₀ h b)
    (hstore : openResolved dbStem b.2 = .ok t) (hgen : t.state.generation = b.1.state.generation)
    (run' : Trace (storeStep answer) b h' c) (hsame : c.1.state.generation = b.1.state.generation)
    (hshallow : ∀ e ∈ h ++ h', ShallowFile e.1) (hlive : c.1.fatal = false) (hkill : Killed c d) :
    (c.1.transaction.isActive = true → (c.2.wal.map (·.content)).getD []
        = walContent c.1.state.generation (acknowledged (h ++ h')))
      ∧ (c.1.transaction.isActive = false → c.2.wal = dir.wal)
      ∧ Kept c.2 d
      ∧ (Torn d → ∃ error, start dbStem d = .error error)
      ∧ (¬ Torn d → Recovers dbStem d t.toMemory) := by
  have hrun := run.append run'
  have hin := inStep_run (inStep_start hstart) hrun hshallow hlive
  obtain ⟨hnone, hpending₀⟩ := start_pending hstart
  have hack := acknowledges_run hnone hrun hlive
  have hdir := ((sameStore_of_run run' hlive).2 hsame).trans hkill.sameStore
  obtain ⟨u, hopen, hmem⟩ := openResolved_congr hdir hstore
  have hu : u.state.generation = c.1.state.generation := by
    rw [hsame, ← hgen]
    exact congrArg (·.state.generation) hmem
  rw [← hmem]
  refine ⟨?_, ?_, hkill.kept, start_torn hopen, ?_⟩
  · intro hactive
    cases hkill with
    | append _ _ hadmitted hcheck k =>
      obtain ⟨reqs, hl⟩ := hin.logged hactive
      rw [hl.content (walAppendCheck_ok hcheck), ← hl.hashed]
      exact hack hactive
    | discard hcheck k =>
      obtain ⟨pending, wal, current, hpending, -⟩ := discardCheck_log hcheck
      rcases htr : c.1.transaction <;> rw [htr] at hactive hpending <;>
        simp [TransactionState.isActive, TransactionState.pending] at hactive hpending
  · intro hactive
    cases hkill with
    | append _ _ hadmitted _ _ =>
      rw [hadmitted.active] at hactive
      cases hactive
    | discard hcheck k =>
      obtain ⟨pending, wal, current, hpending, -⟩ := discardCheck_log hcheck
      obtain ⟨hp, -, hdir⟩ := pending_of_run hrun hlive pending hpending
      rw [hdir]
      exact (hpending₀ pending hp).2.2
  · intro htorn
    cases hkill with
    | @append host frame incoming canonical record hparse hfile hadmitted hcheck k =>
      obtain ⟨reqs, hl⟩ := hin.logged hadmitted.active
      rcases wal_killed_append host c.2 record k with ⟨-, hk⟩ | ⟨j, hj⟩
      · refine recovers_of_empty hopen ?_
        intro wal hwal
        rw [hk] at hwal
        cases hwal
      · exact recovers_append hl (walAppendCheck_ok hcheck) (loggable_of_admitted hadmitted)
          (nests_of_shallow hfile hparse hadmitted.canonicalized) hopen hu hj htorn
    | discard hcheck k =>
      obtain ⟨pending, wal, current, hpending, hwal, hscan, hcount, hbase, hheld⟩ :=
        discardCheck_log hcheck
      obtain ⟨hp, hstate, -⟩ := pending_of_run hrun hlive pending hpending
      obtain ⟨hpgen, hrecords, -⟩ := hpending₀ pending hp
      rw [← hstate, ← hu] at hpgen
      rcases wal_killed_discard hwal k with ⟨-, hk⟩ | ⟨hk, -⟩
      · have hwal' : (c.2.run [.renameWal] (some k)).wal = some wal := by
          rw [hk]
          exact hwal
        have hfound : Pending u wal.content current := by
          refine ⟨?_, hheld, ?_, ?_⟩
          · rw [← hpgen]
            exact hscan
          · rw [hcount]
            exact hrecords
          · rw [hbase, hpgen]
        exact recovers_of_pending hopen hwal' hfound
      · refine recovers_of_empty hopen ?_
        intro w hw
        rw [hk] at hw
        cases hw

end Runs

end Crash

/-! ### Kills that are executed -/

attribute [local instance] Concrete.externals Concrete.runtime

/-- The directory after a kill while a line is appended, where the line is admitted. -/
def killedAppend (host : Host) (frame : Bytes) (k : ℕ) (c : Server × Dir) : Option Dir :=
  match fromSlice IncomingRpcRequest.read frame with
  | none => none
  | some incoming => match canonicalizeRequest host incoming.intoRpc with
    | .error _ => none
    | .ok canonical =>
      if isMutatingMethod incoming.intoRpc.method && c.1.transaction.isActive
          && !(c.1.activeMutationRequestIds.contains canonical.id)
          && (validateMutationParams c.1.toMemory canonical).isOk then
        match walAppendCheck c.2 c.1 canonical with
        | .error _ => none
        | .ok record => some (c.2.run (walAppendEffects host c.2 record) (some k))
      else none

theorem killed_of_killedAppend {host : Host} {frame : Bytes} {k : ℕ} {c : Server × Dir} {d : Dir}
    (hshallow : ShallowFile (host, frame)) (h : killedAppend host frame k c = some d) :
    Killed c d := by
  rw [killedAppend] at h
  split at h
  · cases h
  · next incoming hparse =>
    split at h
    · cases h
    · next canonical hcanonical =>
      split at h
      · next hadmitted =>
        split at h
        · cases h
        · next record hcheck =>
          cases h
          simp only [Bool.and_eq_true, Bool.not_eq_true', List.contains_eq_mem,
            decide_eq_false_iff_not] at hadmitted
          obtain ⟨⟨⟨hmutating, hactive⟩, hfresh⟩, hvalid⟩ := hadmitted
          refine .append hparse hshallow ⟨hmutating, hactive, hcanonical, hfresh, ?_⟩ hcheck k
          rcases hv : validateMutationParams c.1.toMemory canonical with error | ⟨⟩
          · rw [hv] at hvalid
            cases hvalid
          · rfl
      · cases h

/-- A mutation of an empty store, as a line. -/
def mutationLine : Bytes := Concrete.idleMutation.value.print floats

/-- The store opens at the server's generation, and the directory after the kill satisfies a test. -/
def killedWith (k : ℕ) (test : Dir → Bool) (c : Server × Dir) : Bool :=
  !c.1.fatal && c.1.transaction.isActive
    && (match openResolved "a" c.2 with
      | .ok t => t.state.generation == c.1.state.generation
      | .error _ => false)
    && (killedAppend Concrete.host mutationLine k c).any test

theorem of_killedWith {k : ℕ} {test : Dir → Bool} {c : Server × Dir}
    (h : killedWith k test c = true) : c.1.fatal = false ∧ c.1.transaction.isActive = true
      ∧ (∃ t, openResolved "a" c.2 = .ok t ∧ t.state.generation = c.1.state.generation)
      ∧ ∃ d, Killed c d ∧ test d = true := by
  simp only [killedWith, Bool.and_eq_true, Bool.not_eq_true', Option.any_eq_true] at h
  obtain ⟨⟨⟨hlive, hactive⟩, hopen⟩, d, hd, htest⟩ := h
  refine ⟨hlive, hactive, ?_, d, killed_of_killedAppend (shallowFile_concrete _) hd, htest⟩
  split at hopen
  · next t ht => exact ⟨t, ht, by simpa using hopen⟩
  · cases hopen

/-- A kill after the first byte of a record: the next start refuses the store. -/
theorem crash_refuses_store :
    ∃ (c₀ c : Server × Dir) (h : List ((Host × Bytes) × Option RpcResponse)) (d : Dir),
      start "a" .empty = .ok (c₀.2, c₀.1) ∧ Trace (storeStep Concrete.answer) c₀ h c
        ∧ h.map Prod.fst = [(Concrete.host, Concrete.beginLine)] ∧ c.1.fatal = false
        ∧ c.1.transaction.isActive = true ∧ Killed c d ∧ (openResolved "a" d).isOk = true
        ∧ (start "a" d).isOk = false := by
  have hrun : endsWith [(Concrete.host, Concrete.beginLine)] (killedWith 2 fun d =>
      (openResolved "a" d).isOk && !(start "a" d).isOk) = true := by
    decide +kernel
  obtain ⟨c₀, c, h, hstart, run, hinputs, htest⟩ := of_endsWith hrun
  obtain ⟨hlive, hactive, -, d, hkill, hd⟩ := of_killedWith htest
  simp only [Bool.and_eq_true, Bool.not_eq_true'] at hd
  exact ⟨c₀, c, h, d, hstart, run, hinputs, hlive, hactive, hkill, hd⟩

/-- A kill once the whole record is there: the next start waits for its recovery. -/
theorem crash_outside_commit_record :
    ∃ (c₀ c : Server × Dir) (h : List ((Host × Bytes) × Option RpcResponse)) (d : Dir) (t : Server),
      start "a" .empty = .ok (c₀.2, c₀.1) ∧ Trace (storeStep Concrete.answer) c₀ h c
        ∧ h.map Prod.fst = [(Concrete.host, Concrete.beginLine)] ∧ Killed c d
        ∧ (∃ wal, d.wal = some wal ∧ wal.content ≠ []) ∧ openResolved "a" c.2 = .ok t
        ∧ Recovers "a" d t.toMemory := by
  have hrun : endsWith [(Concrete.host, Concrete.beginLine)] (killedWith 1000 fun d =>
      d.wal.any fun wal => wal.content.getLast? == some lineFeed) = true := by
    decide +kernel
  obtain ⟨c₀, c, h, hstart, run, hinputs, htest⟩ := of_endsWith hrun
  obtain ⟨hlive, -, ⟨t, hopen, hgen⟩, d, hkill, hd⟩ := of_killedWith htest
  obtain ⟨wal, hwal, hlast⟩ := (Option.any_eq_true _ _).mp hd
  rw [beq_iff_eq] at hlast
  have hshallow : ∀ e ∈ h ++ [], ShallowFile e.1 := by
    intro e he
    rw [List.append_nil] at he
    have hmem : e.1 ∈ [(Concrete.host, Concrete.beginLine)] := hinputs ▸ List.mem_map_of_mem he
    rw [List.mem_singleton.mp hmem]
    exact shallowFile_concrete _
  obtain ⟨-, -, -, -, hrecovers⟩ :=
    crash_outside_commit hstart run hopen hgen .nil rfl hshallow hlive hkill
  refine ⟨c₀, c, h, d, t, hstart, run, hinputs, hkill, ⟨wal, hwal, ?_⟩, hopen, hrecovers ?_⟩
  · intro hnil
    rw [hnil] at hlast
    cases hlast
  · rintro ⟨w, b, hw, hb, hne⟩
    rw [hwal] at hw
    cases hw
    rw [hlast] at hb
    exact hne (Option.some.inj hb).symm

end AiraGraphdb.Native
