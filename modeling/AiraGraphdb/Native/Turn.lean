import AiraGraphdb.Native.Dispatch

/-! # What one turn of the loop can do

`Turn` says once what a request can change and under which conditions it was admitted: nothing, the
transaction, the log together with the memory, a new generation, or the quarantine of a log; or it
ends the process with the directory somewhere along the effects of one of these. Every invariant of
a run is a case analysis over it. -/

namespace AiraGraphdb.Native

open Schemes Schemes.Json

section Turn

variable [Externals]

/-- A mutation that reaches the log. -/
structure Admitted (host : Host) (s : Server) (req canonical : RpcRequest) : Prop where
  mutating : isMutatingMethod req.method = true
  active : s.transaction.isActive = true
  canonicalized : canonicalizeRequest host req = .ok canonical
  fresh : canonical.id ∉ s.activeMutationRequestIds
  valid : validateMutationParams s.toMemory canonical = .ok ()

/-- What a begin finds. -/
structure BeginOk (dir : Dir) (s : Server) : Prop where
  idle : s.transaction = .idle
  walBytes : s.walBytes = 0
  walRecordCount : s.walRecordCount = 0
  wal : idleWalOk dir s = true
  ids : s.activeMutationRequestIds = []

/-- The inode of the log after an append. -/
def appendInode (host : Host) (dir : Dir) : ℕ := (dir.wal.map (·.inode)).getD host.inode

/-- The document of a commit. -/
def publicationJson (s : Server) (p : Publication) (evidence : PreparedCommitEvidence) : Bytes :=
  ((persistedView s p evidence).value.map fun v => v.print floats).getD []

/-- The effects of a commit. -/
def commitEffects (dir : Dir) (s : Server) (p : Publication) (evidence : PreparedCommitEvidence) :
    List FileEffect :=
  publicationEffects p (dir.files[p.descriptor.basename]?).isSome (publicationJson s p evidence)

/-- The server after a commit. -/
def Server.committed (s : Server) (p : Publication) (evidence : PreparedCommitEvidence)
    (walInode : ℕ) : Server :=
  { s.published p (s.state.generation + 1) (.fromValidated evidence.commitEvidence) walInode with
    activeMutationRequestIds := []
    transaction := .idle }

inductive Turn (answer : Memory → RpcRequest → Result Value) (host : Host) (dir : Dir) (s : Server)
    (req : RpcRequest) : Outcome → Prop
  | stopped {o : Outcome} (hfatal : o.server.fatal = true) (hdir : o.dir = dir) :
      Turn answer host dir s req o
  | refused (failure : Failure) : Turn answer host dir s req ⟨dir, s, .error failure⟩
  | answered {spec : MethodSpec} (caches : Option Caches) (result : Result Value)
      (hspec : methodSpec req.method = some spec)
      (hclass : spec.classification = .health ∨ spec.classification = .read ∧
        ∀ g d n i, s.transaction ≠ .recoveryPending g d n i) :
      Turn answer host dir s req ⟨dir, { s with caches := caches }, result⟩
  | began (nonce : Digest) (hmethod : req.method = "batch_begin") (h : BeginOk dir s) :
      Turn answer host dir s req ⟨dir, { s with
          walHashed := []
          transaction := .active s.state.generation nonce.hex false },
        .ok (.obj [("transactionNonce", .str nonce.hex)])⟩
  | appendStopped {o : Outcome} {canonical : RpcRequest} {record : Bytes} (stop : Option ℕ)
      (hadmitted : Admitted host s req canonical)
      (hcheck : walAppendCheck dir s canonical = .ok record)
      (hfatal : o.server.fatal = true)
      (hdir : o.dir = dir.run (walAppendEffects host dir record) stop) :
      Turn answer host dir s req o
  | mutated {canonical : RpcRequest} {record : Bytes} {applied : Applied}
      (hadmitted : Admitted host s req canonical)
      (hcheck : walAppendCheck dir s canonical = .ok record)
      (happlied : applyMutation s.toMemory canonical = .ok applied) :
      Turn answer host dir s req ⟨dir.run (walAppendEffects host dir record) none,
        (s.logged canonical record (appendInode host dir)).mutated applied, .ok applied.result⟩
  | prepared {evidence : PreparedCommitEvidence} {walIdentity : ℕ}
      (hmethod : req.method = "batch_prepare_commit")
      (hprepare : prepareCommit host dir s = .ok (evidence, walIdentity)) :
      Turn answer host dir s req ⟨dir, { s with transaction := .prepared evidence walIdentity },
        .ok (preparedEvidenceValue evidence)⟩
  | commitStopped {o : Outcome} {evidence : PreparedCommitEvidence} {wal : WalFile}
      {p : Publication} (k : ℕ) (hcheck : persistCheck dir s evidence = .ok (wal, p))
      (hfatal : o.server.fatal = true)
      (hdir : o.dir = dir.run (commitEffects dir s p evidence) (some k)) :
      Turn answer host dir s req o
  | committed {evidence : PreparedCommitEvidence} {walIdentity : ℕ} {wal : WalFile}
      {p : Publication} (hmethod : req.method = "batch_commit")
      (htransaction : s.transaction = .prepared evidence walIdentity)
      (hsupplied : preparedEvidenceFromParams req.params = .ok evidence)
      (hcheck : persistCheck dir s evidence = .ok (wal, p))
      (hstop : publicationStop dir p (persistedView s p evidence).value = none) :
      Turn answer host dir s req ⟨dir.run (commitEffects dir s p evidence) none,
        s.committed p evidence wal.inode, .ok (tokenValue (s.state.generation + 1) p.descriptor
          (.fromValidated evidence.commitEvidence))⟩
  | discardStopped {o : Outcome} {result : Value} (k : ℕ)
      (hcheck : discardCheck dir s req.params = .ok result) (hfatal : o.server.fatal = true)
      (hdir : o.dir = dir.run [.renameWal] (some k)) :
      Turn answer host dir s req o
  | discarded {result : Value} (hmethod : req.method = "recovery_discard")
      (hcheck : discardCheck dir s req.params = .ok result) :
      Turn answer host dir s req ⟨dir.run [.renameWal] none, s.discarded, .ok result⟩

variable {answer : Memory → RpcRequest → Result Value} {host : Host} {dir : Dir} {s : Server}
  {req : RpcRequest}

theorem turn_fail (failure : Failure) :
    Turn answer host dir s req (.fail dir s failure) := .stopped rfl rfl

theorem turn_refuse (message : String) :
    Turn answer host dir s req (.refuse dir s message) := .refused _

/-! ### Handlers -/

theorem turn_batchBegin (hmethod : req.method = "batch_begin") :
    Turn answer host dir s req (batchBegin host dir s) := by
  rw [batchBegin]
  split
  · exact turn_refuse _
  split
  · exact turn_fail _
  split
  · exact turn_fail _
  split
  · exact turn_fail _
  rename_i hidle hwal hok hids
  split
  · exact turn_fail _
  · refine .began _ hmethod ⟨?_, ?_, ?_, ?_, ?_⟩
    · simpa using hidle
    · omega
    · omega
    · simp only [not_or, Bool.not_eq_true', Bool.not_eq_false] at hok
      exact hok.1
    · simpa using hids

theorem turn_batchPrepareCommit (hmethod : req.method = "batch_prepare_commit") :
    Turn answer host dir s req (batchPrepareCommit host dir s) := by
  rw [batchPrepareCommit]
  rcases hprepare : prepareCommit host dir s with error | ⟨evidence, walIdentity⟩
  · split
    · exact turn_refuse _
    · exact turn_refuse _
    · exact turn_refuse _
    · exact turn_fail _
    · exact turn_fail _
  · split
    · exact turn_refuse _
    · exact turn_refuse _
    · exact turn_refuse _
    · exact .prepared hmethod hprepare
    · exact .prepared hmethod hprepare

theorem turn_batchCommit (hmethod : req.method = "batch_commit") :
    Turn answer host dir s req (batchCommit host dir s req.params) := by
  rw [batchCommit]
  split
  · exact turn_refuse _
  · exact turn_refuse _
  · exact turn_refuse _
  rename_i evidence walIdentity htr
  split
  · exact .refused _
  rename_i supplied hsupplied
  split
  · exact turn_refuse _
  rename_i heq
  obtain rfl : supplied = evidence := by simpa using heq
  rw [persist]
  rcases hcheck : persistCheck dir s supplied with error | ⟨wal, p⟩
  · exact turn_fail _
  · dsimp only
    rcases hstop : minStop host.fault (publicationStop dir p (persistedView s p supplied).value)
      with _ | k
    · have hp : publicationStop dir p (persistedView s p supplied).value = none := by
        rcases hf : host.fault with _ | a
        · simpa [hf, minStop] using hstop
        · rcases hq : publicationStop dir p (persistedView s p supplied).value with _ | b <;>
            simp [hf, hq, minStop] at hstop
      exact .committed hmethod htr hsupplied hcheck hp
    · exact .commitStopped k hcheck rfl rfl

theorem turn_recoveryDiscard (hmethod : req.method = "recovery_discard") :
    Turn answer host dir s req (recoveryDiscard host dir s req.params) := by
  rw [recoveryDiscard, discardRecovery]
  rcases hcheck : discardCheck dir s req.params with (error | message) | result
  · dsimp only
    split
    · exact .refused _
    · exact turn_fail _
  · exact turn_fail _
  · dsimp only
    by_cases hnonce : host.nonce.isNone = true
    · rw [if_pos hnonce]
      exact .stopped rfl rfl
    · rw [if_neg hnonce]
      rcases hfault : host.fault with _ | k
      · exact .discarded hmethod hcheck
      · exact .discardStopped k hcheck rfl rfl

/-! ### Dispatch -/

omit [Externals] in
theorem methodSpec_mem {method : String} {spec : MethodSpec} (h : methodSpec method = some spec) :
    spec ∈ methodSpecs ∧ spec.name = method :=
  ⟨List.mem_of_find?_eq_some h, by simpa using List.find?_some h⟩

/-- A method of these classes is known by its name. -/
structure MethodSpec.Named (spec : MethodSpec) : Prop where
  mutation : spec.classification = .mutation ↔ spec.wal = true
  commit : spec.classification = .commit → spec.name = "batch_commit"
  recovery : spec.classification = .recovery → spec.name = "recovery_discard"
  transaction : spec.classification = .transaction → spec.name ≠ "batch_begin" →
    spec.name = "batch_prepare_commit"

omit [Externals] in
theorem methodSpecs_named : ∀ spec ∈ methodSpecs, spec.Named := by
  have h1 : ∀ spec ∈ methodSpecs, (spec.classification = .mutation ↔ spec.wal = true) := by decide
  have h2 : ∀ spec ∈ methodSpecs, spec.classification = .commit → spec.name = "batch_commit" := by
    decide
  have h3 : ∀ spec ∈ methodSpecs, spec.classification = .recovery →
      spec.name = "recovery_discard" := by decide
  have h4 : ∀ spec ∈ methodSpecs, spec.classification = .transaction →
      spec.name ≠ "batch_begin" → spec.name = "batch_prepare_commit" := by decide
  intro spec hm
  exact ⟨h1 spec hm, h2 spec hm, h3 spec hm, h4 spec hm⟩

variable [Runtime]

theorem turn_handleRead {spec : MethodSpec} (hspec : methodSpec req.method = some spec)
    (hread : spec.classification = .read)
    (hready : ∀ g d n i, s.transaction ≠ .recoveryPending g d n i) :
    Turn answer host dir s req (handleRead answer dir s req) := by
  rw [handleRead]
  split
  · exact .refused _
  · exact .answered _ _ hspec (.inr ⟨hread, hready⟩)

/-- What is not a mutation of an active transaction goes straight to its handler. -/
theorem turn_handlePrepared
    (h : isMutatingMethod req.method = true → s.transaction.isActive = false) :
    Turn answer host dir s req (handlePrepared answer host dir s req) := by
  rw [handlePrepared]
  split
  · exact turn_refuse _
  rcases hspec : methodSpec req.method with _ | spec
  · exact .refused _
  dsimp only
  obtain ⟨hmem, hname⟩ := methodSpec_mem hspec
  have hnamed := methodSpecs_named spec hmem
  have hactive : spec.classification = .mutation → s.transaction.isActive = false := by
    intro hc
    refine h ?_
    rw [isMutatingMethod, hspec]
    exact hnamed.mutation.mp hc
  rcases hclass : spec.classification with _ | _ | _ | _ | _ | _ | _
  · rcases htr : s.transaction <;> exact .answered s.caches _ hspec (.inl hclass)
  · have hprep : req.method ≠ "batch_begin" → req.method = "batch_prepare_commit" := by
      rw [← hname]
      exact hnamed.transaction hclass
    have key : Turn answer host dir s req (if req.method = "batch_begin" then batchBegin host dir s
        else batchPrepareCommit host dir s) := by
      split
      · rename_i hm
        exact turn_batchBegin hm
      · rename_i hm
        exact turn_batchPrepareCommit (hprep hm)
    rcases htr : s.transaction
    all_goals first
      | exact turn_refuse _
      | exact key
  · have hm := hname ▸ hnamed.commit hclass
    rcases htr : s.transaction
    all_goals first
      | exact turn_refuse _
      | exact turn_batchCommit hm
  · have hm := hname ▸ hnamed.recovery hclass
    rcases htr : s.transaction <;> exact turn_recoveryDiscard hm
  · have hna := hactive hclass
    rcases htr : s.transaction
    · exact turn_fail _
    · rw [htr] at hna
      simp [TransactionState.isActive] at hna
    · exact turn_fail _
    · exact turn_refuse _
  · rcases htr : s.transaction
    all_goals first
      | exact turn_refuse _
      | exact turn_handleRead hspec hclass (by simp [htr])
  · rcases htr : s.transaction
    all_goals first
      | exact turn_refuse _
      | exact .refused _

omit [Runtime] in
theorem turn_admitMutation (hmutating : isMutatingMethod req.method = true)
    (hactive : s.transaction.isActive = true) :
    Turn answer host dir s req (admitMutation host dir s req) := by
  rw [admitMutation]
  rcases hcan : canonicalizeRequest host req with failure | canonical
  · exact turn_fail _
  dsimp only
  rcases hfresh : validateNewMutationRequestId s canonical.id with failure | ⟨⟩
  · exact turn_fail _
  rcases hvalid : validateMutationParams s.toMemory canonical with failure | ⟨⟩
  · exact turn_fail _
  have hid : canonical.id ∉ s.activeMutationRequestIds := by
    intro hmem
    rw [validateNewMutationRequestId, if_pos hmem] at hfresh
    cases hfresh
  have hadmitted : Admitted host s req canonical := ⟨hmutating, hactive, hcan, hid, hvalid⟩
  rw [walAppend]
  rcases hcheck : walAppendCheck dir s canonical with error | record
  · exact turn_fail _
  dsimp only
  rcases hfault : host.fault with _ | k
  · simp only [Option.isSome_none, Bool.false_eq_true, if_false]
    rw [handleMutation]
    have hmem : (s.logged canonical record (appendInode host dir)).toMemory = s.toMemory := rfl
    rw [appendInode] at hmem
    simp only [hmem, hvalid, bind, Except.bind]
    rcases happlied : applyMutation s.toMemory canonical with failure | applied
    · exact .appendStopped none hadmitted hcheck rfl rfl
    · exact .mutated hadmitted hcheck happlied
  · exact .appendStopped (some k) hadmitted hcheck rfl rfl

/-- Every turn is one of those. -/
theorem turn_handleIncoming (wireBytes : ℕ) (incoming : IncomingRpcRequest) :
    Turn answer host dir s incoming.intoRpc
      (handleIncoming answer host dir s wireBytes incoming) := by
  simp only [handleIncoming]
  split
  · split
    · exact .stopped rfl rfl
    · exact turn_refuse _
  split
  · split
    · exact turn_fail _
    · rename_i h
      have hm : incoming.intoRpc.method = "batch_commit" := by
        simp only [ne_eq, not_or, not_not] at h
        exact h.2
      refine turn_handlePrepared fun hmut => ?_
      rw [hm] at hmut
      exact absurd hmut (by decide)
  · split
    · rename_i h
      exact turn_admitMutation h.1 h.2
    · rename_i h
      refine turn_handlePrepared fun hmut => ?_
      simpa [hmut] using h

end Turn

end AiraGraphdb.Native
