import AiraGraphdb.Native.Concrete
import AiraGraphdb.Native.Handlers
import AiraGraphdb.Schemes.Run

/-! # The transactions of a run

A run handles one line after another, each with whatever host and directory it finds. Its history is
a list of events: what was asked and answered. The server's transaction is what the history says
since the last begin, and that decides what the next request may change. -/

namespace AiraGraphdb.Native

open Schemes Schemes.Json

/-! ### Events -/

inductive Event where
  | began
  | mutated (requestId : UInt64)
  | prepared (evidence : Value)
  | committed (params : Value)
  | discarded (params : Value)
  /-- Another method was answered. -/
  | answered (method : String)
  /-- A blank line, or a request that was answered with an error. -/
  | ignored

/-- Where a transaction begins or ends. -/
def Event.isBoundary : Event → Bool
  | .began | .committed _ | .discarded _ => true
  | _ => false

def Event.mutatedId : Event → Option UInt64
  | .mutated requestId => some requestId
  | _ => none

def eventOf (req : RpcRequest) : Result Value → Event
  | .error _ => .ignored
  | .ok v =>
    if isMutatingMethod req.method then .mutated req.id
    else if req.method = "batch_begin" then .began
    else if req.method = "batch_prepare_commit" then .prepared v
    else if req.method = "batch_commit" then .committed req.params
    else if req.method = "recovery_discard" then .discarded req.params
    else .answered req.method

/-- The events since the last boundary. -/
def current (events : List Event) : List Event := events.rtakeWhile fun e => !e.isBoundary

/-- The ids of the mutations since the last boundary, in their order. -/
def mutatedIds (events : List Event) : List UInt64 := (current events).filterMap Event.mutatedId

theorem current_boundary {events : List Event} {e : Event} (h : e.isBoundary = true) :
    current (events ++ [e]) = [] := by
  rw [current, List.rtakeWhile_concat_neg _ _ _ (by simp [h])]

theorem current_inside {events : List Event} {e : Event} (h : e.isBoundary = false) :
    current (events ++ [e]) = current events ++ [e] := by
  rw [current, List.rtakeWhile_concat_pos _ _ _ (by simp [h]), current]

theorem mutatedIds_boundary {events : List Event} {e : Event} (h : e.isBoundary = true) :
    mutatedIds (events ++ [e]) = [] := by
  rw [mutatedIds, current_boundary h]
  rfl

theorem mutatedIds_inside {events : List Event} {e : Event} (h : e.isBoundary = false) :
    mutatedIds (events ++ [e]) = mutatedIds events ++ e.mutatedId.toList := by
  rw [mutatedIds, current_inside h, List.filterMap_append, mutatedIds]
  rcases hid : e.mutatedId with _ | id
  · simp [hid]
  · simp [hid]

/-! ### What the history says of the transaction -/

/-- The last boundary is a begin. -/
def Opened (events : List Event) : Prop := ∃ before, events = before ++ .began :: current events

/-- The evidence was handed out in the transaction that is open, after a mutation. -/
def Earned (events : List Event) (evidence : PreparedCommitEvidence) : Prop :=
  ∃ before pre post, events = before ++ .began ::
      (pre ++ .prepared (preparedEvidenceValue evidence) :: post)
    ∧ (∀ e ∈ pre ++ post, e.isBoundary = false) ∧ ∃ requestId, .mutated requestId ∈ pre

theorem Opened.snoc {events : List Event} {e : Event} (h : Opened events)
    (he : e.isBoundary = false) : Opened (events ++ [e]) := by
  obtain ⟨before, hb⟩ := h
  refine ⟨before, ?_⟩
  rw [current_inside he]
  conv_lhs => rw [hb]
  simp

theorem Earned.snoc {events : List Event} {evidence : PreparedCommitEvidence} {e : Event}
    (h : Earned events evidence) (he : e.isBoundary = false) :
    Earned (events ++ [e]) evidence := by
  obtain ⟨before, pre, post, rfl, hin, hmut⟩ := h
  refine ⟨before, pre, post ++ [e], by simp, ?_, hmut⟩
  intro d hd
  rw [← List.append_assoc, List.mem_append, List.mem_singleton] at hd
  rcases hd with hd | rfl
  · exact hin d hd
  · exact he

/-- A prepare hands out its evidence. -/
theorem Opened.earned {events : List Event} {evidence : PreparedCommitEvidence}
    (h : Opened events) (hmut : mutatedIds events ≠ []) :
    Earned (events ++ [.prepared (preparedEvidenceValue evidence)]) evidence := by
  obtain ⟨before, hb⟩ := h
  refine ⟨before, current events, [], ?_, ?_, ?_⟩
  · conv_lhs => rw [hb]
    simp
  · intro e he
    rw [List.append_nil] at he
    have := List.mem_rtakeWhile_imp he
    simpa using this
  · obtain ⟨requestId, hid⟩ := List.exists_mem_of_ne_nil _ hmut
    obtain ⟨e, he, hid⟩ := List.mem_filterMap.mp hid
    cases e with
    | mutated id => exact ⟨id, he⟩
    | _ => simp [Event.mutatedId] at hid

/-- What the server holds is what the history says. -/
structure Told (events : List Event) (s : Server) : Prop where
  idle : s.transaction = .idle →
    s.walBytes = 0 ∧ s.walRecordCount = 0 ∧ s.activeMutationRequestIds = []
  active : ∀ baseGeneration nonce mutationSeen,
    s.transaction = .active baseGeneration nonce mutationSeen →
    Opened events ∧ mutatedIds events = s.activeMutationRequestIds
      ∧ (mutationSeen = true → mutatedIds events ≠ [])
  prepared : ∀ evidence walIdentity, s.transaction = .prepared evidence walIdentity →
    Earned events evidence
  distinct : (mutatedIds events).Nodup

/-- What a start makes of a server: one without a transaction, or one that waits for a recovery. -/
theorem replayWal_cases [Externals] {dir : Dir} {s t : Server} {effects : List FileEffect}
    (h : replayWal dir s = .ok (effects, t)) :
    ((effects = [] ∨ effects = [.zeroWal]) ∧ ∃ walFile walIdentity,
        t = s.idleOver walFile walIdentity)
      ∨ effects = [] ∧ ∃ bytes count walFile g d n i, t = { s with
          walBytes := bytes
          walRecordCount := count
          walFile := walFile
          transaction := .recoveryPending g d n i } := by
  rw [replayWal] at h
  split at h
  · cases h
    exact .inl ⟨.inl rfl, _, _, rfl⟩
  · obtain ⟨scan, -, h⟩ := bind_ok.mp h
    simp only [bind, Except.bind, pure, Except.pure] at h
    split at h
    · split at h
      · cases h
      · cases h
        exact .inl ⟨.inl rfl, _, _, rfl⟩
    · split at h
      · cases h
      · split at h
        · cases h
        · split at h
          · split at h
            · cases h
            · cases h
              exact .inl ⟨.inr rfl, _, _, rfl⟩
          · cases h
            exact .inr ⟨rfl, _, _, _, _, _, _, _, rfl⟩

/-- A start has no history. -/
theorem told_start [Externals] {dbStem : String} {dir after : Dir} {s : Server}
    (h : start dbStem dir = .ok (after, s)) : Told [] s := by
  have hids : ∀ s', openResolved dbStem dir = .ok s' → s'.activeMutationRequestIds = [] := by
    intro s' h
    obtain ⟨_, -, h⟩ := bind_ok.mp h
    obtain ⟨_, -, h⟩ := bind_ok.mp h
    obtain ⟨_, -, h⟩ := bind_ok.mp h
    cases h
    rfl
  obtain ⟨s', hopen, h⟩ := bind_ok.mp h
  obtain ⟨⟨effects, t⟩, hreplay, h⟩ := bind_ok.mp h
  cases h
  have hids := hids s' hopen
  rcases replayWal_cases hreplay with ⟨-, f, i, rfl⟩ | ⟨-, _, _, _, _, _, _, _, rfl⟩
  · refine ⟨?_, ?_, ?_, List.nodup_nil⟩
    · intro _
      exact ⟨rfl, rfl, hids⟩
    · intro g n m h
      cases h
    · intro ev w h
      cases h
  · refine ⟨?_, ?_, ?_, List.nodup_nil⟩
    · intro h
      cases h
    · intro g n m h
      cases h
    · intro ev w h
      cases h

/-! ### One more line -/

section Runs

variable [Externals] [Runtime]

/-- What a line and what came of it are an event of. -/
def lineEvent (e : (Host × Dir × Bytes) × (Dir × Option RpcResponse)) : Event :=
  match fromSlice IncomingRpcRequest.read e.1.2.2, e.2.2 with
  | some incoming, some response => eventOf incoming.intoRpc response.result
  | _, _ => .ignored

/-- The events of a run. -/
def eventsOf (h : List ((Host × Dir × Bytes) × (Dir × Option RpcResponse))) : List Event :=
  h.map lineEvent

/-- The loop with the server as its state. -/
def lineStep (answer : Memory → RpcRequest → Result Value) (s : Server)
    (input : Host × Dir × Bytes) : Option (Server × (Dir × Option RpcResponse)) :=
  runNormal answer s input

/-- A line changes nothing, or it is a request. -/
theorem lineStep_cases {answer : Memory → RpcRequest → Result Value} {s t : Server}
    {host : Host} {dir dir' : Dir} {frame : Bytes} {response : Option RpcResponse}
    (h : lineStep answer s (host, dir, frame) = some (t, dir', response)) :
    (t = s ∧ dir' = dir ∧ lineEvent ((host, dir, frame), (dir', response)) = .ignored) ∨
    ∃ incoming o, Turn answer host dir s (IncomingRpcRequest.intoRpc incoming) o ∧ t = o.server
      ∧ dir' = o.dir ∧ lineEvent ((host, dir, frame), (dir', response))
        = eventOf incoming.intoRpc o.result := by
  rw [lineStep, runNormal] at h
  dsimp only at h
  split at h
  · cases h
  · split at h
    · cases h
    · split at h
      · cases h
        refine .inl ⟨rfl, rfl, ?_⟩
        rw [lineEvent]
        split
        · next hr => cases hr
        · rfl
      · split at h
        · next hparse =>
          cases h
          refine .inl ⟨rfl, rfl, ?_⟩
          rw [lineEvent]
          simp only [hparse]
        · next incoming hparse =>
          cases h
          refine .inr ⟨incoming, _, turn_handleIncoming frame.length incoming, rfl, rfl, ?_⟩
          rw [lineEvent]
          simp only [hparse]

omit [Externals] [Runtime] in
/-- A method that is only read is none of those that events are about. -/
theorem eventOf_answered {req : RpcRequest} {spec : MethodSpec}
    (hspec : methodSpec req.method = some spec)
    (hclass : spec.classification = .health ∨ spec.classification = .read)
    (result : Result Value) :
    eventOf req result = .ignored ∨ eventOf req result = .answered req.method := by
  rcases result with failure | v
  · exact .inl rfl
  · refine .inr ?_
    obtain ⟨hmem, -⟩ := methodSpec_mem hspec
    have hnot : isMutatingMethod req.method = false := by
      rw [isMutatingMethod, hspec]
      have := (methodSpecs_named spec hmem).mutation
      rcases hclass with hc | hc <;> rw [hc] at this <;> simpa using this
    have hne : ∀ m ∈ ["batch_begin", "batch_prepare_commit", "batch_commit", "recovery_discard"],
        req.method ≠ m := by
      intro m hm heq
      rw [heq] at hspec
      have key : ∀ m ∈ ["batch_begin", "batch_prepare_commit", "batch_commit", "recovery_discard"],
          ∀ spec, methodSpec m = some spec →
            spec.classification ≠ .health ∧ spec.classification ≠ .read := by
        decide
      obtain ⟨h1, h2⟩ := key m hm spec hspec
      rcases hclass with hc | hc
      · exact h1 hc
      · exact h2 hc
    simp only [List.mem_cons, List.not_mem_nil, or_false, forall_eq_or_imp, forall_eq] at hne
    rw [eventOf, hnot, if_neg hne.1, if_neg hne.2.1, if_neg hne.2.2.1, if_neg hne.2.2.2]
    rfl

/-- What one more line of a run does, told by its event. -/
structure Disciplined (events : List Event) (s t : Server) (e : Event) : Prop where
  /-- Only a commit moves the generation, -/
  generation : t.state.generation ≠ s.state.generation → ∃ params, e = .committed params
  /-- by exactly one, for the evidence that was handed out. -/
  committed : ∀ params, e = .committed params →
    t.state.generation.toNat = s.state.generation.toNat + 1 ∧ t.transaction = .idle
      ∧ ∃ evidence, preparedEvidenceFromParams params = .ok evidence ∧ Earned events evidence
  /-- Only a mutation or a commit touches the memory. -/
  memory : t.toMemory ≠ s.toMemory →
    (∃ requestId, e = .mutated requestId) ∨ ∃ params, e = .committed params
  /-- A mutation is applied and logged only while a transaction is active. -/
  mutated : ∀ requestId, e = .mutated requestId → s.transaction.isActive = true
    ∧ requestId ∉ mutatedIds events ∧ t.walRecordCount = s.walRecordCount + 1
    ∧ t.activeMutationRequestIds = s.activeMutationRequestIds ++ [requestId]
  /-- A pending recovery answers nothing but its discard and the health methods, and keeps the
  memory; only the discard that names exactly what is pending ends it. -/
  recovery : ∀ pending, s.transaction.pending = some pending → t.toMemory = s.toMemory
    ∧ (e = .ignored ∧ t.transaction = s.transaction
      ∨ (∃ method spec, e = .answered method ∧ methodSpec method = some spec
          ∧ spec.classification = .health) ∧ t.transaction = s.transaction
      ∨ ∃ params, e = .discarded params ∧ t.transaction = .idle
          ∧ discardClientCheck pending params = .ok ())

omit [Runtime] in
theorem discardCheck_ok {dir : Dir} {s : Server} {params result : Value}
    (h : discardCheck dir s params = .ok result) :
    ∃ pending, s.transaction.pending = some pending
      ∧ discardClientCheck pending params = .ok () := by
  obtain ⟨pending, hpending, h⟩ := bind_ok.mp h
  obtain ⟨_, hclient, h⟩ := bind_ok.mp h
  exact ⟨pending, ofOption_ok.mp hpending, hclient⟩

omit [Runtime] in
theorem persistCheck_generation {dir : Dir} {s : Server} {supplied : PreparedCommitEvidence}
    {wal : WalFile} {p : Publication} (h : persistCheck dir s supplied = .ok (wal, p)) :
    (s.state.generation + 1).toNat = s.state.generation.toNat + 1 := by
  obtain ⟨_, -, h⟩ := bind_ok.mp h
  obtain ⟨_, -, h⟩ := bind_ok.mp h
  obtain ⟨_, -, h⟩ := bind_ok.mp h
  obtain ⟨_, hlt, h⟩ := bind_ok.mp h
  have hlt := ensure_ok.mp hlt
  rw [UInt64.toNat_add]
  exact Nat.mod_eq_of_lt hlt

/-! ### Every turn -/

omit [Externals] [Runtime] in
/-- An event that neither ends a transaction nor mutates leaves what was told. -/
theorem Told.keep {events : List Event} {s t : Server} {e : Event} (h : Told events s)
    (hin : e.isBoundary = false) (hid : e.mutatedId = none)
    (htr : t.transaction = s.transaction) (hbytes : t.walBytes = s.walBytes)
    (hcount : t.walRecordCount = s.walRecordCount)
    (hids : t.activeMutationRequestIds = s.activeMutationRequestIds) :
    Told (events ++ [e]) t := by
  have hsame : mutatedIds (events ++ [e]) = mutatedIds events := by
    rw [mutatedIds_inside hin, hid]
    simp
  refine ⟨?_, ?_, ?_, ?_⟩
  · rw [htr, hbytes, hcount, hids]
    exact h.idle
  · rw [htr, hids, hsame]
    intro g n m ha
    obtain ⟨hopen, hrest⟩ := h.active g n m ha
    exact ⟨hopen.snoc hin, hrest⟩
  · rw [htr]
    intro ev w hp
    exact (h.prepared ev w hp).snoc hin
  · rw [hsame]
    exact h.distinct

omit [Externals] [Runtime] in
/-- A request that leaves memory and transaction alone is refused or read. -/
theorem Disciplined.keep {events : List Event} {s t : Server} {e : Event}
    (hmem : t.toMemory = s.toMemory) (htr : t.transaction = s.transaction)
    (he : e = .ignored ∨ ∃ method spec, e = .answered method ∧ methodSpec method = some spec
      ∧ (spec.classification = .health ∨ s.transaction.pending = none)) :
    Disciplined events s t e := by
  refine ⟨?_, ?_, ?_, ?_, ?_⟩
  · intro hne
    exact absurd (congrArg (fun m => m.state.generation) hmem) hne
  · intro params hc
    rcases he with rfl | ⟨method, spec, rfl, -⟩ <;> cases hc
  · intro hne
    exact absurd hmem hne
  · intro id hm
    rcases he with rfl | ⟨method, spec, rfl, -⟩ <;> cases hm
  · intro pending hpending
    refine ⟨hmem, ?_⟩
    rcases he with rfl | ⟨method, spec, rfl, hspec, hclass | hnone⟩
    · exact .inl ⟨rfl, htr⟩
    · exact .inr (.inl ⟨⟨method, spec, rfl, hspec, hclass⟩, htr⟩)
    · rw [hnone] at hpending
      cases hpending

omit [Externals] [Runtime] in
theorem told_began {events : List Event} {dir : Dir} {s : Server} (nonce : Digest)
    (hb : BeginOk dir s) :
    Told (events ++ [.began]) { s with
        walHashed := []
        transaction := .active s.state.generation nonce.hex false }
      ∧ Disciplined events s { s with
        walHashed := []
        transaction := .active s.state.generation nonce.hex false } .began := by
  have hcur : current (events ++ [.began]) = [] := current_boundary rfl
  have hids : mutatedIds (events ++ [.began]) = [] := mutatedIds_boundary rfl
  refine ⟨⟨?_, ?_, ?_, ?_⟩, ⟨?_, ?_, ?_, ?_, ?_⟩⟩
  · intro h
    cases h
  · intro g n m h
    cases h
    refine ⟨⟨events, by rw [hcur]⟩, ?_, ?_⟩
    · rw [hids]
      exact hb.ids.symm
    · intro h
      cases h
  · intro ev w h
    cases h
  · rw [hids]
    exact List.nodup_nil
  · intro hne
    exact absurd rfl hne
  · intro params hc
    cases hc
  · intro hne
    exact absurd rfl hne
  · intro id hm
    cases hm
  · intro pending hpending
    rw [hb.idle] at hpending
    cases hpending

omit [Runtime] in
theorem told_mutated {events : List Event} {host : Host} {s : Server} {req canonical : RpcRequest}
    {record : Bytes} {applied : Applied} (inode : ℕ) (h : Told events s)
    (ha : Admitted host s req canonical)
    (happlied : applyMutation s.toMemory canonical = .ok applied) :
    Told (events ++ [.mutated req.id]) ((s.logged canonical record inode).mutated applied)
      ∧ Disciplined events s ((s.logged canonical record inode).mutated applied)
        (.mutated req.id) := by
  have hid : canonical.id = req.id := by
    have hcan := ha.canonicalized
    rw [canonicalizeRequest] at hcan
    split at hcan
    · cases hcan
      rfl
    · obtain ⟨snapshot, -, rfl⟩ := map_ok.mp hcan
      rfl
  have hgen := (applyMutation_sameCommit happlied).generation
  obtain ⟨g, n, m, htr⟩ : ∃ g n m, s.transaction = .active g n m := by
    have := ha.active
    rcases htr : s.transaction with _ | ⟨g, n, m⟩ | _ | _
    all_goals first
      | exact ⟨g, n, m, rfl⟩
      | rw [htr] at this; cases this
  obtain ⟨hopen, hids, -⟩ := h.active g n m htr
  have htr' : ((s.logged canonical record inode).mutated applied).transaction
      = .active g n true := by
    simp only [Server.mutated, Server.logged, htr]
  have hmut : mutatedIds (events ++ [.mutated req.id]) = mutatedIds events ++ [req.id] :=
    mutatedIds_inside rfl
  have hfresh : req.id ∉ mutatedIds events := by
    rw [hids, ← hid]
    exact ha.fresh
  refine ⟨⟨?_, ?_, ?_, ?_⟩, ⟨?_, ?_, ?_, ?_, ?_⟩⟩
  · rw [htr']
    intro hidle
    cases hidle
  · rw [htr']
    intro g' n' m' hact
    refine ⟨hopen.snoc rfl, ?_, ?_⟩
    · rw [hmut, hids, ← hid]
      rfl
    · intro _
      rw [hmut]
      simp
  · rw [htr']
    intro ev w hp
    cases hp
  · rw [hmut, List.nodup_append]
    refine ⟨h.distinct, List.nodup_singleton _, ?_⟩
    rintro a ha b hb rfl
    exact hfresh (List.mem_singleton.mp hb ▸ ha)
  · intro hne
    exact absurd hgen hne
  · intro params hc
    cases hc
  · intro _
    exact .inl ⟨req.id, rfl⟩
  · intro id hm
    cases hm
    refine ⟨ha.active, hfresh, rfl, ?_⟩
    rw [← hid]
    rfl
  · intro pending hpending
    rw [htr] at hpending
    cases hpending

omit [Runtime] in
theorem told_prepared {events : List Event} {host : Host} {dir : Dir} {s : Server}
    {evidence : PreparedCommitEvidence} {walIdentity : ℕ} (h : Told events s)
    (hprepare : prepareCommit host dir s = .ok (evidence, walIdentity)) :
    Told (events ++ [.prepared (preparedEvidenceValue evidence)])
        { s with transaction := .prepared evidence walIdentity }
      ∧ Disciplined events s { s with transaction := .prepared evidence walIdentity }
        (.prepared (preparedEvidenceValue evidence)) := by
  have hsame : mutatedIds (events ++ [.prepared (preparedEvidenceValue evidence)])
      = mutatedIds events := by
    rw [mutatedIds_inside rfl]
    simp [Event.mutatedId]
  have hcases : s.transaction = .prepared evidence walIdentity
      ∨ ∃ g n, s.transaction = .active g n true := by
    rw [prepareCommit] at hprepare
    split at hprepare
    · next htr =>
      cases hprepare
      exact .inl htr
    · next g n htr => exact .inr ⟨g, n, htr⟩
    · cases hprepare
    · cases hprepare
  have hearned : Earned (events ++ [.prepared (preparedEvidenceValue evidence)]) evidence := by
    rcases hcases with htr | ⟨g, n, htr⟩
    · exact (h.prepared evidence walIdentity htr).snoc rfl
    · obtain ⟨hopen, -, hne⟩ := h.active g n true htr
      exact hopen.earned (hne rfl)
  refine ⟨⟨?_, ?_, ?_, ?_⟩, ⟨?_, ?_, ?_, ?_, ?_⟩⟩
  · intro hidle
    cases hidle
  · intro g n m hact
    cases hact
  · intro ev w hp
    cases hp
    exact hearned
  · rw [hsame]
    exact h.distinct
  · intro hne
    exact absurd rfl hne
  · intro params hc
    cases hc
  · intro hne
    exact absurd rfl hne
  · intro id hm
    cases hm
  · intro pending hpending
    rcases hcases with htr | ⟨g, n, htr⟩ <;> rw [htr] at hpending <;> cases hpending

omit [Runtime] in
theorem told_committed {events : List Event} {dir : Dir} {s : Server} {params : Value}
    {evidence : PreparedCommitEvidence} {walIdentity : ℕ} {wal : WalFile} {p : Publication}
    (h : Told events s) (htr : s.transaction = .prepared evidence walIdentity)
    (hsupplied : preparedEvidenceFromParams params = .ok evidence)
    (hcheck : persistCheck dir s evidence = .ok (wal, p)) :
    Told (events ++ [.committed params]) (s.committed p evidence wal.inode)
      ∧ Disciplined events s (s.committed p evidence wal.inode) (.committed params) := by
  have hids : mutatedIds (events ++ [.committed params]) = [] := mutatedIds_boundary rfl
  refine ⟨⟨?_, ?_, ?_, ?_⟩, ⟨?_, ?_, ?_, ?_, ?_⟩⟩
  · intro _
    exact ⟨rfl, rfl, rfl⟩
  · intro g n m hact
    cases hact
  · intro ev w hp
    cases hp
  · rw [hids]
    exact List.nodup_nil
  · intro _
    exact ⟨params, rfl⟩
  · intro params' hc
    cases hc
    exact ⟨persistCheck_generation hcheck, rfl, evidence, hsupplied, h.prepared _ _ htr⟩
  · intro _
    exact .inr ⟨params, rfl⟩
  · intro id hm
    cases hm
  · intro pending hpending
    rw [htr] at hpending
    cases hpending

omit [Runtime] in
theorem told_discarded {events : List Event} {dir : Dir} {s : Server} {params result : Value}
    (hcheck : discardCheck dir s params = .ok result) :
    Told (events ++ [.discarded params]) s.discarded
      ∧ Disciplined events s s.discarded (.discarded params) := by
  have hids : mutatedIds (events ++ [.discarded params]) = [] := mutatedIds_boundary rfl
  obtain ⟨pending, hpending, hclient⟩ := discardCheck_ok hcheck
  refine ⟨⟨?_, ?_, ?_, ?_⟩, ⟨?_, ?_, ?_, ?_, ?_⟩⟩
  · intro _
    exact ⟨rfl, rfl, rfl⟩
  · intro g n m hact
    cases hact
  · intro ev w hp
    cases hp
  · rw [hids]
    exact List.nodup_nil
  · intro hne
    exact absurd rfl hne
  · intro params' hc
    cases hc
  · intro hne
    exact absurd rfl hne
  · intro id hm
    cases hm
  · intro pending' hp
    rw [hpending] at hp
    cases hp
    exact ⟨rfl, .inr (.inr ⟨params, rfl, rfl, hclient⟩)⟩

omit [Runtime] in
/-- A turn that does not end the process keeps what the history says, and is disciplined. -/
theorem told_turn {answer : Memory → RpcRequest → Result Value} {events : List Event}
    {host : Host} {dir : Dir} {s : Server} {req : RpcRequest} {o : Outcome} (h : Told events s)
    (turn : Turn answer host dir s req o) (hlive : o.server.fatal = false) :
    Told (events ++ [eventOf req o.result]) o.server
      ∧ Disciplined events s o.server (eventOf req o.result) := by
  have hnamed : ∀ {v : Value} {name : String}, req.method = name → isMutatingMethod name = false →
      eventOf req (.ok v) = if name = "batch_begin" then .began
        else if name = "batch_prepare_commit" then .prepared v
        else if name = "batch_commit" then .committed req.params
        else if name = "recovery_discard" then .discarded req.params
        else .answered name := by
    intro v name hname hmut
    rw [eventOf, hname, hmut]
    rfl
  cases turn with
  | stopped hfatal _ =>
    rw [hlive] at hfatal
    cases hfatal
  | refused failure => exact ⟨h.keep rfl rfl rfl rfl rfl rfl, .keep rfl rfl (.inl rfl)⟩
  | @answered spec caches result hspec hclass =>
    have hpend : spec.classification = .health ∨ s.transaction.pending = none := by
      rcases hclass with hc | ⟨-, hready⟩
      · exact .inl hc
      · refine .inr ?_
        rcases htr : s.transaction with _ | _ | _ | ⟨g, d, n, i⟩
        · rfl
        · rfl
        · rfl
        · exact absurd htr (hready g d n i)
    have hread := hclass.imp_right And.left
    rcases eventOf_answered hspec hread result with he | he
    · dsimp only
      rw [he]
      exact ⟨h.keep rfl rfl rfl rfl rfl rfl, .keep rfl rfl (.inl rfl)⟩
    · dsimp only
      rw [he]
      exact ⟨h.keep rfl rfl rfl rfl rfl rfl,
        .keep rfl rfl (.inr ⟨req.method, spec, rfl, hspec, hpend⟩)⟩
  | began nonce hmethod hb =>
    rw [hnamed hmethod (by decide)]
    exact told_began nonce hb
  | appendStopped stop _ _ hfatal _ =>
    rw [hlive] at hfatal
    cases hfatal
  | @mutated canonical record applied ha hcheck happlied =>
    rw [eventOf, if_pos ha.mutating]
    exact told_mutated _ h ha happlied
  | prepared hmethod hprepare =>
    rw [hnamed hmethod (by decide)]
    exact told_prepared h hprepare
  | commitStopped k _ hfatal _ =>
    rw [hlive] at hfatal
    cases hfatal
  | committed hmethod htr hsupplied hcheck _ =>
    rw [hnamed hmethod (by decide)]
    exact told_committed h htr hsupplied hcheck
  | discardStopped k _ hfatal _ =>
    rw [hlive] at hfatal
    cases hfatal
  | discarded hmethod hcheck =>
    rw [hnamed hmethod (by decide)]
    exact told_discarded hcheck

/-- The step lemma of a run. -/
theorem told_step {answer : Memory → RpcRequest → Result Value} {events : List Event}
    {s t : Server} {input : Host × Dir × Bytes} {out : Dir × Option RpcResponse}
    (h : Told events s) (hstep : lineStep answer s input = some (t, out))
    (hlive : t.fatal = false) :
    Told (events ++ [lineEvent (input, out)]) t
      ∧ Disciplined events s t (lineEvent (input, out)) := by
  obtain ⟨host, dir, frame⟩ := input
  obtain ⟨dir', response⟩ := out
  rcases lineStep_cases hstep with ⟨rfl, -, he⟩ | ⟨incoming, o, turn, rfl, -, he⟩
  · rw [he]
    exact ⟨h.keep rfl rfl rfl rfl rfl rfl, .keep rfl rfl (.inl rfl)⟩
  · rw [he]
    exact told_turn h turn hlive

/-- After the fatal flag nothing is handled. -/
theorem lineStep_live {answer : Memory → RpcRequest → Result Value} {s t : Server}
    {input : Host × Dir × Bytes} {out : Dir × Option RpcResponse}
    (hstep : lineStep answer s input = some (t, out)) : s.fatal = false := by
  obtain ⟨host, dir, frame⟩ := input
  rw [lineStep, runNormal] at hstep
  dsimp only at hstep
  split at hstep
  · cases hstep
  · next h => simpa using (not_or.mp h).1

/-- The run lemma: up to the fatal flag the server is what its history says. -/
theorem told_run {answer : Memory → RpcRequest → Result Value} {s₀ s : Server}
    {h : List ((Host × Dir × Bytes) × (Dir × Option RpcResponse))} (h₀ : Told [] s₀)
    (run : Trace (lineStep answer) s₀ h s) : s.fatal = false → Told (eventsOf h) s := by
  refine run.invariant (P := fun h s => s.fatal = false → Told (eventsOf h) s) ?_ ?_
  · intro _
    exact h₀
  · intro h s input out t ih hstep hlive
    rw [eventsOf, List.map_append]
    exact (told_step (ih (lineStep_live hstep)) hstep hlive).1

/-- The transaction state machine of every run from every start, up to the fatal flag. -/
theorem transaction_state_machine {answer : Memory → RpcRequest → Result Value} {dbStem : String}
    {dir after : Dir} {s₀ s : Server}
    {h : List ((Host × Dir × Bytes) × (Dir × Option RpcResponse))}
    (hstart : start dbStem dir = .ok (after, s₀)) (run : Trace (lineStep answer) s₀ h s)
    (hlive : s.fatal = false) :
    (s.transaction = .idle →
        s.walBytes = 0 ∧ s.walRecordCount = 0 ∧ s.activeMutationRequestIds = [])
      ∧ (mutatedIds (eventsOf h)).Nodup
      ∧ ∀ input t out, lineStep answer s input = some (t, out) → t.fatal = false →
        Disciplined (eventsOf h) s t (lineEvent (input, out)) := by
  have told := told_run (told_start hstart) run hlive
  refine ⟨told.idle, told.distinct, ?_⟩
  intro input t out hstep hlive'
  exact (told_step told hstep hlive').2

end Runs

attribute [local instance] Concrete.externals Concrete.runtime

/-- A new store that is asked to begin. -/
theorem transaction_state_machine_begin :
    ∃ (s₀ s : Server) (h : List ((Host × Dir × Bytes) × (Dir × Option RpcResponse))),
      start "a" .empty = .ok (.empty, s₀) ∧ Trace (lineStep Concrete.answer) s₀ h s
        ∧ s.transaction.isActive = true ∧ (mutatedIds (eventsOf h)).Nodup
        ∧ ∀ input t out, lineStep Concrete.answer s input = some (t, out) → t.fatal = false →
          Disciplined (eventsOf h) s t (lineEvent (input, out)) := by
  have hrun : (match start "a" .empty with
      | .ok (_, s₀) => match lineStep Concrete.answer s₀ (Concrete.host, .empty, Concrete.beginLine)
          with
        | some (s, _) => s.transaction.isActive && !s.fatal
        | none => false
      | .error _ => false) = true := by
    decide +kernel
  rcases hs : start "a" .empty with e | ⟨after, s₀⟩
  · rw [hs] at hrun
    cases hrun
  · rw [hs] at hrun
    dsimp only at hrun
    rcases hl : lineStep Concrete.answer s₀ (Concrete.host, .empty, Concrete.beginLine)
      with _ | ⟨s, out⟩
    · rw [hl] at hrun
      cases hrun
    · rw [hl] at hrun
      simp only [Bool.and_eq_true, Bool.not_eq_true'] at hrun
      have run : Trace (lineStep Concrete.answer) s₀ _ s := .snoc .nil hl
      obtain ⟨-, hdistinct, hnext⟩ := transaction_state_machine hs run hrun.2
      obtain rfl : after = .empty := by
        cases hs
        rfl
      exact ⟨s₀, s, _, rfl, run, hrun.1, hdistinct, hnext⟩

end AiraGraphdb.Native
