import AiraGraphdb.Library.Serializable
import AiraGraphdb.Schemes.Maps

/-! # The connections of a server

Every connection keeps how far it has come with its handshake; all of them share one transaction
manager behind a lock, so that their requests are handled one after another in some order. A
transaction belongs to whoever names its id. The server's own configuration, the check of a token
and the execution of a query are parameters; a storage write succeeds. -/

namespace AiraGraphdb.Library.Connections

open Schemes Std TransactionManager

inductive CypherDialect where
  | openCypher9
  | neo4jCompat
  deriving DecidableEq

inductive ServerRequest where
  | ping
  | handshake (protocolVersion canonicalTypeSystemVersion : String)
  | auth (bearerToken : String)
  | beginTx
  | query (txId query : String) (dialect : Option CypherDialect)
  | commitTx (txId : String)
  | rollbackTx (txId : String)

/-- The answers; `ρ` is what a query results in. -/
inductive ServerResponse (ρ : Type) where
  | pong
  | handshakeOk (protocolVersion canonicalTypeSystemVersion : String)
  | authOk
  | txBegun (txId : String)
  | queryResult (result : ρ)
  | txCommitted (txId : String)
  | txRolledBack (txId : String)
  | error (e : GraphDbError)

inductive SessionState where
  | connected
  | tlsOk
  | authOk
  | appReady
  deriving DecidableEq

/-- What a server is configured with: the versions it speaks, the tokens it takes at a time, and
the engine that runs a query on a graph. -/
structure Policy (ρ : Type) where
  protocolVersions : List String
  canonicalTypeSystemVersions : List String
  validateBearerToken : ℕ → String → Except GraphDbError Unit
  executeQueryWithDialect :
    InMemoryGraphStore → String → CypherDialect → InMemoryGraphStore × Except GraphDbError ρ

structure ServerState where
  contexts : ℕ → SessionState
  txManager : TransactionManager

/-- A request on a connection, at a time. -/
structure Incoming where
  connection : ℕ
  now : ℕ
  request : ServerRequest

/-! ### Requests -/

def trim (s : String) : String :=
  String.ofList ((s.toList.dropWhile isWhitespace).reverse.dropWhile isWhitespace).reverse

/-- The rest of a text after a prefix that it has. -/
def stripPrefix (s pre : String) : Option String :=
  if pre.toList.isPrefixOf s.toList then some (String.ofList (s.toList.drop pre.toList.length))
  else none

def resolveCypherDialect (query : String) (requested : Option CypherDialect) :
    CypherDialect × String :=
  match requested with
  | some dialect => (dialect, trim query)
  | none => match stripPrefix (trim query) "CYPHER neo4j-compat " with
    | some rest => (.neo4jCompat, trim rest)
    | none => match stripPrefix (trim query) "CYPHER NEO4J_COMPAT " with
      | some rest => (.neo4jCompat, trim rest)
      | none => (.openCypher9, trim query)

def authRequired (message : String) : GraphDbError := ⟨.authRequired, message⟩

section Server

variable {ρ : Type} (policy : Policy ρ)

def negotiate (protocolVersion canonicalTypeSystemVersion : String) : Except GraphDbError Unit :=
  if protocolVersion ∈ policy.protocolVersions
      ∧ canonicalTypeSystemVersion ∈ policy.canonicalTypeSystemVersions then .ok ()
  else .error ⟨.protocolVersionMismatch, "protocol or canonical type system version mismatch"⟩

/-- A query with its dialect, on a graph. -/
def runQuery (graph : InMemoryGraphStore) (query : String) (dialect : Option CypherDialect) :
    InMemoryGraphStore × Except GraphDbError ρ :=
  let resolved := resolveCypherDialect query dialect
  policy.executeQueryWithDialect graph resolved.2 resolved.1

def answerOf : Except GraphDbError ρ → ServerResponse ρ
  | .ok result => .queryResult result
  | .error e => .error e

/-- The answer of the manager to a call that carries no result. -/
def replied (txId : String) (done : String → ServerResponse ρ) : Reply → ServerResponse ρ
  | .error e => .error e
  | _ => done txId

def processQuery (t : TransactionManager) (txId query : String) (dialect : Option CypherDialect) :
    TransactionManager × ServerResponse ρ :=
  match t.sessions[txId]? with
  | none => (t, .error (unknownTransaction txId))
  | some session => ((t.graphMut txId fun graph => (runQuery policy graph query dialect).1).1,
      answerOf (runQuery policy session.graph query dialect).2)

/-- A request on the transactions, which only a connection that is ready may make. -/
def processTx (t : TransactionManager) :
    ServerRequest → Option (TransactionManager × ServerResponse ρ)
  | .beginTx => t.begin.map fun p => (p.1, match p.2 with
    | .began txId => .txBegun txId
    | .error e => .error e
    | .ok => .pong)
  | .query txId query dialect => some (processQuery policy t txId query dialect)
  | .commitTx txId => (t.commit txId none).map fun p => (p.1, replied txId .txCommitted p.2)
  | .rollbackTx txId => some ((t.rollback txId).1, replied txId .txRolledBack (t.rollback txId).2)
  | _ => some (t, .pong)

/-- What a connection that is not ready is told. -/
def notReady : ServerRequest → String
  | .beginTx => "APP_READY required before begin_tx"
  | .query .. => "APP_READY required before query"
  | .commitTx _ => "APP_READY required before commit"
  | _ => "APP_READY required before rollback"

def ServerState.enter (s : ServerState) (connection : ℕ) (state : SessionState) : ServerState :=
  { s with contexts := Function.update s.contexts connection state }

def processRequest (s : ServerState) (i : Incoming) : Option (ServerState × ServerResponse ρ) :=
  match i.request with
  | .ping => some (s, .pong)
  | .handshake protocolVersion canonicalTypeSystemVersion =>
    match negotiate policy protocolVersion canonicalTypeSystemVersion with
    | .ok () => some (s.enter i.connection .tlsOk,
        .handshakeOk protocolVersion canonicalTypeSystemVersion)
    | .error e => some (s, .error e)
  | .auth bearerToken =>
    if s.contexts i.connection ≠ .tlsOk then
      some (s, .error (authRequired "handshake required before auth"))
    else match policy.validateBearerToken i.now bearerToken with
      | .ok () => some (s.enter i.connection .appReady, .authOk)
      | .error e => some (s, .error e)
  | request =>
    if s.contexts i.connection ≠ .appReady then
      some (s, .error (authRequired (notReady request)))
    else (processTx policy s.txManager request).map fun p => ({ s with txManager := p.1 }, p.2)

/-- One request: its answer, and whether its connection was ready for it. -/
def step (s : ServerState) (i : Incoming) :
    Option (ServerState × (ServerResponse ρ × Bool)) :=
  (processRequest policy s i).map fun p =>
    (p.1, p.2, decide (s.contexts i.connection = .appReady))

/-- A server as it starts: nobody has shaken hands. -/
def started (t : TransactionManager) : ServerState := ⟨fun _ => .connected, t⟩

/-! ### What one request does -/

def isTxRequest : ServerRequest → Bool
  | .beginTx | .query .. | .commitTx _ | .rollbackTx _ => true
  | _ => false

/-- What a request can do; only a connection that is ready gets to the transactions. -/
inductive Handled (s : ServerState) (i : Incoming) : ServerState → ServerResponse ρ → Prop
  | refused (r : ServerResponse ρ)
      (hanswer : (r = .pong ∧ isTxRequest i.request = false) ∨ ∃ e, r = .error e)
      (hready : isTxRequest i.request = true → s.contexts i.connection ≠ .appReady) :
      Handled s i s r
  | shook (pv cv : String) (hkind : isTxRequest i.request = false) :
      Handled s i (s.enter i.connection .tlsOk) (.handshakeOk pv cv)
  | authed (hkind : isTxRequest i.request = false) :
      Handled s i (s.enter i.connection .appReady) .authOk
  | served {t : TransactionManager} {r : ServerResponse ρ} (hkind : isTxRequest i.request = true)
      (hready : s.contexts i.connection = .appReady)
      (htx : processTx policy s.txManager i.request = some (t, r)) :
      Handled s i { s with txManager := t } r

theorem processRequest_cases {s s' : ServerState} {i : Incoming} {r : ServerResponse ρ}
    (h : processRequest policy s i = some (s', r)) : Handled policy s i s' r := by
  have htx : isTxRequest i.request = true → (if s.contexts i.connection ≠ .appReady then
      some (s, .error (authRequired (notReady i.request)))
      else (processTx policy s.txManager i.request).map fun p => ({ s with txManager := p.1 }, p.2))
        = some (s', r) → Handled policy s i s' r := by
    intro hkind h
    by_cases hready : s.contexts i.connection = .appReady
    · rw [if_neg (not_not.mpr hready), Option.map_eq_some_iff] at h
      obtain ⟨⟨t, answer⟩, hserved, h⟩ := h
      cases h
      exact .served hkind hready hserved
    · rw [if_pos hready] at h
      cases h
      exact .refused _ (.inr ⟨_, rfl⟩) fun _ => hready
  rw [processRequest] at h
  cases hr : i.request with
  | ping =>
    rw [hr] at h
    cases h
    exact .refused _ (.inl ⟨rfl, by rw [hr]; rfl⟩) (by simp [hr, isTxRequest])
  | handshake pv cv =>
    rw [hr] at h
    dsimp only at h
    split at h
    · cases h
      exact .shook _ _ (by rw [hr]; rfl)
    · cases h
      exact .refused _ (.inr ⟨_, rfl⟩) (by simp [hr, isTxRequest])
  | auth token =>
    rw [hr] at h
    dsimp only at h
    split at h
    · cases h
      exact .refused _ (.inr ⟨_, rfl⟩) (by simp [hr, isTxRequest])
    · split at h
      · cases h
        exact .authed (by rw [hr]; rfl)
      · cases h
        exact .refused _ (.inr ⟨_, rfl⟩) (by simp [hr, isTxRequest])
  | _ =>
    rw [hr] at h htx
    exact htx rfl h

/-! ### Who is ready -/

/-- A request, its answer, and whether its connection was ready. -/
abbrev Event (ρ : Type) := Incoming × (ServerResponse ρ × Bool)

def ShookHands (connection : ℕ) (e : Event ρ) : Prop :=
  e.1.connection = connection ∧ ∃ pv cv, e.2.1 = .handshakeOk pv cv

def Authenticated (connection : ℕ) (e : Event ρ) : Prop :=
  e.1.connection = connection ∧ e.2.1 = .authOk

/-- Its last successful handshake was followed by a successful authentication. -/
def Ready (connection : ℕ) (h : List (Event ρ)) : Prop :=
  Since (Authenticated connection) (¬ ShookHands connection ·) h

/-- The transactions answer neither a handshake nor a token. -/
theorem processTx_answer {t t' : TransactionManager} {request : ServerRequest} {r : ServerResponse ρ}
    (h : processTx policy t request = some (t', r)) :
    r ≠ .authOk ∧ ∀ pv cv, r ≠ .handshakeOk pv cv := by
  have hreplied : ∀ (txId : String) (reply : Reply),
      ((replied txId .txCommitted reply : ServerResponse ρ) ≠ .authOk
        ∧ ∀ pv cv, (replied txId .txCommitted reply : ServerResponse ρ) ≠ .handshakeOk pv cv)
      ∧ (replied txId .txRolledBack reply : ServerResponse ρ) ≠ .authOk
        ∧ ∀ pv cv, (replied txId .txRolledBack reply : ServerResponse ρ) ≠ .handshakeOk pv cv := by
    intro txId reply
    cases reply <;> simp [replied]
  cases request with
  | beginTx =>
    obtain ⟨⟨_, reply⟩, -, h⟩ := Option.map_eq_some_iff.mp h
    cases h
    cases reply <;> simp
  | query txId query dialect =>
    have h := Option.some.inj h
    rw [processQuery] at h
    split at h
    · cases h
      simp
    · cases h
      rcases (runQuery policy _ query dialect).2 with e | result <;> simp [answerOf]
  | commitTx txId =>
    obtain ⟨⟨_, reply⟩, -, h⟩ := Option.map_eq_some_iff.mp h
    cases h
    exact (hreplied txId reply).1
  | rollbackTx txId =>
    cases h
    exact (hreplied txId _).2
  | _ =>
    cases h
    simp

/-- A connection is ready exactly when its history says so. -/
theorem ready_iff {t₀ : TransactionManager} {h : List (Event ρ)} {s : ServerState}
    (run : Trace (step policy) (started t₀) h s) (connection : ℕ) :
    s.contexts connection = .appReady ↔ Ready connection h := by
  refine run.invariant (P := fun h s => s.contexts connection = .appReady ↔ Ready connection h)
    ?_ ?_
  · simp [started, Ready]
  · intro h s i o s' ih hstep
    obtain ⟨⟨s'', r⟩, hhandled, heq⟩ := Option.map_eq_some_iff.mp hstep
    cases heq
    have hsnoc : ∀ e, Ready connection (h ++ [e]) ↔
        Authenticated connection e ∨ (Ready connection h ∧ ¬ ShookHands connection e) :=
      fun e => since_snoc
    rw [hsnoc]
    cases processRequest_cases policy hhandled with
    | refused _ hanswer _ =>
      rcases hanswer with ⟨rfl, -⟩ | ⟨e, rfl⟩ <;> simpa [Authenticated, ShookHands] using ih
    | shook pv cv _ =>
      by_cases hc : i.connection = connection
      · subst hc
        simp [ServerState.enter, Authenticated, ShookHands]
      · have hne : connection ≠ i.connection := fun heq => hc heq.symm
        simpa [ServerState.enter, Function.update_of_ne hne, Authenticated, ShookHands, hc] using ih
    | authed _ =>
      by_cases hc : i.connection = connection
      · subst hc
        simp [ServerState.enter, Authenticated]
      · have hne : connection ≠ i.connection := fun heq => hc heq.symm
        simpa [ServerState.enter, Function.update_of_ne hne, Authenticated, ShookHands, hc] using ih
    | served _ _ htx =>
      obtain ⟨hauth, hshook⟩ := processTx_answer policy htx
      simpa [Authenticated, ShookHands, hauth, hshook] using ih

/-! ### A transaction on its own -/

/-- A request on a transaction that is known. -/
inductive TxRequest where
  | query (query : String) (dialect : Option CypherDialect)
  | commit
  | rollback

/-- What a request asks of this transaction. -/
def txRequest (txId : String) : ServerRequest → Option TxRequest
  | .query id query dialect => if id = txId then some (.query query dialect) else none
  | .commitTx id => if id = txId then some .commit else none
  | .rollbackTx id => if id = txId then some .rollback else none
  | _ => none

/-- The graph of a transaction while it is open. -/
def loneStep : Option InMemoryGraphStore → TxRequest → Option InMemoryGraphStore
  | some graph, .query query dialect => some (runQuery policy graph query dialect).1
  | _, _ => none

/-- The graph of a transaction that began on this one, after these requests. -/
def lone (graph : InMemoryGraphStore) (requests : List TxRequest) : Option InMemoryGraphStore :=
  requests.foldl (loneStep policy) (some graph)

/-- The answer to a request; a commit also depends on whether another one came first. -/
def loneAnswer (txId : String) (overtaken : Prop) [Decidable overtaken] :
    Option InMemoryGraphStore → TxRequest → ServerResponse ρ
  | none, _ => .error (unknownTransaction txId)
  | some graph, .query query dialect => answerOf (runQuery policy graph query dialect).2
  | some _, .commit => if overtaken then .error (deterministicConflict txId) else .txCommitted txId
  | some _, .rollback => .txRolledBack txId

/-- The requests on a transaction that connections have made while they were ready. -/
def requestsOn (txId : String) (h : List (Event ρ)) : List TxRequest :=
  h.filterMap fun e => if e.2.2 then txRequest txId e.1.request else none

/-- A commit that has succeeded. -/
def Committed (e : Event ρ) : Prop := ∃ txId, e.2.1 = .txCommitted txId

/-- How the manager holds a transaction that began at a version. -/
structure Holds (txId : String) (number : ℕ) (version : UInt64)
    (view : Option InMemoryGraphStore) (t : TransactionManager) : Prop where
  session : t.sessions[txId]? = view.map fun graph => ⟨graph, version⟩
  named : txId = txIdOf number
  issued : number ≤ t.txSeq.toNat
  version : version.toNat ≤ t.graphVersion.toNat

/-- What a request on the transactions does to one of them and to the base graph. -/
structure Served (txId : String) (number : ℕ) (version : UInt64) (view : Option InMemoryGraphStore)
    (t : TransactionManager) (request : ServerRequest) (t' : TransactionManager)
    (r : ServerResponse ρ) : Prop where
  holds : Holds txId number version (match txRequest txId request with
    | some q => loneStep policy view q
    | none => view) t'
  answer : ∀ q, txRequest txId request = some q →
    r = loneAnswer policy txId (version ≠ t.graphVersion) view q
  published : txRequest txId request = some .commit → ∀ id, r = .txCommitted id →
    view = some t'.baseGraph
  committed : ((∃ id, r = .txCommitted id) ∧ t'.graphVersion.toNat = t.graphVersion.toNat + 1)
    ∨ ((∀ id, r ≠ .txCommitted id) ∧ t'.graphVersion = t.graphVersion ∧ t'.baseGraph = t.baseGraph)

section Step

variable {policy} {txId : String} {number : ℕ} {version : UInt64}
  {view : Option InMemoryGraphStore} {t t' : TransactionManager} {r : ServerResponse ρ}

/-- A change to other transactions keeps this one. -/
theorem Holds.other (h : Holds txId number version view t) {t' : TransactionManager}
    (hsession : t'.sessions[txId]? = t.sessions[txId]?)
    (hseq : t.txSeq.toNat ≤ t'.txSeq.toNat)
    (hversion : t.graphVersion.toNat ≤ t'.graphVersion.toNat) :
    Holds txId number version view t' := by
  refine ⟨hsession.trans h.session, h.named, h.issued.trans hseq, h.version.trans hversion⟩

theorem served_begin (h : Holds txId number version view t)
    (hs : processTx policy t .beginTx = some (t', r)) :
    Served policy txId number version view t .beginTx t' r := by
  obtain ⟨⟨t'', reply⟩, hbegin, heq⟩ := Option.map_eq_some_iff.mp hs
  obtain ⟨n, hn, rfl, rfl⟩ := Serializable.begin_cases hbegin
  cases heq
  refine ⟨h.other ?_ (by simp only; omega) le_rfl, by simp [txRequest], by simp [txRequest],
    .inr ⟨by simp, rfl, rfl⟩⟩
  refine Map.getElem?_insert_ne _ ?_ _
  rw [h.named]
  intro heq
  have := txIdOf_injective heq
  have := h.issued
  omega

theorem served_query {id query : String} {dialect : Option CypherDialect}
    (h : Holds txId number version view t)
    (hs : processTx policy t (.query id query dialect) = some (t', r)) :
    Served policy txId number version view t (.query id query dialect) t' r := by
  have hs := Option.some.inj hs
  have hplain : ∀ answer : Except GraphDbError ρ, ∀ id, answerOf answer ≠ .txCommitted id := by
    intro answer id
    cases answer <;> simp [answerOf]
  rw [processQuery] at hs
  by_cases hid : id = txId
  · subst hid
    rw [h.session] at hs
    rcases view with _ | graph
    · cases hs
      refine ⟨by simpa [txRequest, loneStep] using h, ?_, by simp [txRequest], .inr ⟨by simp, rfl, rfl⟩⟩
      intro q hq
      rfl
    · simp only [Option.map_some] at hs
      cases hs
      have hsession : t.sessions[id]? = some ⟨graph, version⟩ := h.session
      refine ⟨?_, ?_, by simp [txRequest], .inr ⟨hplain _, ?_, ?_⟩⟩
      · refine ⟨?_, h.named, ?_, ?_⟩
        · simp [graphMut, hsession, txRequest, loneStep]
        · simpa [graphMut, hsession] using h.issued
        · simpa [graphMut, hsession] using h.version
      · intro q hq
        simp only [txRequest, if_true, Option.some.injEq] at hq
        subst hq
        rfl
      · simp [graphMut, hsession]
      · simp [graphMut, hsession]
  · have hnone : txRequest txId (.query id query dialect) = none := by simp [txRequest, hid]
    rcases hg : t.sessions[id]? with _ | session
    · rw [hg] at hs
      cases hs
      refine ⟨by rw [hnone]; exact h, by simp [hnone], by simp [hnone], .inr ⟨by simp, rfl, rfl⟩⟩
    · rw [hg] at hs
      cases hs
      refine ⟨?_, by simp [hnone], by simp [hnone], .inr ⟨hplain _, ?_, ?_⟩⟩
      · rw [hnone]
        refine h.other ?_ ?_ ?_
        · rw [graphMut, hg]
          exact Map.getElem?_insert_ne _ hid _
        · simp [graphMut, hg]
        · simp [graphMut, hg]
      · simp [graphMut, hg]
      · simp [graphMut, hg]

theorem served_rollback {id : String} (h : Holds txId number version view t)
    (hs : processTx policy t (.rollbackTx id) = some (t', r)) :
    Served policy txId number version view t (.rollbackTx id) t' r := by
  have hs := Option.some.inj hs
  rcases Serializable.rollback_cases t id with ⟨hnone, hrun⟩ | ⟨hmem, hrun⟩
  · rw [hrun] at hs
    cases hs
    by_cases hid : id = txId
    · subst hid
      have hview : view = none := by
        rw [h.session, Option.map_eq_none_iff] at hnone
        exact hnone
      subst hview
      refine ⟨by simpa [txRequest, loneStep] using h, ?_, by simp [txRequest],
        .inr ⟨by simp [replied], rfl, rfl⟩⟩
      intro q hq
      rfl
    · have hother : txRequest txId (.rollbackTx id) = none := by simp [txRequest, hid]
      exact ⟨by rw [hother]; exact h, by simp [hother], by simp [hother],
        .inr ⟨by simp [replied], rfl, rfl⟩⟩
  · rw [hrun] at hs
    cases hs
    by_cases hid : id = txId
    · subst hid
      obtain ⟨session, hsession⟩ := Map.mem_iff.mp hmem
      rw [h.session] at hsession
      obtain ⟨graph, rfl, -⟩ := Option.map_eq_some_iff.mp hsession
      refine ⟨⟨?_, h.named, h.issued, h.version⟩, ?_, by simp [txRequest],
        .inr ⟨by simp [replied], rfl, rfl⟩⟩
      · simp [txRequest, loneStep]
      · intro q hq
        simp only [txRequest, if_true, Option.some.injEq] at hq
        subst hq
        rfl
    · have hother : txRequest txId (.rollbackTx id) = none := by simp [txRequest, hid]
      refine ⟨?_, by simp [hother], by simp [hother], .inr ⟨by simp [replied], rfl, rfl⟩⟩
      rw [hother]
      exact h.other (Map.getElem?_erase_ne _ hid) le_rfl le_rfl

theorem served_commit {id : String} (h : Holds txId number version view t)
    (hs : processTx policy t (.commitTx id) = some (t', r)) :
    Served policy txId number version view t (.commitTx id) t' r := by
  obtain ⟨⟨t'', reply⟩, hcommit, heq⟩ := Option.map_eq_some_iff.mp hs
  cases heq
  have hother : id ≠ txId → txRequest txId (.commitTx id) = none := by
    intro hid
    simp [txRequest, hid]
  have hthis : txRequest id (.commitTx id) = some .commit := by simp [txRequest]
  rcases Serializable.commit_cases hcommit with ⟨hnone, rfl, rfl⟩ | ⟨session, hsession, hcase⟩
  · by_cases hid : id = txId
    · subst hid
      have hview : view = none := by
        rw [h.session, Option.map_eq_none_iff] at hnone
        exact hnone
      subst hview
      refine ⟨by rw [hthis]; exact h, ?_, by simp [replied], .inr ⟨by simp [replied], rfl, rfl⟩⟩
      intro q hq
      rfl
    · exact ⟨by rw [hother hid]; exact h, by simp [hother hid], by simp [hother hid],
        .inr ⟨by simp [replied], rfl, rfl⟩⟩
  · rcases hcase with ⟨hne, rfl, rfl⟩ | ⟨-, k, hk, -⟩ | ⟨heq, -, v, hv, rfl, rfl⟩
    · by_cases hid : id = txId
      · subst hid
        rw [h.session] at hsession
        obtain ⟨graph, rfl, rfl⟩ := Option.map_eq_some_iff.mp hsession
        refine ⟨⟨by simp [hthis, loneStep], h.named, h.issued, h.version⟩, ?_, by simp [replied],
          .inr ⟨by simp [replied], rfl, rfl⟩⟩
        intro q hq
        obtain rfl := Option.some.inj (hthis.symm.trans hq)
        simp [loneAnswer, hne, replied]
      · refine ⟨?_, by simp [hother hid], by simp [hother hid], .inr ⟨by simp [replied], rfl, rfl⟩⟩
        rw [hother hid]
        exact h.other (Map.getElem?_erase_ne _ hid) le_rfl le_rfl
    · cases hk
    · have hcommitted : (∃ id', replied id .txCommitted Reply.ok = (.txCommitted id' : ServerResponse ρ))
          := ⟨id, rfl⟩
      by_cases hid : id = txId
      · subst hid
        rw [h.session] at hsession
        obtain ⟨graph, rfl, rfl⟩ := Option.map_eq_some_iff.mp hsession
        refine ⟨⟨by simp [hthis, loneStep], h.named, h.issued, ?_⟩, ?_, ?_, .inl ⟨hcommitted, hv⟩⟩
        · have := h.version
          simp only
          omega
        · intro q hq
          obtain rfl := Option.some.inj (hthis.symm.trans hq)
          have heq' : version = t.graphVersion := heq
          simp [loneAnswer, heq', replied]
        · intro _ _ _
          rfl
      · refine ⟨?_, by simp [hother hid], by simp [hother hid], .inl ⟨hcommitted, hv⟩⟩
        rw [hother hid]
        refine h.other (Map.getElem?_erase_ne _ hid) le_rfl ?_
        simp only
        omega

/-- The step: every request on the transactions does to this one what it asks of it. -/
theorem served {request : ServerRequest} (h : Holds txId number version view t)
    (hkind : isTxRequest request = true) (hs : processTx policy t request = some (t', r)) :
    Served policy txId number version view t request t' r := by
  cases request with
  | beginTx => exact served_begin h hs
  | query id query dialect => exact served_query h hs
  | commitTx id => exact served_commit h hs
  | rollbackTx id => exact served_rollback h hs
  | _ => cases hkind

end Step

/-! ### Runs -/

/-- After a run since a transaction began: the manager holds what its own requests have made of it,
and its version is the current one exactly while nothing was committed. -/
structure Follows (txId : String) (graph : InMemoryGraphStore) (number : ℕ) (version : UInt64)
    (h : List (Event ρ)) (s : ServerState) : Prop where
  holds : Holds txId number version (lone policy graph (requestsOn txId h)) s.txManager
  current : version = s.txManager.graphVersion ↔ ¬ ∃ e ∈ h, Committed e

theorem requestsOn_snoc (txId : String) (h : List (Event ρ)) (e : Event ρ) :
    requestsOn txId (h ++ [e]) = requestsOn txId h ++ requestsOn txId [e] :=
  List.filterMap_append

/-- What a step keeps when its request does not get to the transactions. -/
theorem follows_idle {txId : String} {graph : InMemoryGraphStore} {number : ℕ} {version : UInt64}
    {h : List (Event ρ)} {s s' : ServerState} {e : Event ρ}
    (hi : Follows policy txId graph number version h s) (hsame : s'.txManager = s.txManager)
    (hnone : requestsOn txId [e] = []) (hplain : ¬ Committed e) :
    Follows policy txId graph number version (h ++ [e]) s' := by
  refine ⟨?_, ?_⟩
  · rw [requestsOn_snoc, hnone, List.append_nil, hsame]
    exact hi.holds
  · rw [hsame, hi.current]
    simp [List.mem_append, or_and_right, exists_or, hplain]

theorem follows_step {txId : String} {graph : InMemoryGraphStore} {number : ℕ} {version : UInt64}
    {h : List (Event ρ)} {s s' : ServerState} {i : Incoming} {o : ServerResponse ρ × Bool}
    (hi : Follows policy txId graph number version h s) (hs : step policy s i = some (s', o)) :
    Follows policy txId graph number version (h ++ [(i, o)]) s' := by
  obtain ⟨⟨s'', r⟩, hhandled, heq⟩ := Option.map_eq_some_iff.mp hs
  cases heq
  have hplain : isTxRequest i.request = false → txRequest txId i.request = none := by
    cases i.request <;> simp [isTxRequest, txRequest]
  cases processRequest_cases policy hhandled with
  | refused _ hanswer hready =>
    refine follows_idle policy hi rfl ?_ ?_
    · by_cases hkind : isTxRequest i.request = true
      · simp [requestsOn, hready hkind]
      · simp [requestsOn, hplain (by simpa using hkind)]
    · rcases hanswer with ⟨rfl, -⟩ | ⟨e, rfl⟩ <;> simp [Committed]
  | shook pv cv hkind =>
    refine follows_idle policy hi rfl ?_ (by simp [Committed])
    simp [requestsOn, hplain hkind]
  | authed hkind =>
    refine follows_idle policy hi rfl ?_ (by simp [Committed])
    simp [requestsOn, hplain hkind]
  | @served t _ hkind hready htx =>
    have hserved := served hi.holds hkind htx
    have hrequests : requestsOn txId [(i, (r, decide (s.contexts i.connection = .appReady)))]
        = (txRequest txId i.request).toList := by
      simp only [requestsOn, hready, decide_true, if_true, List.filterMap_cons, List.filterMap_nil]
      cases txRequest txId i.request <;> rfl
    refine ⟨?_, ?_⟩
    · rw [requestsOn_snoc, hrequests, lone, List.foldl_append, ← lone]
      have hholds := hserved.holds
      cases hq : txRequest txId i.request with
      | none =>
        rw [hq] at hholds
        exact hholds
      | some q =>
        rw [hq] at hholds
        exact hholds
    · have hle := hi.holds.version
      rcases hserved.committed with ⟨hcommit, hnext⟩ | ⟨hnot, hsame, -⟩
      · have hne : version ≠ t.graphVersion := by
          intro heq
          rw [heq, hnext] at hle
          omega
        simp only [hne, false_iff, not_not]
        exact ⟨(i, (r, decide (s.contexts i.connection = .appReady))), by simp, hcommit⟩
      · have hplain : ¬ Committed (i, (r, decide (s.contexts i.connection = .appReady))) := by
          rintro ⟨id, hid⟩
          exact hnot id hid
        simp only
        rw [hsame, hi.current]
        simp [List.mem_append, or_and_right, exists_or, hplain]

/-- A transaction as it begins. -/
theorem follows_begin {s s' : ServerState} {i : Incoming} {txId : String} {ready : Bool}
    (hs : step policy s i = some (s', .txBegun txId, ready)) (hi : i.request = .beginTx) :
    ∃ number, Follows policy txId s.txManager.baseGraph number s.txManager.graphVersion [] s' := by
  obtain ⟨⟨s'', r⟩, hhandled, heq⟩ := Option.map_eq_some_iff.mp hs
  cases heq
  cases processRequest_cases policy hhandled with
  | refused _ hanswer _ =>
    rcases hanswer with ⟨h, -⟩ | ⟨e, h⟩ <;> cases h
  | @served t _ _ _ htx =>
    rw [hi] at htx
    obtain ⟨⟨t', reply⟩, hbegin, heq⟩ := Option.map_eq_some_iff.mp htx
    obtain ⟨n, hn, rfl, rfl⟩ := Serializable.begin_cases hbegin
    cases heq
    refine ⟨s.txManager.txSeq.toNat + 1, ⟨?_, rfl, hn.ge, le_rfl⟩, by simp⟩
    simp [lone, requestsOn]

/-- What the requests on a transaction are answered after a run since it began. -/
structure Isolated (txId : String) (graph : InMemoryGraphStore) (h : List (Event ρ))
    (s : ServerState) : Prop where
  /-- The answer depends on what was asked of this transaction, and on whether a commit succeeded. -/
  answer : ∀ i s' r q, step policy s i = some (s', r, true) → txRequest txId i.request = some q →
    ∃ overtaken : Prop, ∃ _ : Decidable overtaken, (overtaken ↔ ∃ e ∈ h, Committed e)
      ∧ r = loneAnswer policy txId overtaken (lone policy graph (requestsOn txId h)) q
  /-- A commit that succeeds publishes the graph of this transaction. -/
  published : ∀ i s' r id, step policy s i = some (s', r, true) →
    txRequest txId i.request = some .commit → r = .txCommitted id →
    lone policy graph (requestsOn txId h) = some s'.txManager.baseGraph

theorem isolated_of_follows {txId : String} {graph : InMemoryGraphStore} {number : ℕ}
    {version : UInt64} {h : List (Event ρ)} {s : ServerState}
    (hi : Follows policy txId graph number version h s) : Isolated policy txId graph h s := by
  have hserved : ∀ {i s' r q}, step policy s i = some (s', r, true) →
      txRequest txId i.request = some q → Served policy txId number version
        (lone policy graph (requestsOn txId h)) s.txManager i.request s'.txManager r := by
    intro i s' r q hs hq
    obtain ⟨⟨s'', r'⟩, hhandled, heq⟩ := Option.map_eq_some_iff.mp hs
    have hready : s.contexts i.connection = .appReady := by
      simpa using congrArg (fun p => p.2.2) heq
    have hkind : isTxRequest i.request = true := by
      cases hr : i.request <;> simp [hr, txRequest, isTxRequest] at hq ⊢
    obtain rfl : s'' = s' := congrArg Prod.fst heq
    obtain rfl : r' = r := congrArg (fun p => p.2.1) heq
    cases processRequest_cases policy hhandled with
    | refused _ _ hnot => exact absurd hready (hnot hkind)
    | shook pv cv hnot => rw [hkind] at hnot; cases hnot
    | authed hnot => rw [hkind] at hnot; cases hnot
    | served _ _ htx => exact served hi.holds hkind htx
  refine ⟨?_, ?_⟩
  · intro i s' r q hs hq
    refine ⟨version ≠ s.txManager.graphVersion, inferInstance, ?_, (hserved hs hq).answer q hq⟩
    rw [Ne, hi.current, not_not]
  · intro i s' r id hs hq hr
    exact (hserved hs hq).published hq id hr

end Server

/-! ### Two connections -/

/-- A server that takes every token and whose queries change nothing. -/
def permissive : Policy Unit where
  protocolVersions := ["protocol-p0@1.0.0"]
  canonicalTypeSystemVersions := ["canonical-types@1.0.0"]
  validateBearerToken _ _ := .ok ()
  executeQueryWithDialect graph _ _ := (graph, .ok ())

/-- A connection shakes hands and authenticates. -/
def enters (connection : ℕ) : List (Event Unit) :=
  [(⟨connection, 0, .handshake "protocol-p0@1.0.0" "canonical-types@1.0.0"⟩,
      .handshakeOk "protocol-p0@1.0.0" "canonical-types@1.0.0", false),
    (⟨connection, 0, .auth "token"⟩, .authOk, false)]

/-- The second connection rolls back what the first one began. -/
def foreignRollback : List (Event Unit) :=
  enters 0 ++ enters 1 ++ [(⟨0, 0, .beginTx⟩, .txBegun "tx-1", true),
    (⟨1, 0, .rollbackTx "tx-1"⟩, .txRolledBack "tx-1", true),
    (⟨0, 0, .commitTx "tx-1"⟩, .error (unknownTransaction "tx-1"), true)]

end AiraGraphdb.Library.Connections
