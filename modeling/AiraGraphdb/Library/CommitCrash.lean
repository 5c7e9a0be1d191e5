import AiraGraphdb.Library.Tx

/-! # Commits that stop half way

A commit of the library rewrites the log and then the snapshot, each in place. For every number of
effects after which it stops, by a crash or by an error, this module says what the two ways to
start make of the files (`latestInWal_cut`, `loadOrInit_cut`), and from that at which stops a
commit is atomic: `commit_atomic_iff`. -/

namespace AiraGraphdb.Library.CommitCrash

open Schemes TransactionManager

variable (json : LegacyJson)

/-! ### What the files hold -/

/-- Starting from the snapshot gives this graph. -/
def DbHolds (f : Files) (g : InMemoryGraphStore) : Prop :=
  match f.db with
  | none => g = .new
  | some raw => ∃ snapshot migrated, decodeSnapshot json raw = .ok (snapshot, migrated) ∧
      snapshot.catalogVersion = currentCatalogVersion ∧ snapshot.graph = g

/-- What the log on disk asks to restore. -/
def walSnapshot (f : Files) : Except GraphDbError (Option PersistedSnapshot) :=
  match f.wal with
  | none => .ok none
  | some raw => latestInWal json raw

/-- The graph and the log record of a commit are values in memory: their lengths fit in eight
    bytes. -/
structure Storable (txId : String) (g : InMemoryGraphStore) : Prop where
  graph : InMemoryGraphStore.codec.Fits g
  name : Bincode.string.Fits txId
  record : (WalCommitRecord.codec.put ⟨txId, snapshotOf g⟩).length < 256 ^ 8

theorem loadGraph_iff {f : Files} {raw : Bytes} (hdb : f.db = some raw)
    {g : InMemoryGraphStore} :
    (∃ f', loadGraph json f = .ok (g, f')) ↔ DbHolds json f g := by
  simp only [DbHolds, hdb, loadGraph]
  rcases hdec : decodeSnapshot json raw with e | ⟨s, migrated⟩
  · simp [bind, Except.bind]
  · by_cases hcat : s.catalogVersion = currentCatalogVersion
    · cases migrated <;> simp [bind, Except.bind, hcat]
    · simp [bind, Except.bind, hcat]

theorem loadOrInit_iff {f : Files} {g : InMemoryGraphStore} :
    (∃ f', loadOrInit json f = .ok (g, f')) ↔ DbHolds json f g := by
  rcases hdb : f.db with _ | raw
  · have hl : loadGraph json { f with db := some (encodeSnapshot (snapshotOf .new)) } =
        .ok (.new, { f with db := some (encodeSnapshot (snapshotOf .new)) }) :=
      loadGraph_encoded json (InMemoryGraphStore.codec_fits_empty 0 0) rfl
    simp [loadOrInit, hdb, DbHolds, hl, eq_comm]
  · rw [loadOrInit, hdb]
    exact loadGraph_iff json hdb

/-- Starting does not depend on the log. -/
theorem DbHolds.congr {f f' : Files} (hdb : f'.db = f.db) {g : InMemoryGraphStore} :
    DbHolds json f' g ↔ DbHolds json f g := by
  simp only [DbHolds, hdb]

/-- The snapshot holds one graph at most. -/
theorem DbHolds.unique {f : Files} {g g' : InMemoryGraphStore} (h : DbHolds json f g)
    (h' : DbHolds json f g') : g = g' := by
  unfold DbHolds at h h'
  rcases hdb : f.db with _ | raw <;> rw [hdb] at h h'
  · rw [h, h']
  · obtain ⟨s, m, hd, -, rfl⟩ := h
    obtain ⟨s', m', hd', -, rfl⟩ := h'
    rw [hd] at hd'
    cases hd'
    rfl

/-! ### Files that were cut short -/

theorem decodeSnapshot_not_json {raw : Bytes} (hm : snapshotMagic.isPrefixOf raw = false)
    (hs : raw = [] ∨ raw.head? = some 65) :
    decodeSnapshot json raw = .error (incompatible "cannot parse db snapshot") := by
  have hj : json.snapshot raw = none := by
    rcases hp : json.snapshot raw with _ | s
    · rfl
    · have hstart := json.snapshot_start hp
      exact hs.elim (absurd · hstart.1) (absurd · hstart.2)
  simp [decodeSnapshot, hm, hj]

/-- A snapshot that was cut short is refused. -/
theorem decodeSnapshot_cut {g : InMemoryGraphStore} (hg : InMemoryGraphStore.codec.Fits g) {j : ℕ}
    (hj : j < (encodeSnapshot (snapshotOf g)).length) :
    ∃ e, decodeSnapshot json ((encodeSnapshot (snapshotOf g)).take j) = .error e := by
  rw [encodeSnapshot_eq] at hj ⊢
  rcases j with _ | _ | _ | _ | _ | _ | j
  · exact ⟨_, decodeSnapshot_not_json json rfl (.inl rfl)⟩
  · exact ⟨_, decodeSnapshot_not_json json rfl (.inr rfl)⟩
  · exact ⟨_, decodeSnapshot_not_json json rfl (.inr rfl)⟩
  · exact ⟨_, decodeSnapshot_not_json json rfl (.inr rfl)⟩
  · exact ⟨_, by simp [decodeSnapshot, snapshotMagic]; rfl⟩
  · exact ⟨_, by simp [decodeSnapshot, snapshotMagic]; rfl⟩
  · have hcut : PersistedSnapshot.codec.get ((PersistedSnapshot.codec.put (snapshotOf g)).take j) =
        none :=
      PersistedSnapshot.codec_lawful.cut_short (snapshotOf_fits hg)
        (properPrefix_take (by simpa using hj))
    have hv : ofLe [1, 0] = storageFormatVersion := rfl
    exact ⟨_, by simp [decodeSnapshot, snapshotMagic, hv, hcut]; rfl⟩

/-! ### Logs that were cut short -/

theorem walBytes_eq (txId : String) (g : InMemoryGraphStore) :
    walBytes txId (snapshotOf g) = 65 :: 71 :: 87 :: 76 :: 1 :: 0 ::
      (leBytes 8 (WalCommitRecord.codec.put ⟨txId, snapshotOf g⟩).length ++
        WalCommitRecord.codec.put ⟨txId, snapshotOf g⟩) := rfl

theorem length_walBytes (txId : String) (g : InMemoryGraphStore) :
    (walBytes txId (snapshotOf g)).length =
      14 + (WalCommitRecord.codec.put ⟨txId, snapshotOf g⟩).length := by
  simp [walBytes_eq]
  omega

theorem decodeEntries_entry {payload r : Bytes} {record : WalCommitRecord}
    (hlen : payload.length < 256 ^ 8) (hget : WalCommitRecord.codec.get payload = some (record, r))
    (latest : Option PersistedSnapshot) :
    decodeEntries latest (leBytes 8 payload.length ++ payload) = .ok (some record.snapshot) := by
  have hentry := decodeEntries_frame hlen [] latest
  rw [List.append_nil, hget] at hentry
  exact hentry.trans (decodeEntries_short (by simp) _)

theorem decodeEntries_record {txId : String} {g : InMemoryGraphStore} (hs : Storable txId g)
    (latest : Option PersistedSnapshot) :
    decodeEntries latest (leBytes 8 (WalCommitRecord.codec.put ⟨txId, snapshotOf g⟩).length ++
      WalCommitRecord.codec.put ⟨txId, snapshotOf g⟩) = .ok (some (snapshotOf g)) := by
  have hget := WalCommitRecord.codec_lawful.get_put
    (a := ⟨txId, snapshotOf g⟩) ⟨rfl, hs.name, snapshotOf_fits hs.graph⟩
  exact decodeEntries_entry hs.record hget latest

/-- A part of the header that is too short to be recognised is read as a line of the older format,
    and refused. -/
theorem decodeLegacyWal_letter {raw : Bytes} {text : String} (hu : ofUtf8 raw = some text)
    (hl : linesFrom [] text.toList = [text]) (ha : text.toList.head? = some 'A') :
    decodeLegacyWal json raw = .error (incompatible "invalid wal entry") := by
  have hrec : json.record text = none := by
    rcases hp : json.record text with _ | r
    · rfl
    · exact absurd ha (json.record_start hp)
  have hblank : text.toList.all isWhitespace = false := by
    obtain ⟨cs, hcs⟩ := List.head?_eq_some_iff.mp ha
    rw [hcs, List.all_cons]
    rfl
  simp only [decodeLegacyWal, hu, hl, List.filter_cons, hblank, Bool.not_false, if_true,
    List.filter_nil, List.foldlM_cons, hrec, bind, Except.bind]

/-- What a recovery reads from a log that was cut after `j` bytes: nothing before the header and
    while the length is incomplete, an error inside the header and inside the record. -/
theorem latestInWal_cut {txId : String} {g : InMemoryGraphStore} (hs : Storable txId g) (j : ℕ) :
    ((j = 0 ∨ (6 ≤ j ∧ j < 14)) →
      latestInWal json ((walBytes txId (snapshotOf g)).take j) = .ok none) ∧
    (((1 ≤ j ∧ j ≤ 5) ∨ (14 ≤ j ∧ j < (walBytes txId (snapshotOf g)).length)) →
      ∃ e, latestInWal json ((walBytes txId (snapshotOf g)).take j) = .error e) ∧
    (j = (walBytes txId (snapshotOf g)).length →
      latestInWal json ((walBytes txId (snapshotOf g)).take j) = .ok (some (snapshotOf g))) := by
  have hv : ofLe [1, 0] = storageFormatVersion := rfl
  refine ⟨?_, ?_, ?_⟩
  · rintro (rfl | ⟨h6, h14⟩)
    · rfl
    · obtain ⟨i, rfl⟩ := Nat.exists_eq_add_of_le' h6
      rw [walBytes_eq]
      simp only [List.take_succ_cons, latestInWal, walMagic, List.isPrefixOf, BEq.rfl, Bool.and_true,
        if_true, decodeBinaryWal]
      simp [hv, decodeEntries_short, show i < 8 by omega]
  · rintro (⟨h1, h5⟩ | ⟨h14, hlt⟩)
    · obtain rfl | rfl | rfl | rfl | rfl : j = 1 ∨ j = 2 ∨ j = 3 ∨ j = 4 ∨ j = 5 := by omega
      · have hu : ofUtf8 [65] = some "A" := by decide
        exact ⟨_, decodeLegacyWal_letter json hu (by decide) (by decide)⟩
      · have hu : ofUtf8 [65, 71] = some "AG" := by decide
        exact ⟨_, decodeLegacyWal_letter json hu (by decide) (by decide)⟩
      · have hu : ofUtf8 [65, 71, 87] = some "AGW" := by decide
        exact ⟨_, decodeLegacyWal_letter json hu (by decide) (by decide)⟩
      · exact ⟨_, rfl⟩
      · exact ⟨_, rfl⟩
    · rw [length_walBytes] at hlt
      obtain ⟨i, rfl⟩ := Nat.exists_eq_add_of_le h14
      have htake : (walBytes txId (snapshotOf g)).take (14 + i) = 65 :: 71 :: 87 :: 76 :: 1 :: 0 ::
          (leBytes 8 (WalCommitRecord.codec.put ⟨txId, snapshotOf g⟩).length ++
            (WalCommitRecord.codec.put ⟨txId, snapshotOf g⟩).take i) := by
        rw [walBytes_eq, show 14 + i = (8 + i) + 6 by omega]
        simp only [List.take_succ_cons]
        rw [List.take_append, length_leBytes, List.take_of_length_le (by simp),
          Nat.add_sub_cancel_left]
      refine ⟨incompatible "truncated wal entry payload", ?_⟩
      rw [htake]
      simp only [latestInWal, walMagic, List.isPrefixOf, BEq.rfl, Bool.and_true, if_true,
        decodeBinaryWal]
      simp only [List.length_cons, List.drop_succ_cons, List.drop_zero, List.take_succ_cons,
        List.take_zero, hv, ne_eq, not_true_eq_false, if_false]
      rw [if_neg (by simp), decodeEntries_cut hs.record (by rw [List.length_take]; omega)]
  · rintro rfl
    rw [List.take_length, walBytes_eq]
    simp [latestInWal, walMagic, decodeBinaryWal, hv, decodeEntries_record hs]

/-! ### Starting again -/

/-- The two ways to start: a new manager reads the snapshot, a recovery the log first. -/
inductive Start where
  | new
  | recover

def start (f : Files) : Start → Except GraphDbError (InMemoryGraphStore × Files)
  | .new => loadOrInit json f
  | .recover => Library.recover json f

/-- Every start of a sequence of starts succeeds with a graph in `P`. -/
def Yields (P : InMemoryGraphStore → Prop) : List Start → Files → Prop
  | [], _ => True
  | s :: ss, f => ∃ g f', start json f s = .ok (g, f') ∧ P g ∧ Yields P ss f'

/-- A recovery with nothing to restore starts from the snapshot. -/
theorem start_recover_none {f : Files} (hw : walSnapshot json f = .ok none) :
    start json f .recover = loadOrInit json f := by
  rw [start, Library.recover]
  rcases hf : f.wal with _ | raw
  · rfl
  · simp only [walSnapshot, hf] at hw
    simp only [hw, bind, Except.bind]

/-- A recovery with a snapshot to restore writes and returns it. -/
theorem start_recover_some {f : Files} {s : PersistedSnapshot}
    (hw : walSnapshot json f = .ok (some s)) :
    start json f .recover = .ok (s.graph, { f with db := some (encodeSnapshot s) }) := by
  rw [start, Library.recover]
  rcases hf : f.wal with _ | raw
  · simp [walSnapshot, hf] at hw
  · simp only [walSnapshot, hf] at hw
    simp only [hw, bind, Except.bind, done_persistSnapshot, hf]

/-- A recovery that cannot read the log fails. -/
theorem start_recover_error {f : Files} {e : GraphDbError} (hw : walSnapshot json f = .error e) :
    start json f .recover = .error e := by
  rw [start, Library.recover]
  rcases hf : f.wal with _ | raw
  · simp [walSnapshot, hf] at hw
  · simp only [walSnapshot, hf] at hw
    simp only [hw, bind, Except.bind]

/-- Loading does not touch the log. -/
theorem loadOrInit_wal {f f' : Files} {g : InMemoryGraphStore}
    (h : loadOrInit json f = .ok (g, f')) : f'.wal = f.wal := by
  have key {f : Files} (h : loadGraph json f = .ok (g, f')) : f'.wal = f.wal := by
    unfold loadGraph at h
    rcases hdb : f.db with _ | raw
    · simp [hdb] at h
    rcases hdec : decodeSnapshot json raw with e | ⟨s, _ | _⟩ <;>
      simp only [hdb, hdec, bind, Except.bind, reduceCtorEq] at h
    all_goals
      split at h
      · cases h
      · obtain ⟨-, rfl⟩ := Prod.mk.inj (Except.ok.inj h)
        simp
  unfold loadOrInit at h
  split at h
  · simpa using key h
  · exact key h

/-- Files whose log has nothing to restore give the graph of the snapshot to every start. -/
theorem yields_of_dbHolds {P : InMemoryGraphStore → Prop} {g : InMemoryGraphStore} (hP : P g) :
    ∀ (ss : List Start) {f : Files}, walSnapshot json f = .ok none → DbHolds json f g →
      Yields json P ss f
  | [], _, _, _ => trivial
  | s :: ss, f, hw, hd => by
    obtain ⟨f', hl⟩ := (loadOrInit_iff json).mpr hd
    have hs : start json f s = .ok (g, f') := by
      cases s
      · exact hl
      · rw [start_recover_none json hw, hl]
    have hd' : DbHolds json f' g := by
      have hl' := loadOrInit_stable json hl
      rcases hdb : f'.db with _ | raw
      · simp [loadGraph, hdb] at hl'
      · exact (loadGraph_iff json hdb).mp ⟨f', hl'⟩
    have hw' : walSnapshot json f' = .ok none := by
      rw [walSnapshot, loadOrInit_wal json hl]
      exact hw
    exact ⟨g, f', hs, hP, yields_of_dbHolds hP ss hw' hd'⟩

/-- Files whose log restores the graph that the snapshot holds give it to every start. -/
theorem yields_of_both {P : InMemoryGraphStore → Prop} {g : InMemoryGraphStore} (hP : P g)
    (hg : InMemoryGraphStore.codec.Fits g) :
    ∀ (ss : List Start) {f : Files}, walSnapshot json f = .ok (some (snapshotOf g)) →
      f.db = some (encodeSnapshot (snapshotOf g)) → Yields json P ss f
  | [], _, _, _ => trivial
  | .new :: ss, f, hw, hdb => by
    have hl : loadOrInit json f = .ok (g, f) := by
      rw [loadOrInit, hdb]
      exact loadGraph_encoded json hg hdb
    exact ⟨g, f, hl, hP, yields_of_both hP hg ss hw hdb⟩
  | .recover :: ss, f, hw, hdb =>
    ⟨g, _, start_recover_some json hw, hP, yields_of_both hP hg ss hw rfl⟩

/-- A log that restores a graph gives it to every recovery. -/
theorem yields_recover {P : InMemoryGraphStore → Prop} {s : PersistedSnapshot} (hP : P s.graph) :
    ∀ (n : ℕ) {f : Files}, walSnapshot json f = .ok (some s) →
      Yields json P (List.replicate n .recover) f
  | 0, _, _ => trivial
  | n + 1, _, hw => ⟨s.graph, _, start_recover_some json hw, hP, yields_recover hP n hw⟩

/-! ### Where a commit may stop -/

/-- A start after a crash gives the old or the new graph. -/
def Survives (g g' : InMemoryGraphStore) (f : Files) : Prop :=
  ∀ s, Yields json (fun x => x = g ∨ x = g') [s] f

/-- Every later recovery gives the old graph. -/
def Reverts (g : InMemoryGraphStore) (f : Files) : Prop :=
  ∀ n, Yields json (· = g) (List.replicate n .recover) f

theorem not_survives_of_error {f : Files} {g g' : InMemoryGraphStore} {e : GraphDbError} {s : Start}
    (h : start json f s = .error e) : ¬ Survives json g g' f := by
  intro hs
  obtain ⟨x, f', hok, -⟩ := hs s
  rw [h] at hok
  cases hok

/-- Where the log has nothing to restore, the snapshot decides. -/
theorem atomic_of_none {f : Files} {g g' : InMemoryGraphStore}
    (hw : walSnapshot json f = .ok none) :
    (Survives json g g' f ∧ Reverts json g f) ↔ DbHolds json f g := by
  constructor
  · rintro ⟨-, hr⟩
    obtain ⟨x, f', hok, rfl, -⟩ := hr 1
    rw [start_recover_none json hw] at hok
    exact (loadOrInit_iff json).mp ⟨f', hok⟩
  · intro hd
    exact ⟨fun s => yields_of_dbHolds json (.inl rfl) _ hw hd,
      fun n => yields_of_dbHolds json (P := (· = g)) rfl _ hw hd⟩

/-- Where the log restores a snapshot, it has to be the old graph, and the other start must find
    one of the two. -/
theorem atomic_of_some {f : Files} {g g' : InMemoryGraphStore} {s : PersistedSnapshot}
    (hw : walSnapshot json f = .ok (some s)) :
    (Survives json g g' f ∧ Reverts json g f) ↔
      s.graph = g ∧ (DbHolds json f g ∨ DbHolds json f g') := by
  constructor
  · rintro ⟨hs, hr⟩
    obtain ⟨x, f', hok, rfl, -⟩ := hr 1
    rw [start_recover_some json hw] at hok
    obtain ⟨y, f'', hnew, hy, -⟩ := hs .new
    have hd := (loadOrInit_iff json).mp ⟨f'', hnew⟩
    refine ⟨(Prod.mk.inj (Except.ok.inj hok)).1, ?_⟩
    rcases hy with rfl | rfl
    · exact .inl hd
    · exact .inr hd
  · rintro ⟨rfl, hd⟩
    refine ⟨fun st => ?_, fun n => yields_recover json (P := (· = s.graph)) rfl n hw⟩
    cases st with
    | new =>
      rcases hd with hd | hd <;> obtain ⟨f', hl⟩ := (loadOrInit_iff json).mpr hd
      · exact ⟨_, f', hl, .inl rfl, trivial⟩
      · exact ⟨_, f', hl, .inr rfl, trivial⟩
    | recover => exact ⟨_, _, start_recover_some json hw, .inl rfl, trivial⟩

/-- The commit of the session `s` of `t`, stopped after `k` effects, is atomic: after a crash both
    starts give the old or the new graph, after a success every start gives the new one, and after
    an error the manager and every later recovery have the old one. -/
def CommitAtomic (t : TransactionManager) (txId : String) (s : TxSession) (k : ℕ) : Prop :=
  let effects := persistAfterWal txId s.graph
  Survives json t.baseGraph s.graph (after applyEffect k effects t.storage) ∧
  (k = effects.length → ∀ t', t.commit txId none = some (t', .ok) →
    ∀ ss, Yields json (· = s.graph) ss t'.storage) ∧
  (k < effects.length → ∀ t' e, t.commit txId (some k) = some (t', .error e) →
    t'.currentGraph = t.baseGraph ∧ Reverts json t.baseGraph t'.storage)

/-- The stops after which nothing is lost: the end; right after the log was emptied, or after its
    header and before its record's length is complete, when the snapshot on disk holds the old
    graph; after the whole log, when in addition the commit changes nothing; and before the first
    effect, when what the log then holds restores the old graph or nothing. -/
def SafeStop (f : Files) (txId : String) (g g' : InMemoryGraphStore) (k : ℕ) : Prop :=
  k = (persistAfterWal txId g').length ∨
  (DbHolds json f g ∧ (k = 1 ∨ (7 ≤ k ∧ k ≤ 14) ∨
    (k = 1 + (walBytes txId (snapshotOf g')).length ∧ g' = g))) ∨
  (k = 0 ∧ match walSnapshot json f with
    | .error _ => False
    | .ok none => DbHolds json f g
    | .ok (some s) => s.graph = g ∧ (DbHolds json f g ∨ DbHolds json f g'))

theorem commit_stop {t : TransactionManager} {txId : String} {s : TxSession}
    (hg : t.sessions[txId]? = some s) (hv : s.baseVersion = t.graphVersion) (k : ℕ) :
    t.commit txId (some k) = some ({ t with
      sessions := t.sessions.erase txId
      storage := after applyEffect k (persistAfterWal txId s.graph) t.storage },
      .error (stopError txId s.graph k)) := by
  simp [commit, hg, hv, persist]

theorem commit_done {t t' : TransactionManager} {txId : String} {s : TxSession} {r : Reply}
    (hg : t.sessions[txId]? = some s) (hv : s.baseVersion = t.graphVersion)
    (hc : t.commit txId none = some (t', r)) :
    t'.storage = ⟨some (encodeSnapshot (snapshotOf s.graph)),
      some (walBytes txId (snapshotOf s.graph))⟩ := by
  simp only [commit, hg, hv, persist, ne_eq, not_true_eq_false, if_false, done_persistAfterWal,
    Option.bind_eq_bind, Option.bind_eq_some_iff] at hc
  obtain ⟨v, -, hc⟩ := hc
  obtain ⟨rfl, -⟩ := Prod.mk.inj (Option.some.inj hc)
  rfl

/-- The three parts of atomicity, as facts about the files at the stop. -/
theorem commitAtomic_iff_files {t : TransactionManager} {txId : String} {s : TxSession}
    (hg : t.sessions[txId]? = some s) (hv : s.baseVersion = t.graphVersion) {k : ℕ}
    (hk : k < (persistAfterWal txId s.graph).length) :
    CommitAtomic json t txId s k ↔
      Survives json t.baseGraph s.graph
        (after applyEffect k (persistAfterWal txId s.graph) t.storage) ∧
      Reverts json t.baseGraph
        (after applyEffect k (persistAfterWal txId s.graph) t.storage) := by
  constructor
  · rintro ⟨ha, -, hc⟩
    exact ⟨ha, (hc hk _ _ (commit_stop hg hv k)).2⟩
  · rintro ⟨ha, hr⟩
    refine ⟨ha, fun h => absurd h (by omega), fun _ t' e hc => ?_⟩
    rw [commit_stop hg hv k] at hc
    obtain ⟨rfl, -⟩ := Prod.mk.inj (Option.some.inj hc)
    exact ⟨rfl, hr⟩

theorem commitAtomic_done {t : TransactionManager} {txId : String} {s : TxSession}
    (hs : Storable txId s.graph) (hg : t.sessions[txId]? = some s)
    (hv : s.baseVersion = t.graphVersion) :
    CommitAtomic json t txId s (persistAfterWal txId s.graph).length := by
  have hw (f : Files) (hf : f.wal = some (walBytes txId (snapshotOf s.graph))) :
      walSnapshot json f = .ok (some (snapshotOf s.graph)) := by
    simp only [walSnapshot, hf]
    have := (latestInWal_cut json hs _).2.2 rfl
    rwa [List.take_length] at this
  refine ⟨fun st => ?_, fun _ t' hc ss => ?_, fun h => absurd h (by omega)⟩
  · rw [after_of_length_le _ le_rfl, done_persistAfterWal]
    exact yields_of_both json (.inr rfl) hs.graph [st] (hw _ rfl) rfl
  · rw [commit_done hg hv hc]
    exact yields_of_both json (P := (· = s.graph)) rfl hs.graph ss (hw _ rfl) rfl

/-- A stop inside the snapshot leaves a file that a new manager refuses. -/
theorem start_new_cut (txId : String) {g : InMemoryGraphStore}
    (hg : InMemoryGraphStore.codec.Fits g) {j : ℕ}
    (hj : j < (encodeSnapshot (snapshotOf g)).length) (f : Files) :
    ∃ e, start json (after applyEffect (2 + (walBytes txId (snapshotOf g)).length + j)
      (persistAfterWal txId g) f) .new = .error e := by
  obtain ⟨e, he⟩ := decodeSnapshot_cut json hg hj
  rw [after_persistAfterWal_snapshot]
  exact ⟨e, by simp [start, loadOrInit, loadGraph, he, bind, Except.bind]⟩

/-- A commit is atomic exactly at the safe stops. -/
theorem commit_atomic_iff {t : TransactionManager} {txId : String} {s : TxSession} {k : ℕ}
    (hg : t.sessions[txId]? = some s) (hv : s.baseVersion = t.graphVersion)
    (hs : Storable txId s.graph) (hk : k ≤ (persistAfterWal txId s.graph).length) :
    CommitAtomic json t txId s k ↔ SafeStop json t.storage txId t.baseGraph s.graph k := by
  have hlen := length_persistAfterWal txId s.graph
  have hwlen := length_walBytes txId s.graph
  rcases Nat.eq_or_lt_of_le hk with rfl | hlt
  · exact ⟨fun _ => .inl rfl, fun _ => commitAtomic_done json hs hg hv⟩
  rw [commitAtomic_iff_files json hg hv hlt]
  rcases Nat.eq_zero_or_pos k with rfl | hpos
  · -- nothing was written: the files are those of before the commit
    rw [after_zero]
    have hsafe : SafeStop json t.storage txId t.baseGraph s.graph 0 ↔
        match walSnapshot json t.storage with
        | .error _ => False
        | .ok none => DbHolds json t.storage t.baseGraph
        | .ok (some s') => s'.graph = t.baseGraph ∧
            (DbHolds json t.storage t.baseGraph ∨ DbHolds json t.storage s.graph) := by
      simp only [SafeStop]
      constructor
      · rintro (h | ⟨-, h | h | h⟩ | ⟨-, h⟩)
        · omega
        · omega
        · omega
        · omega
        · exact h
      · exact fun h => .inr (.inr ⟨trivial, h⟩)
    rw [hsafe]
    rcases hw : walSnapshot json t.storage with e | _ | s'
    · simp [not_survives_of_error json (start_recover_error json hw)]
    · exact atomic_of_none json hw
    · exact atomic_of_some json hw
  by_cases hlog : k ≤ 1 + (walBytes txId (snapshotOf s.graph)).length
  · -- the stop is in the log: the snapshot is the old one
    obtain ⟨j, rfl⟩ : ∃ j, k = 1 + j := ⟨k - 1, by omega⟩
    have hj : j ≤ (walBytes txId (snapshotOf s.graph)).length := by omega
    rw [after_persistAfterWal_log hj]
    set f : Files := { t.storage with wal := some ((walBytes txId (snapshotOf s.graph)).take j) }
    have hd (x : InMemoryGraphStore) : DbHolds json f x ↔ DbHolds json t.storage x :=
      DbHolds.congr json rfl
    have hcut : walSnapshot json f =
        latestInWal json ((walBytes txId (snapshotOf s.graph)).take j) := rfl
    obtain ⟨hnone, herr, hsome⟩ := latestInWal_cut json hs j
    rw [← hcut] at hnone herr hsome
    by_cases h₁ : j = 0 ∨ (6 ≤ j ∧ j < 14)
    · rw [atomic_of_none json (hnone h₁), hd]
      refine ⟨fun h => .inr (.inl ⟨h, by omega⟩), ?_⟩
      rintro (h | ⟨h, -⟩ | ⟨h, -⟩)
      · omega
      · exact h
      · omega
    · by_cases h₂ : j = (walBytes txId (snapshotOf s.graph)).length
      · rw [atomic_of_some json (hsome h₂), hd, hd]
        constructor
        · rintro ⟨he, h⟩
          have he : s.graph = t.baseGraph := he
          rw [he, or_self] at h
          exact .inr (.inl ⟨h, .inr (.inr ⟨by omega, he⟩)⟩)
        · rintro (h | ⟨h, h' | h' | ⟨-, h'⟩⟩ | ⟨h, -⟩)
          · omega
          · omega
          · omega
          · exact ⟨h', .inl h⟩
          · omega
      · obtain ⟨e, he⟩ := herr (by omega)
        have hno : ¬ Survives json t.baseGraph s.graph f :=
          not_survives_of_error json (start_recover_error json he)
        refine ⟨fun h => absurd h.1 hno, ?_⟩
        rintro (h | ⟨-, h | h | ⟨h, -⟩⟩ | ⟨h, -⟩) <;> omega
  · -- the stop is in the snapshot: it is cut short, and a new manager is refused
    obtain ⟨j, rfl⟩ : ∃ j, k = 2 + (walBytes txId (snapshotOf s.graph)).length + j :=
      ⟨k - 2 - (walBytes txId (snapshotOf s.graph)).length, by omega⟩
    obtain ⟨e, hnew⟩ := start_new_cut json txId hs.graph (j := j) (by omega) t.storage
    refine ⟨fun h => absurd h.1 (not_survives_of_error json hnew), ?_⟩
    rintro (h | ⟨-, h | h | ⟨h, -⟩⟩ | ⟨h, -⟩) <;> omega

/-- A graph that once had a node. -/
def usedGraph : InMemoryGraphStore := ⟨∅, ∅, 1, 0⟩

/-- A session on an empty directory whose graph is `usedGraph`. -/
def usedSession : TransactionManager :=
  { TransactionManager.empty with
    txSeq := 1
    sessions := (∅ : Std.ExtTreeMap String TxSession).insert "tx-1" ⟨usedGraph, 0⟩ }

theorem usedSession_run : Trace step .empty
    [(.begin, .began "tx-1"), (.graphMut "tx-1" fun _ => usedGraph, .ok)] usedSession := by
  have h₁ : step .empty .begin = some ({ TransactionManager.empty with
      txSeq := 1
      sessions := (∅ : Std.ExtTreeMap String TxSession).insert "tx-1" ⟨.new, 0⟩ }, .began "tx-1") :=
    rfl
  refine .snoc (.snoc .nil h₁) ?_
  rfl

theorem storable_usedGraph : Storable "tx-1" usedGraph where
  graph := InMemoryGraphStore.codec_fits_empty 1 0
  name := Bincode.string_fits.mpr (by decide)
  record := by decide

theorem length_encodeSnapshot (snapshot : PersistedSnapshot) :
    (encodeSnapshot snapshot).length = 6 + (PersistedSnapshot.codec.put snapshot).length := by
  simp [encodeSnapshot_eq]
  omega

/-- The first commit of a fresh store, stopped when it has emptied the snapshot: the 94 effects are
    the log with its 92 bytes and the truncation of the snapshot. A new manager is refused. -/
theorem commit_not_atomic : ∃ t s,
    (∃ h, Trace step .empty h t) ∧ t.sessions["tx-1"]? = some s ∧
      s.baseVersion = t.graphVersion ∧ 94 < (persistAfterWal "tx-1" s.graph).length ∧
      ¬ CommitAtomic LegacyJson.rejecting t "tx-1" s 94 := by
  have hw : (walBytes "tx-1" (snapshotOf usedGraph)).length = 92 := by decide
  refine ⟨usedSession, ⟨usedGraph, 0⟩, ⟨_, usedSession_run⟩, rfl, rfl, ?_, fun h => ?_⟩
  · rw [length_persistAfterWal, hw, length_encodeSnapshot]
    omega
  · have hpos : 0 < (encodeSnapshot (snapshotOf usedGraph)).length := by
      rw [length_encodeSnapshot]
      omega
    obtain ⟨e, he⟩ : ∃ e, start .rejecting (after applyEffect 94
        (persistAfterWal "tx-1" usedGraph) usedSession.storage) .new = .error e := by
      have := start_new_cut .rejecting "tx-1" storable_usedGraph.graph hpos usedSession.storage
      rwa [hw] at this
    exact not_survives_of_error _ he h.1

/-- The same commit, stopped when the log has its header: the old graph survives. -/
theorem commit_atomic_at_header :
    CommitAtomic LegacyJson.rejecting usedSession "tx-1" ⟨usedGraph, 0⟩ 7 ↔
      SafeStop LegacyJson.rejecting usedSession.storage "tx-1" .new usedGraph 7 :=
  commit_atomic_iff LegacyJson.rejecting (t := usedSession) rfl rfl storable_usedGraph
    (by rw [length_persistAfterWal, length_walBytes]; omega)

end AiraGraphdb.Library.CommitCrash
