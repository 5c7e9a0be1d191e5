import AiraGraphdb.Library.CommitCrash
import AiraGraphdb.Library.WalDecoder
import AiraGraphdb.Schemes.Except

/-! # The entry points of the storage engine

The five functions that a session opens, recovers and annotates its files with, each with the files
it leaves when it fails. The catalog version is checked where the graph is loaded and nowhere else:
the metadata of an incompatible file is handed out, and a log with an incompatible snapshot is
replayed over the file. A recovery comes back only if it gets the buffers that the lengths in its
log ask for. -/

namespace AiraGraphdb.Library.Engine

open Schemes CommitCrash

variable (json : LegacyJson)

def loadGraph (f : Files) : Except GraphDbError InMemoryGraphStore × Files :=
  match f.db with
  | none => (.error (incompatible "cannot read db file"), f)
  | some raw => match decodeSnapshot json raw with
    | .error e => (.error e, f)
    | .ok (snapshot, migrated) =>
      if snapshot.catalogVersion ≠ currentCatalogVersion then
        (.error (incompatible ("catalog version mismatch: expected 1, got " ++
          snapshot.catalogVersion.toNat.repr)), f)
      else if migrated then
        (.ok snapshot.graph, done applyEffect (persistSnapshotFromStruct snapshot) f)
      else (.ok snapshot.graph, f)

def loadOrInit (f : Files) : Except GraphDbError InMemoryGraphStore × Files :=
  match f.db with
  | none => loadGraph json (done applyEffect (persistSnapshotFromStruct (snapshotOf .new)) f)
  | some _ => loadGraph json f

def loadClusterMetadata (f : Files) : Except GraphDbError ClusterMetadataCatalog × Files :=
  match f.db with
  | none => (.error (incompatible "cannot read db file"), f)
  | some raw => match decodeSnapshot json raw with
    | .error e => (.error e, f)
    | .ok (snapshot, migrated) =>
      if migrated then
        (.ok snapshot.clusterMetadata, done applyEffect (persistSnapshotFromStruct snapshot) f)
      else (.ok snapshot.clusterMetadata, f)

def persistClusterMetadata (metadata : ClusterMetadataCatalog) (f : Files) :
    Except GraphDbError Unit × Files :=
  let loaded : Except GraphDbError InMemoryGraphStore × Files := match f.db with
    | none => (.ok .new, f)
    | some _ => loadGraph json f
  match loaded with
  | (.error e, f) => (.error e, f)
  | (.ok graph, f) => (.ok (),
      done applyEffect (persistSnapshotFromStruct ⟨currentCatalogVersion, metadata, graph⟩) f)

def recover (f : Files) : Except GraphDbError InMemoryGraphStore × Files :=
  match f.wal with
  | none => loadOrInit json f
  | some raw => match latestInWal json raw with
    | .error e => (.error e, f)
    | .ok (some snapshot) =>
      (.ok snapshot.graph, done applyEffect (persistSnapshotFromStruct snapshot) f)
    | .ok none => loadOrInit json f

/-! ### With and without the files of a failure -/

theorem loadGraph_eq (f : Files) : loadGraph json f = match Library.loadGraph json f with
    | .ok (g, f') => (.ok g, f')
    | .error e => (.error e, f) := by
  rw [loadGraph, Library.loadGraph]
  rcases hdb : f.db with _ | raw
  · rfl
  · dsimp only
    rcases decodeSnapshot json raw with e | ⟨snapshot, migrated⟩
    · rfl
    · simp only [bind, Except.bind]
      split_ifs <;> rfl

theorem loadGraph_ok {f f' : Files} {g : InMemoryGraphStore} :
    loadGraph json f = (.ok g, f') ↔ Library.loadGraph json f = .ok (g, f') := by
  rw [loadGraph_eq]
  rcases Library.loadGraph json f with e | ⟨g', f''⟩
  · simp
  · simp

theorem loadOrInit_eq (f : Files) : loadOrInit json f = match Library.loadOrInit json f with
    | .ok (g, f') => (.ok g, f')
    | .error e => (.error e, f) := by
  rw [loadOrInit, Library.loadOrInit]
  rcases hdb : f.db with _ | raw
  · dsimp only
    rw [loadGraph_eq, done_persistSnapshot, loadGraph_encoded json
      (InMemoryGraphStore.codec_fits_empty 0 0) rfl]
  · exact loadGraph_eq json f

theorem recover_eq (f : Files) : recover json f = match Library.recover json f with
    | .ok (g, f') => (.ok g, f')
    | .error e => (.error e, f) := by
  rw [recover, Library.recover]
  rcases hwal : f.wal with _ | raw
  · exact loadOrInit_eq json f
  · dsimp only
    rcases latestInWal json raw with e | _ | snapshot
    · rfl
    · exact loadOrInit_eq json f
    · rfl

/-! ### Errors -/

theorem decodeSnapshot_code {raw : Bytes} {e : GraphDbError}
    (h : decodeSnapshot json raw = .error e) : e.code = .incompatibleFormat := by
  unfold decodeSnapshot at h
  repeat' split at h
  all_goals cases h
  all_goals rfl

theorem decodeEntries_code {latest : Option PersistedSnapshot} {raw : Bytes} {e : GraphDbError}
    (h : decodeEntries latest raw = .error e) : e.code = .incompatibleFormat := by
  induction latest, raw using decodeEntries.induct with
  | case1 latest raw hlen len hle record rest hget ih =>
    rw [decodeEntries, if_pos hlen] at h
    simp only [len] at hle hget
    rw [if_pos hle, hget] at h
    exact ih h
  | case2 latest raw hlen len hle hget =>
    rw [decodeEntries, if_pos hlen] at h
    simp only [len] at hle hget
    rw [if_pos hle, hget] at h
    cases h
    rfl
  | case3 latest raw hlen len hle =>
    rw [decodeEntries, if_pos hlen] at h
    simp only [len] at hle
    rw [if_neg hle] at h
    cases h
    rfl
  | case4 latest raw hlen =>
    rw [decodeEntries, if_neg hlen] at h
    cases h

theorem latestInWal_code {raw : Bytes} {e : GraphDbError}
    (h : latestInWal json raw = .error e) : e.code = .incompatibleFormat := by
  unfold latestInWal at h
  split_ifs at h
  · unfold decodeBinaryWal at h
    split_ifs at h
    · cases h
      rfl
    · cases h
      rfl
    · exact decodeEntries_code h
  · unfold decodeLegacyWal at h
    split at h
    · cases h
      rfl
    · refine foldlM_error (P := fun e => e.code = .incompatibleFormat) ?_ h
      intro _ line e' hline
      rcases hrecord : json.record line with _ | record
      · rw [hrecord] at hline
        cases hline
        rfl
      · rw [hrecord] at hline
        cases hline

/-! ### Snapshots that are read -/

theorem decodeSnapshot_fits {raw : Bytes} {s : PersistedSnapshot} {migrated : Bool}
    (h : decodeSnapshot json raw = .ok (s, migrated)) : PersistedSnapshot.codec.Fits s := by
  unfold decodeSnapshot at h
  split_ifs at h
  · rcases hget : PersistedSnapshot.codec.get (raw.drop 6) with _ | ⟨s', r⟩
    · rw [hget] at h
      cases h
    · rw [hget] at h
      cases h
      exact PersistedSnapshot.codec_readsFit _ _ _ hget
  · rcases hs : json.snapshot raw with _ | s'
    · rw [hs] at h
      cases h
    · rw [hs] at h
      cases h
      exact json.snapshot_fits hs

theorem decodeEntries_fits {latest : Option PersistedSnapshot} {raw : Bytes} {s : PersistedSnapshot}
    (hlatest : ∀ s, latest = some s → PersistedSnapshot.codec.Fits s)
    (h : decodeEntries latest raw = .ok (some s)) : PersistedSnapshot.codec.Fits s := by
  induction latest, raw using decodeEntries.induct with
  | case1 latest raw hlen len hle record rest hget ih =>
    rw [decodeEntries, if_pos hlen] at h
    simp only [len] at hle hget
    rw [if_pos hle, hget] at h
    refine ih ?_ h
    rintro _ ⟨⟩
    exact (WalCommitRecord.codec_readsFit _ _ _ hget).2.2
  | case2 latest raw hlen len hle hget =>
    rw [decodeEntries, if_pos hlen] at h
    simp only [len] at hle hget
    rw [if_pos hle, hget] at h
    cases h
  | case3 latest raw hlen len hle =>
    rw [decodeEntries, if_pos hlen] at h
    simp only [len] at hle
    rw [if_neg hle] at h
    cases h
  | case4 latest raw hlen =>
    rw [decodeEntries, if_neg hlen] at h
    cases h
    exact hlatest s rfl

theorem latestInWal_fits {raw : Bytes} {s : PersistedSnapshot}
    (h : latestInWal json raw = .ok (some s)) : PersistedSnapshot.codec.Fits s := by
  unfold latestInWal at h
  split_ifs at h
  · unfold decodeBinaryWal at h
    split_ifs at h
    exact decodeEntries_fits (by simp) h
  · unfold decodeLegacyWal at h
    split at h
    · cases h
    · refine foldlM_keeps (P := fun latest => ∀ s, latest = some s → PersistedSnapshot.codec.Fits s)
        (by simp) ?_ h s rfl
      rintro latest latest' line - - hline
      rcases hrecord : json.record line with _ | record
      · rw [hrecord] at hline
        cases hline
      · rw [hrecord] at hline
        cases hline
        rintro _ ⟨⟩
        exact json.record_fits hrecord

/-! ### Refusing incompatible files -/

/-- Metadata in memory, whose lengths can be written. -/
abbrev StorableMetadata := {metadata : ClusterMetadataCatalog //
  ClusterMetadataCatalog.codec.Fits metadata}

inductive Operation
  | loadOrInit
  | loadGraph
  | loadClusterMetadata
  | persistClusterMetadata (metadata : StorableMetadata)
  | recover

/-- The graph that is returned, by an operation that returns one, and the files that are left. -/
def Operation.run (f : Files) : Operation → Except GraphDbError (Option InMemoryGraphStore) × Files
  | .loadOrInit => (Engine.loadOrInit json f).map (·.map some) id
  | .loadGraph => (Engine.loadGraph json f).map (·.map some) id
  | .loadClusterMetadata => (Engine.loadClusterMetadata json f).map (·.map fun _ => none) id
  | .persistClusterMetadata metadata =>
    (Engine.persistClusterMetadata json metadata.1 f).map (·.map fun _ => none) id
  | .recover => (Engine.recover json f).map (·.map some) id

/-- The graph in the snapshot file, whatever its catalog version; a store without one is new. -/
def FileGraph (f : Files) (g : InMemoryGraphStore) : Prop :=
  match f.db with
  | none => g = .new
  | some raw => ∃ snapshot migrated, decodeSnapshot json raw = .ok (snapshot, migrated) ∧
      snapshot.graph = g

/-- Loading finds a snapshot of the current catalog version with this graph. -/
def Loads (f : Files) (g : InMemoryGraphStore) : Prop :=
  (Engine.loadGraph json f).1 = .ok g ∧ DbHolds json f g

/-- It succeeds and the graph that it returned, or kept, can be loaded; or it fails and the files
are as they were. -/
def Settles (op : Operation) (f : Files) : Prop :=
  match op.run json f with
  | (.ok (some g), f') => Loads json f' g
  | (.ok none, f') => ∃ g, FileGraph json f g ∧ Loads json f' g
  | (.error e, f') => e.code = .incompatibleFormat ∧ f' = f

/-- The operation comes back: the decoder of a binary log does. -/
def Operation.Returns (allocates : ℕ → Bool) (f : Files) : Operation → Prop
  | .recover => ∀ raw, f.wal = some raw → walMagic.isPrefixOf raw = true →
      (WalDecoder.decodeBinaryWal allocates raw).Returns
  | _ => True

/-- It comes back and settles. -/
def Clean (allocates : ℕ → Bool) (op : Operation) (f : Files) : Prop :=
  op.Returns allocates f ∧ Settles json op f

/-- Every buffer that the lengths in a binary log ask for can be had. -/
def Served (allocates : ℕ → Bool) (op : Operation) (f : Files) : Prop :=
  match op with
  | .recover => ∀ raw, f.wal = some raw → walMagic.isPrefixOf raw = true →
      ∀ n, WalDecoder.Reaches raw n → Call.Grants allocates n
  | _ => True

/-- What an operation takes over without looking at its catalog version is of the current one. -/
def Current (op : Operation) (f : Files) : Prop :=
  match op with
  | .loadClusterMetadata => ∀ raw snapshot migrated, f.db = some raw →
      decodeSnapshot json raw = .ok (snapshot, migrated) →
      snapshot.catalogVersion = currentCatalogVersion
  | .recover => ∀ raw snapshot, f.wal = some raw → latestInWal json raw = .ok (some snapshot) →
      snapshot.catalogVersion = currentCatalogVersion
  | _ => True

variable {json} {f : Files}

/-- What is in the file can be loaded when its catalog version is the current one. -/
theorem loads_decoded {raw : Bytes} {s : PersistedSnapshot} {migrated : Bool}
    (hdb : f.db = some raw) (hdec : decodeSnapshot json raw = .ok (s, migrated))
    {g : InMemoryGraphStore} :
    Loads json f g ↔ s.catalogVersion = currentCatalogVersion ∧ s.graph = g := by
  simp only [Loads, loadGraph, DbHolds, hdb, hdec]
  constructor
  · rintro ⟨-, s', _, hs, hcat, hg⟩
    cases hs
    exact ⟨hcat, hg⟩
  · rintro ⟨hcat, rfl⟩
    refine ⟨?_, s, migrated, rfl, hcat, rfl⟩
    rw [if_neg (not_not.mpr hcat)]
    cases migrated <;> rfl

theorem loads_encoded {s : PersistedSnapshot} (hs : PersistedSnapshot.codec.Fits s)
    {g : InMemoryGraphStore} :
    Loads json { f with db := some (encodeSnapshot s) } g
      ↔ s.catalogVersion = currentCatalogVersion ∧ s.graph = g :=
  loads_decoded rfl (decodeSnapshot_encode json hs)

theorem fileGraph_decoded {raw : Bytes} {s : PersistedSnapshot} {migrated : Bool}
    (hdb : f.db = some raw) (hdec : decodeSnapshot json raw = .ok (s, migrated))
    {g : InMemoryGraphStore} : FileGraph json f g ↔ s.graph = g := by
  simp only [FileGraph, hdb, hdec]
  constructor
  · rintro ⟨s', _, hs, hg⟩
    cases hs
    exact hg
  · rintro rfl
    exact ⟨s, migrated, rfl, rfl⟩

variable (json) in
/-- What is left loads as the graph that was returned; a failure leaves the files. -/
def LeavesLoadable (f : Files) : Except GraphDbError InMemoryGraphStore × Files → Prop
  | (.ok g, f') => Loads json f' g
  | (.error e, f') => e.code = .incompatibleFormat ∧ f' = f

/-- Loading returns the graph of the file and leaves it in the current form. -/
theorem loadGraph_leaves : LeavesLoadable json f (loadGraph json f)
    ∧ ∀ g f', loadGraph json f = (.ok g, f') → FileGraph json f g := by
  rcases hdb : f.db with _ | raw
  · simp only [loadGraph, hdb]
    exact ⟨⟨rfl, rfl⟩, by simp⟩
  · rcases hdec : decodeSnapshot json raw with e | ⟨s, migrated⟩
    · simp only [loadGraph, hdb, hdec]
      exact ⟨⟨decodeSnapshot_code json hdec, rfl⟩, by simp⟩
    · have hfile := fun g => fileGraph_decoded (g := g) hdb hdec
      simp only [loadGraph, hdb, hdec, done_persistSnapshot]
      by_cases hcat : s.catalogVersion = currentCatalogVersion
      · rw [if_neg (not_not.mpr hcat)]
        cases migrated with
        | false =>
          refine ⟨(loads_decoded hdb hdec).mpr ⟨hcat, rfl⟩, ?_⟩
          rintro g f' ⟨⟩
          exact (hfile _).mpr rfl
        | true =>
          refine ⟨(loads_encoded (decodeSnapshot_fits json hdec)).mpr ⟨hcat, rfl⟩, ?_⟩
          rintro g f' ⟨⟩
          exact (hfile _).mpr rfl
      · rw [if_pos hcat]
        exact ⟨⟨rfl, rfl⟩, by simp⟩

theorem loadOrInit_leaves : LeavesLoadable json f (loadOrInit json f) := by
  rw [loadOrInit]
  rcases hdb : f.db with _ | raw
  · have hfits := snapshotOf_fits (InMemoryGraphStore.codec_fits_empty 0 0)
    have hload : loadGraph json { f with db := some (encodeSnapshot (snapshotOf .new)) }
        = (.ok .new, { f with db := some (encodeSnapshot (snapshotOf .new)) }) :=
      (loadGraph_ok json).mpr (loadGraph_encoded json (InMemoryGraphStore.codec_fits_empty 0 0) rfl)
    simp only [done_persistSnapshot, hload]
    exact (loads_encoded hfits).mpr ⟨rfl, rfl⟩
  · exact loadGraph_leaves.1

/-- An operation that returns a graph settles when what it leaves loads as that graph. -/
theorem settles_of_leaves {op : Operation} {r : Except GraphDbError InMemoryGraphStore × Files}
    (hop : op.run json f = r.map (·.map some) id) : Settles json op f ↔ LeavesLoadable json f r := by
  obtain ⟨e | g, f'⟩ := r
  · rw [Settles, hop]
    rfl
  · rw [Settles, hop]
    rfl

theorem settles_of_error {op : Operation} {e : GraphDbError} (hop : op.run json f = (.error e, f))
    (he : e.code = .incompatibleFormat) : Settles json op f := by
  rw [Settles, hop]
  exact ⟨he, rfl⟩

theorem settles_none {op : Operation} {f' : Files} (hop : op.run json f = (.ok none, f')) :
    Settles json op f ↔ ∃ g, FileGraph json f g ∧ Loads json f' g := by
  rw [Settles, hop]

theorem settles_recover : Settles json .recover f ↔ Current json .recover f := by
  refine (settles_of_leaves (r := Engine.recover json f) rfl).trans ?_
  rw [Current, Engine.recover]
  rcases hwal : f.wal with _ | raw
  · simp only [reduceCtorEq, false_imp_iff, implies_true, iff_true]
    exact loadOrInit_leaves
  · dsimp only
    rcases hlatest : latestInWal json raw with e | _ | s
    · refine iff_of_true ⟨latestInWal_code json hlatest, rfl⟩ ?_
      rintro raw' s ⟨⟩ hs
      rw [hlatest] at hs
      cases hs
    · refine iff_of_true loadOrInit_leaves ?_
      rintro raw' s ⟨⟩ hs
      rw [hlatest] at hs
      cases hs
    · simp only [done_persistSnapshot, LeavesLoadable,
        loads_encoded (latestInWal_fits json hlatest), and_true]
      constructor
      · rintro hcat raw' s' ⟨⟩ hs'
        rw [hlatest] at hs'
        cases hs'
        exact hcat
      · exact fun h => h raw s rfl hlatest

theorem settles_loadClusterMetadata :
    Settles json .loadClusterMetadata f ↔ Current json .loadClusterMetadata f := by
  rw [Current]
  rcases hdb : f.db with _ | raw
  · refine iff_of_true (settles_of_error (e := incompatible "cannot read db file") ?_ rfl) (by simp)
    simp only [Operation.run, loadClusterMetadata, hdb]
    rfl
  · rcases hdec : decodeSnapshot json raw with e | ⟨s, migrated⟩
    · refine iff_of_true (settles_of_error ?_ (decodeSnapshot_code json hdec)) ?_
      · simp only [Operation.run, loadClusterMetadata, hdb, hdec]
        rfl
      · rintro raw' s migrated ⟨⟩ hs
        rw [hdec] at hs
        cases hs
    · have hrun : Operation.run json f .loadClusterMetadata = (.ok none,
          if migrated then { f with db := some (encodeSnapshot s) } else f) := by
        simp only [Operation.run, loadClusterMetadata, hdb, hdec, done_persistSnapshot]
        cases migrated <;> rfl
      have hleft : (∃ g, FileGraph json f g
          ∧ Loads json (if migrated then { f with db := some (encodeSnapshot s) } else f) g)
          ↔ s.catalogVersion = currentCatalogVersion := by
        cases migrated with
        | false => simp [fileGraph_decoded hdb hdec, loads_decoded hdb hdec]
        | true =>
          simp [fileGraph_decoded hdb hdec, loads_encoded (decodeSnapshot_fits json hdec)]
      rw [settles_none hrun, hleft]
      constructor
      · rintro hcat raw' s' migrated' ⟨⟩ hs
        rw [hdec] at hs
        cases hs
        exact hcat
      · exact fun h => h raw s migrated rfl hdec

/-- What is persisted is the metadata beside the graph that was found. -/
theorem run_persist {metadata : StorableMetadata} {f' : Files} {g : InMemoryGraphStore}
    (h : (match f.db with
      | none => (.ok .new, f)
      | some _ => loadGraph json f) = (.ok g, f')) :
    Operation.run json f (.persistClusterMetadata metadata) = (.ok none,
      { f' with db := some (encodeSnapshot ⟨currentCatalogVersion, metadata.1, g⟩) }) := by
  rw [Operation.run, persistClusterMetadata, h]
  simp only [done_persistSnapshot]
  rfl

theorem settles_persistClusterMetadata (metadata : StorableMetadata) :
    Settles json (.persistClusterMetadata metadata) f := by
  have hwritten : ∀ (f' : Files) (g : InMemoryGraphStore), InMemoryGraphStore.codec.Fits g →
      Loads json { f' with
        db := some (encodeSnapshot ⟨currentCatalogVersion, metadata.1, g⟩) } g := by
    intro f' g hg
    exact (loads_encoded ⟨rfl, Bincode.u64_fits _, metadata.2, hg⟩).mpr ⟨rfl, rfl⟩
  rcases hdb : f.db with _ | raw
  · have hfile : FileGraph json f .new := by
      rw [FileGraph, hdb]
    rw [settles_none (run_persist (by rw [hdb]))]
    exact ⟨_, hfile, hwritten f _ (InMemoryGraphStore.codec_fits_empty 0 0)⟩
  · obtain ⟨hleaves, hfile⟩ := @loadGraph_leaves json f
    rcases hrun : loadGraph json f with ⟨e | g, f'⟩
    · rw [hrun] at hleaves
      obtain ⟨he, rfl⟩ := hleaves
      refine settles_of_error ?_ he
      simp only [Operation.run, persistClusterMetadata, hdb, hrun]
      rfl
    · have hfile := hfile g f' hrun
      obtain ⟨s, migrated, hdec, rfl⟩ : ∃ s migrated,
          decodeSnapshot json raw = .ok (s, migrated) ∧ s.graph = g := by
        rwa [FileGraph, hdb] at hfile
      have hg := (decodeSnapshot_fits json hdec).2.2.2
      rw [settles_none (run_persist (by rw [hdb]; exact hrun))]
      exact ⟨_, hfile, hwritten f' _ hg⟩

theorem settles_iff (op : Operation) : Settles json op f ↔ Current json op f := by
  cases op with
  | loadOrInit => exact iff_of_true ((settles_of_leaves rfl).mpr loadOrInit_leaves) trivial
  | loadGraph => exact iff_of_true ((settles_of_leaves rfl).mpr loadGraph_leaves.1) trivial
  | loadClusterMetadata => exact settles_loadClusterMetadata
  | persistClusterMetadata metadata =>
    exact iff_of_true (settles_persistClusterMetadata metadata) trivial
  | recover => exact settles_recover

theorem returns_iff_served {allocates : ℕ → Bool} (op : Operation) :
    op.Returns allocates f ↔ Served allocates op f := by
  cases op with
  | recover => simp only [Operation.Returns, Served, WalDecoder.returns_iff]
  | _ => exact Iff.rfl

/-- An operation comes back, and refuses what it cannot leave loadable and leaves it alone, when and
only when its log asks for no buffer that cannot be had and what it takes over is of the current
catalog version. -/
theorem clean_iff (json : LegacyJson) (allocates : ℕ → Bool) (op : Operation) (f : Files) :
    Clean json allocates op f ↔ Served allocates op f ∧ Current json op f := by
  rw [Clean, returns_iff_served, settles_iff]

/-! ### A newer catalog -/

/-- The empty graph in a file of the next catalog version. -/
def newer : PersistedSnapshot := ⟨2, .initial, .new⟩

theorem newer_fits : PersistedSnapshot.codec.Fits newer := by
  obtain ⟨hcarried, -, hmetadata, hgraph⟩ :=
    snapshotOf_fits (InMemoryGraphStore.codec_fits_empty 0 0)
  exact ⟨rfl, Bincode.u64_fits _, hmetadata, hgraph⟩

theorem latestInWal_newer : latestInWal json (walBytes "t" newer) = .ok (some newer) := by
  have hget := WalCommitRecord.codec_lawful.get_put
    (a := ⟨"t", newer⟩) ⟨rfl, Bincode.string_fits.mpr (by decide), newer_fits⟩
  have hlen : (WalCommitRecord.codec.put ⟨"t", newer⟩).length < 256 ^ 8 := by decide +kernel
  have hentry := decodeEntries_entry hlen hget none
  have hv : ofLe [1, 0] = storageFormatVersion := rfl
  have hbytes : walBytes "t" newer = 65 :: 71 :: 87 :: 76 :: 1 :: 0 ::
      (leBytes 8 (WalCommitRecord.codec.put ⟨"t", newer⟩).length
        ++ WalCommitRecord.codec.put ⟨"t", newer⟩) := rfl
  rw [hbytes]
  simp [latestInWal, walMagic, decodeBinaryWal, hv, hentry]

/-- Its metadata is handed out although the graph cannot be loaded, and a log that holds it is
replayed over a file that could be. -/
theorem newer_catalog_accepted :
    Engine.loadClusterMetadata .rejecting ⟨some (encodeSnapshot newer), none⟩
        = (.ok .initial, ⟨some (encodeSnapshot newer), none⟩)
      ∧ (∀ allocates,
          ¬ Clean .rejecting allocates .loadClusterMetadata ⟨some (encodeSnapshot newer), none⟩)
      ∧ Loads .rejecting ⟨some (encodeSnapshot (snapshotOf .new)), some (walBytes "t" newer)⟩ .new
      ∧ Engine.recover .rejecting
          ⟨some (encodeSnapshot (snapshotOf .new)), some (walBytes "t" newer)⟩
        = (.ok .new, ⟨some (encodeSnapshot newer), some (walBytes "t" newer)⟩)
      ∧ ∀ allocates, ¬ Clean .rejecting allocates .recover
          ⟨some (encodeSnapshot (snapshotOf .new)), some (walBytes "t" newer)⟩ := by
  have hdec := decodeSnapshot_encode .rejecting newer_fits
  have hne : newer.catalogVersion ≠ currentCatalogVersion := by decide
  refine ⟨?_, ?_, ?_, ?_, ?_⟩
  · simp only [Engine.loadClusterMetadata, hdec]
    rfl
  · intro allocates h
    exact hne (settles_loadClusterMetadata.mp h.2 _ _ _ rfl hdec)
  · exact (loads_encoded (f := ⟨none, some (walBytes "t" newer)⟩)
      (snapshotOf_fits (InMemoryGraphStore.codec_fits_empty 0 0))).mpr ⟨rfl, rfl⟩
  · simp only [Engine.recover, latestInWal_newer, done_persistSnapshot]
    rfl
  · intro allocates h
    exact hne (settles_recover.mp h.2 _ _ rfl latestInWal_newer)

end AiraGraphdb.Library.Engine
