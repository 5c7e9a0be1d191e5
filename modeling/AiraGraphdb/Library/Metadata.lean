import AiraGraphdb.Library.Engine

/-! # Cluster metadata beside the graph

Both live in one snapshot. Persisting metadata keeps the graph of the file; a commit writes the
initial metadata with its graph, to the file and to the log, and a recovery replays the log's
snapshot whole. So the graph of the last commit is never lost, and the last metadata exactly when a
commit or a recovery comes after it. -/

namespace AiraGraphdb.Library.Metadata

open Schemes CommitCrash Engine

/-- What is done to the files between the sessions. -/
inductive Access
  | commit (txId : String) (graph : InMemoryGraphStore) (storable : Storable txId graph)
  | recover
  | loadGraph
  | loadClusterMetadata
  | persistClusterMetadata (metadata : StorableMetadata)

/-- The files, the metadata last given to be persisted and the graph last committed. -/
structure Session where
  files : Files
  metadata : Option ClusterMetadataCatalog
  graph : Option InMemoryGraphStore

variable (json : LegacyJson)

/-- The session after an access that succeeds. -/
def step (s : Session) : Access → Option Session
  | .commit txId graph _ =>
    some { s with files := done applyEffect (persistAfterWal txId graph) s.files, graph := some graph }
  | .recover => match Engine.recover json s.files with
    | (.ok _, f) => some { s with files := f }
    | (.error _, _) => none
  | .loadGraph => match Engine.loadGraph json s.files with
    | (.ok _, f) => some { s with files := f }
    | (.error _, _) => none
  | .loadClusterMetadata => match Engine.loadClusterMetadata json s.files with
    | (.ok _, f) => some { s with files := f }
    | (.error _, _) => none
  | .persistClusterMetadata metadata =>
    match Engine.persistClusterMetadata json metadata.1 s.files with
    | (.ok _, f) => some { s with files := f, metadata := some metadata.1 }
    | (.error _, _) => none

/-- Loading gives what was last persisted and what was last committed. -/
structure Kept (s : Session) : Prop where
  metadata : ∀ m, s.metadata = some m → (Engine.loadClusterMetadata json s.files).1 = .ok m
  graph : ∀ g, s.graph = some g → (Engine.loadGraph json s.files).1 = .ok g

/-- The access does not write other metadata than was last persisted: a commit writes the initial
one, a recovery that of the log's snapshot. -/
def Respects (s : Session) : Access → Prop
  | .commit _ _ _ => ∀ m, s.metadata = some m → m = .initial
  | .recover => ∀ m, s.metadata = some m → ∀ raw snapshot, s.files.wal = some raw →
      latestInWal json raw = .ok (some snapshot) → snapshot.clusterMetadata = m
  | _ => True

/-- The sessions of all runs from any files whose accesses succeed and respect the metadata. -/
inductive Reaches (start : Files) : Session → Prop
  | start : Reaches start ⟨start, none, none⟩
  | step {s s' : Session} {a : Access} (h : Reaches start s) (hrespects : Respects json s a)
      (hstep : step json s a = some s') : Reaches start s'

/-! ### What the file holds -/

def Holds (f : Files) (snapshot : PersistedSnapshot) : Prop :=
  ∃ raw migrated, f.db = some raw ∧ decodeSnapshot json raw = .ok (snapshot, migrated)

variable {json} {f f' : Files} {snapshot : PersistedSnapshot}

theorem Holds.unique {snapshot' : PersistedSnapshot} (h : Holds json f snapshot)
    (h' : Holds json f snapshot') : snapshot = snapshot' := by
  obtain ⟨raw, migrated, hdb, hdec⟩ := h
  obtain ⟨raw', migrated', hdb', hdec'⟩ := h'
  rw [hdb] at hdb'
  cases hdb'
  rw [hdec] at hdec'
  cases hdec'
  rfl

theorem Holds.fits (h : Holds json f snapshot) : PersistedSnapshot.codec.Fits snapshot := by
  obtain ⟨raw, migrated, -, hdec⟩ := h
  exact decodeSnapshot_fits json hdec

theorem holds_encoded (h : PersistedSnapshot.codec.Fits snapshot)
    (hdb : f.db = some (encodeSnapshot snapshot)) : Holds json f snapshot :=
  ⟨_, false, hdb, decodeSnapshot_encode json h⟩

/-! ### What an access leaves -/

theorem loadGraph_holds {g : InMemoryGraphStore} (h : Engine.loadGraph json f = (.ok g, f')) :
    ∃ snapshot, Holds json f snapshot ∧ Holds json f' snapshot
      ∧ snapshot.catalogVersion = currentCatalogVersion ∧ snapshot.graph = g ∧ f'.wal = f.wal := by
  rw [Engine.loadGraph] at h
  rcases hdb : f.db with _ | raw
  · rw [hdb] at h
    cases h
  · rcases hdec : decodeSnapshot json raw with e | ⟨snapshot, migrated⟩
    · simp only [hdb, hdec] at h
      cases h
    · have hholds : Holds json f snapshot := ⟨raw, migrated, hdb, hdec⟩
      simp only [hdb, hdec, done_persistSnapshot] at h
      by_cases hcat : snapshot.catalogVersion = currentCatalogVersion
      · rw [if_neg (not_not.mpr hcat)] at h
        cases migrated with
        | false =>
          cases h
          exact ⟨snapshot, hholds, hholds, hcat, rfl, rfl⟩
        | true =>
          cases h
          exact ⟨snapshot, hholds, holds_encoded hholds.fits rfl, hcat, rfl, rfl⟩
      · rw [if_pos hcat] at h
        cases h

theorem loadClusterMetadata_holds {m : ClusterMetadataCatalog}
    (h : Engine.loadClusterMetadata json f = (.ok m, f')) :
    ∃ snapshot, Holds json f snapshot ∧ Holds json f' snapshot
      ∧ snapshot.clusterMetadata = m ∧ f'.wal = f.wal := by
  rw [Engine.loadClusterMetadata] at h
  rcases hdb : f.db with _ | raw
  · rw [hdb] at h
    cases h
  · rcases hdec : decodeSnapshot json raw with e | ⟨snapshot, migrated⟩
    · simp only [hdb, hdec] at h
      cases h
    · have hholds : Holds json f snapshot := ⟨raw, migrated, hdb, hdec⟩
      simp only [hdb, hdec, done_persistSnapshot] at h
      cases migrated with
      | false =>
        cases h
        exact ⟨snapshot, hholds, hholds, rfl, rfl⟩
      | true =>
        cases h
        exact ⟨snapshot, hholds, holds_encoded hholds.fits rfl, rfl, rfl⟩

/-- The metadata in the file is what is loaded. -/
theorem loadClusterMetadata_eq (h : Holds json f snapshot) :
    (Engine.loadClusterMetadata json f).1 = .ok snapshot.clusterMetadata := by
  obtain ⟨raw, migrated, hdb, hdec⟩ := h
  simp only [Engine.loadClusterMetadata, hdb, hdec]
  cases migrated <;> rfl

theorem loadGraph_of_holds (h : Holds json f snapshot)
    (hcat : snapshot.catalogVersion = currentCatalogVersion) :
    (Engine.loadGraph json f).1 = .ok snapshot.graph := by
  obtain ⟨raw, migrated, hdb, hdec⟩ := h
  exact ((loads_decoded hdb hdec).mpr ⟨hcat, rfl⟩).1

/-- A log with a record asks for its snapshot. -/
theorem latestInWal_storable {txId : String} {g : InMemoryGraphStore} (h : Storable txId g) :
    latestInWal json (walBytes txId (snapshotOf g)) = .ok (some (snapshotOf g)) := by
  have hwhole := (latestInWal_cut json h _).2.2 rfl
  rwa [List.take_length] at hwhole

theorem loadOrInit_holds {g : InMemoryGraphStore} (h : Engine.loadOrInit json f = (.ok g, f')) :
    f'.wal = f.wal ∧ ∀ snapshot, Holds json f snapshot → Holds json f' snapshot := by
  rw [Engine.loadOrInit] at h
  rcases hdb : f.db with _ | raw
  · simp only [hdb] at h
    obtain ⟨-, -, -, -, -, hwal⟩ := loadGraph_holds h
    refine ⟨by rw [hwal, done_persistSnapshot], ?_⟩
    rintro snapshot ⟨raw, migrated, hraw, -⟩
    rw [hdb] at hraw
    cases hraw
  · simp only [hdb] at h
    obtain ⟨snapshot, hholds, hholds', -, -, hwal⟩ := loadGraph_holds h
    exact ⟨hwal, fun snapshot' hs => hs.unique hholds ▸ hholds'⟩

/-- A recovery finds nothing in the log and leaves the snapshot of the file, or leaves the log's. -/
theorem recover_holds {g : InMemoryGraphStore} (h : Engine.recover json f = (.ok g, f')) :
    f'.wal = f.wal ∧ ((∃ raw snapshot, f.wal = some raw
        ∧ latestInWal json raw = .ok (some snapshot) ∧ Holds json f' snapshot)
      ∨ ((∀ raw, f.wal = some raw → latestInWal json raw = .ok none)
        ∧ ∀ snapshot, Holds json f snapshot → Holds json f' snapshot)) := by
  rw [Engine.recover] at h
  rcases hwal : f.wal with _ | raw
  · simp only [hwal] at h
    obtain ⟨hwal', hholds⟩ := loadOrInit_holds h
    exact ⟨by rw [hwal', hwal], .inr ⟨by simp, hholds⟩⟩
  · rcases hlatest : latestInWal json raw with e | _ | snapshot
    · simp only [hwal, hlatest] at h
      cases h
    · simp only [hwal, hlatest] at h
      obtain ⟨hwal', hholds⟩ := loadOrInit_holds h
      refine ⟨by rw [hwal', hwal], .inr ⟨?_, hholds⟩⟩
      rintro raw' ⟨⟩
      exact hlatest
    · simp only [hwal, hlatest, done_persistSnapshot] at h
      cases h
      exact ⟨rfl, .inl ⟨raw, snapshot, rfl, hlatest,
        holds_encoded (latestInWal_fits json hlatest) rfl⟩⟩

theorem persistClusterMetadata_holds {metadata : StorableMetadata}
    (h : Engine.persistClusterMetadata json metadata.1 f = (.ok (), f')) :
    ∃ g, FileGraph json f g ∧ f'.wal = f.wal
      ∧ Holds json f' ⟨currentCatalogVersion, metadata.1, g⟩ := by
  rw [Engine.persistClusterMetadata] at h
  rcases hdb : f.db with _ | raw
  · simp only [hdb, done_persistSnapshot] at h
    cases h
    refine ⟨.new, by rw [FileGraph, hdb], rfl, holds_encoded ?_ rfl⟩
    exact ⟨rfl, Bincode.u64_fits _, metadata.2, InMemoryGraphStore.codec_fits_empty 0 0⟩
  · rcases hrun : Engine.loadGraph json f with ⟨e | g, f''⟩
    · simp only [hdb, hrun] at h
      cases h
    · simp only [hdb, hrun, done_persistSnapshot] at h
      cases h
      obtain ⟨snapshot, hholds, -, -, rfl, hwal⟩ := loadGraph_holds hrun
      have hfits := hholds.fits
      obtain ⟨raw, migrated, hraw, hdec⟩ := hholds
      refine ⟨snapshot.graph, (fileGraph_decoded hraw hdec).mpr rfl, hwal, holds_encoded ?_ rfl⟩
      exact ⟨rfl, Bincode.u64_fits _, metadata.2, hfits.2.2.2⟩

/-! ### The invariant -/

variable (json) in
/-- The file holds what was persisted and committed, and the log the last commit. -/
structure Inv (s : Session) : Prop where
  metadata : ∀ m, s.metadata = some m → ∃ snapshot, Holds json s.files snapshot
    ∧ snapshot.clusterMetadata = m
  graph : ∀ g, s.graph = some g → ∃ snapshot, Holds json s.files snapshot
    ∧ snapshot.catalogVersion = currentCatalogVersion ∧ snapshot.graph = g
  log : ∀ g, s.graph = some g → ∃ txId, Storable txId g
    ∧ s.files.wal = some (walBytes txId (snapshotOf g))

theorem Inv.kept {s : Session} (h : Inv json s) : Kept json s where
  metadata m hm := by
    obtain ⟨snapshot, hholds, rfl⟩ := h.metadata m hm
    exact loadClusterMetadata_eq hholds
  graph g hg := by
    obtain ⟨snapshot, hholds, hcat, rfl⟩ := h.graph g hg
    exact loadGraph_of_holds hholds hcat

/-- An access that leaves the log and the snapshot of the file. -/
theorem Inv.files {s : Session} (h : Inv json s) (hwal : f'.wal = s.files.wal)
    (hholds : ∀ snapshot, Holds json s.files snapshot → Holds json f' snapshot) :
    Inv json { s with files := f' } where
  metadata m hm := by
    obtain ⟨snapshot, hs, hmeta⟩ := h.metadata m hm
    exact ⟨snapshot, hholds snapshot hs, hmeta⟩
  graph g hg := by
    obtain ⟨snapshot, hs, hgraph⟩ := h.graph g hg
    exact ⟨snapshot, hholds snapshot hs, hgraph⟩
  log g hg := by
    obtain ⟨txId, hstorable, hlog⟩ := h.log g hg
    exact ⟨txId, hstorable, hwal.trans hlog⟩

theorem commit_holds {s s' : Session} {txId : String} {g : InMemoryGraphStore}
    {hg : Storable txId g} (hstep : step json s (.commit txId g hg) = some s') :
    Holds json s'.files (snapshotOf g) ∧ s'.files.wal = some (walBytes txId (snapshotOf g))
      ∧ s'.graph = some g ∧ s'.metadata = s.metadata := by
  simp only [step, done_persistAfterWal, Option.some.injEq] at hstep
  subst hstep
  exact ⟨holds_encoded (snapshotOf_fits hg.graph) rfl, rfl, rfl, rfl⟩

/-- The step. -/
theorem Inv.step {s s' : Session} {a : Access} (h : Inv json s) (hrespects : Respects json s a)
    (hstep : step json s a = some s') : Inv json s' := by
  cases a with
  | commit txId g hg =>
    obtain ⟨hholds, hlog, hgraph, hmeta⟩ := commit_holds hstep
    refine ⟨?_, ?_, ?_⟩
    · intro m hm
      rw [hmeta] at hm
      exact ⟨_, hholds, (hrespects m hm).symm⟩
    · intro g' hg'
      rw [hgraph] at hg'
      cases hg'
      exact ⟨_, hholds, rfl, rfl⟩
    · intro g' hg'
      rw [hgraph] at hg'
      cases hg'
      exact ⟨txId, hg, hlog⟩
  | recover =>
    rw [Metadata.step] at hstep
    rcases hrun : Engine.recover json s.files with ⟨e | g, f'⟩
    · rw [hrun] at hstep
      cases hstep
    · rw [hrun] at hstep
      cases hstep
      obtain ⟨hwal, ⟨raw, snapshot, hraw, hlatest, hholds⟩ | ⟨-, hholds⟩⟩ := recover_holds hrun
      · refine ⟨?_, ?_, ?_⟩
        · intro m hm
          exact ⟨snapshot, hholds, hrespects m hm raw snapshot hraw hlatest⟩
        · intro g' hg'
          obtain ⟨txId, hstorable, hlog⟩ := h.log g' hg'
          rw [hraw] at hlog
          cases hlog
          rw [latestInWal_storable hstorable] at hlatest
          cases hlatest
          exact ⟨_, hholds, rfl, rfl⟩
        · intro g' hg'
          obtain ⟨txId, hstorable, hlog⟩ := h.log g' hg'
          exact ⟨txId, hstorable, hwal.trans hlog⟩
      · exact h.files hwal hholds
  | loadGraph =>
    rw [Metadata.step] at hstep
    rcases hrun : Engine.loadGraph json s.files with ⟨e | g, f'⟩
    · rw [hrun] at hstep
      cases hstep
    · rw [hrun] at hstep
      cases hstep
      obtain ⟨snapshot, hholds, hholds', -, -, hwal⟩ := loadGraph_holds hrun
      exact h.files hwal fun snapshot' hs => hs.unique hholds ▸ hholds'
  | loadClusterMetadata =>
    rw [Metadata.step] at hstep
    rcases hrun : Engine.loadClusterMetadata json s.files with ⟨e | m, f'⟩
    · rw [hrun] at hstep
      cases hstep
    · rw [hrun] at hstep
      cases hstep
      obtain ⟨snapshot, hholds, hholds', -, hwal⟩ := loadClusterMetadata_holds hrun
      exact h.files hwal fun snapshot' hs => hs.unique hholds ▸ hholds'
  | persistClusterMetadata metadata =>
    rw [Metadata.step] at hstep
    rcases hrun : Engine.persistClusterMetadata json metadata.1 s.files with ⟨e | u, f'⟩
    · rw [hrun] at hstep
      cases hstep
    · rw [hrun] at hstep
      cases hstep
      obtain ⟨g, hfile, hwal, hholds⟩ := persistClusterMetadata_holds hrun
      refine ⟨?_, ?_, ?_⟩
      · rintro m ⟨⟩
        exact ⟨_, hholds, rfl⟩
      · intro g' hg'
        obtain ⟨snapshot, ⟨raw, migrated, hdb, hdec⟩, -, rfl⟩ := h.graph g' hg'
        exact ⟨_, hholds, rfl, ((fileGraph_decoded hdb hdec).mp hfile).symm⟩
      · intro g' hg'
        obtain ⟨txId, hstorable, hlog⟩ := h.log g' hg'
        exact ⟨txId, hstorable, hwal.trans hlog⟩

/-- The run. -/
theorem Reaches.inv {start : Files} {s : Session} (h : Reaches json start s) : Inv json s := by
  induction h with
  | start => exact ⟨by simp, by simp, by simp⟩
  | step _ hrespects hstep ih => exact ih.step hrespects hstep

/-- An access that does not respect the metadata loses it. -/
theorem respects_of_kept {s s' : Session} {a : Access}
    (hstep : Metadata.step json s a = some s') (hkept : Kept json s') : Respects json s a := by
  cases a with
  | commit txId g hg =>
    intro m hm
    obtain ⟨hholds, -, -, hmeta⟩ := commit_holds hstep
    have hload := hkept.metadata m (hmeta.trans hm)
    rw [loadClusterMetadata_eq hholds] at hload
    exact (Except.ok.inj hload).symm
  | recover =>
    intro m hm raw snapshot hraw hlatest
    rw [Metadata.step] at hstep
    rcases hrun : Engine.recover json s.files with ⟨e | g, f'⟩
    · rw [hrun] at hstep
      cases hstep
    · rw [hrun] at hstep
      cases hstep
      obtain ⟨-, ⟨raw', snapshot', hraw', hlatest', hholds⟩ | ⟨hnone, -⟩⟩ := recover_holds hrun
      · rw [hraw] at hraw'
        cases hraw'
        rw [hlatest] at hlatest'
        cases hlatest'
        have hload := hkept.metadata m hm
        rw [loadClusterMetadata_eq hholds] at hload
        exact Except.ok.inj hload
      · have := hnone raw hraw
        rw [hlatest] at this
        cases this
  | loadGraph => trivial
  | loadClusterMetadata => trivial
  | persistClusterMetadata metadata => trivial

/-- Along every run of accesses that respect the metadata both values are kept, and the first access
that does not loses the metadata. -/
theorem metadata_and_graph_kept (json : LegacyJson) (start : Files) :
    (∀ s, Reaches json start s → Kept json s)
      ∧ ∀ s a s', Reaches json start s → step json s a = some s' →
        (Kept json s' ↔ Respects json s a) :=
  ⟨fun _ h => h.inv.kept, fun _ _ _ h hstep => ⟨respects_of_kept hstep,
    fun hrespects => (h.inv.step hrespects hstep).kept⟩⟩

/-- Metadata other than the initial one. -/
def sampleMetadata : StorableMetadata :=
  ⟨⟨"v2", [], []⟩, rfl, Bincode.string_fits.mpr (by decide), Bincode.vec_fits.mpr (by simp),
    Bincode.vec_fits.mpr (by simp)⟩

theorem storable_new : Storable "t" .new where
  graph := InMemoryGraphStore.codec_fits_empty 0 0
  name := Bincode.string_fits.mpr (by decide)
  record := by decide +kernel

/-- It is persisted to a new store and gone after a commit. -/
theorem commit_loses_metadata : ∃ s₁ s₂,
    step .rejecting ⟨⟨none, none⟩, none, none⟩ (.persistClusterMetadata sampleMetadata) = some s₁
      ∧ step .rejecting s₁ (.commit "t" .new storable_new) = some s₂
      ∧ s₂.metadata = some sampleMetadata.1
      ∧ (Engine.loadClusterMetadata .rejecting s₂.files).1 = .ok .initial
      ∧ ¬ Kept .rejecting s₂ := by
  have hload : ∀ s s' : Session, step .rejecting s (.commit "t" .new storable_new) = some s' →
      (Engine.loadClusterMetadata .rejecting s'.files).1 = .ok .initial :=
    fun _ _ hstep => loadClusterMetadata_eq (commit_holds hstep).1
  refine ⟨_, _, rfl, rfl, rfl, hload _ _ rfl, fun hkept => ?_⟩
  have hkept := hkept.metadata sampleMetadata.1 rfl
  rw [hload _ _ rfl] at hkept
  have hversion := congrArg ClusterMetadataCatalog.catalogSchemaVersion (Except.ok.inj hkept)
  revert hversion
  decide

end AiraGraphdb.Library.Metadata
