import AiraGraphdb.Library.Errors
import AiraGraphdb.Library.Graph
import AiraGraphdb.Schemes.Effects
import AiraGraphdb.Schemes.Frames

/-! # The storage engine

One snapshot file and one log file, both rewritten in place. A commit writes the log first and the
snapshot second (`persistEffects`); a start reads the snapshot only (`loadOrInit`), a recovery the
log first (`recover`). Files written by the JSON version of the format are still read, through the
parser of that format, which is a parameter here. -/

namespace AiraGraphdb.Library

open Schemes

def currentCatalogVersion : UInt64 := 1
def snapshotMagic : Bytes := [65, 71, 83, 78]
def walMagic : Bytes := [65, 71, 87, 76]
def storageFormatVersion : ℕ := 1

structure PartitionMetadata where
  id : String
  range : String

structure ReplicaMetadata where
  partitionId : String
  replicas : List String

structure ClusterMetadataCatalog where
  catalogSchemaVersion : String
  partitions : List PartitionMetadata
  replicas : List ReplicaMetadata

structure PersistedSnapshot where
  catalogVersion : UInt64
  clusterMetadata : ClusterMetadataCatalog
  graph : InMemoryGraphStore

structure WalCommitRecord where
  txId : String
  snapshot : PersistedSnapshot

/-! ### Stored form -/

def PartitionMetadata.codec : Codec PartitionMetadata :=
  Codec.carried (Bincode.pair Bincode.string Bincode.string) (fun p => (p.id, p.range))
    (fun p => some ⟨p.1, p.2⟩)

def ReplicaMetadata.codec : Codec ReplicaMetadata :=
  Codec.carried (Bincode.pair Bincode.string (Bincode.vec Bincode.string))
    (fun r => (r.partitionId, r.replicas)) (fun p => some ⟨p.1, p.2⟩)

def ClusterMetadataCatalog.codec : Codec ClusterMetadataCatalog :=
  Codec.carried (Bincode.pair Bincode.string
      (Bincode.pair (Bincode.vec PartitionMetadata.codec) (Bincode.vec ReplicaMetadata.codec)))
    (fun c => (c.catalogSchemaVersion, c.partitions, c.replicas))
    (fun p => some ⟨p.1, p.2.1, p.2.2⟩)

def PersistedSnapshot.codec : Codec PersistedSnapshot :=
  Codec.carried (Bincode.pair Bincode.u64
      (Bincode.pair ClusterMetadataCatalog.codec InMemoryGraphStore.codec))
    (fun s => (s.catalogVersion, s.clusterMetadata, s.graph)) (fun p => some ⟨p.1, p.2.1, p.2.2⟩)

def WalCommitRecord.codec : Codec WalCommitRecord :=
  Codec.carried (Bincode.pair Bincode.string PersistedSnapshot.codec)
    (fun r => (r.txId, r.snapshot)) (fun p => some ⟨p.1, p.2⟩)

theorem ClusterMetadataCatalog.codec_lawful : ClusterMetadataCatalog.codec.Lawful := by
  have hp : PartitionMetadata.codec.Lawful :=
    Codec.carried_lawful (Bincode.pair_lawful Bincode.string_lawful Bincode.string_lawful)
  have hr : ReplicaMetadata.codec.Lawful :=
    Codec.carried_lawful (Bincode.pair_lawful Bincode.string_lawful
      (Bincode.vec_lawful Bincode.string_lawful))
  exact Codec.carried_lawful (Bincode.pair_lawful Bincode.string_lawful
    (Bincode.pair_lawful (Bincode.vec_lawful hp) (Bincode.vec_lawful hr)))

theorem PersistedSnapshot.codec_lawful : PersistedSnapshot.codec.Lawful :=
  Codec.carried_lawful (Bincode.pair_lawful Bincode.u64_lawful
    (Bincode.pair_lawful ClusterMetadataCatalog.codec_lawful InMemoryGraphStore.codec_lawful))

theorem WalCommitRecord.codec_lawful : WalCommitRecord.codec.Lawful :=
  Codec.carried_lawful (Bincode.pair_lawful Bincode.string_lawful PersistedSnapshot.codec_lawful)

theorem ClusterMetadataCatalog.codec_readsFit : ClusterMetadataCatalog.codec.ReadsFit := by
  have hp : PartitionMetadata.codec.ReadsFit :=
    Codec.carried_readsFit (Bincode.pair_readsFit Bincode.string_readsFit Bincode.string_readsFit)
      (by rintro ⟨id, range⟩ _ h ⟨⟩; exact ⟨rfl, h⟩)
  have hr : ReplicaMetadata.codec.ReadsFit :=
    Codec.carried_readsFit (Bincode.pair_readsFit Bincode.string_readsFit
      (Bincode.vec_readsFit Bincode.string_readsFit))
      (by rintro ⟨id, replicas⟩ _ h ⟨⟩; exact ⟨rfl, h⟩)
  refine Codec.carried_readsFit (Bincode.pair_readsFit Bincode.string_readsFit
    (Bincode.pair_readsFit (Bincode.vec_readsFit hp) (Bincode.vec_readsFit hr))) ?_
  rintro ⟨version, partitions, replicas⟩ _ h ⟨⟩
  exact ⟨rfl, h⟩

theorem PersistedSnapshot.codec_readsFit : PersistedSnapshot.codec.ReadsFit := by
  refine Codec.carried_readsFit (Bincode.pair_readsFit Bincode.u64_readsFit
    (Bincode.pair_readsFit ClusterMetadataCatalog.codec_readsFit
      InMemoryGraphStore.codec_readsFit)) ?_
  rintro ⟨version, metadata, graph⟩ _ h ⟨⟩
  exact ⟨rfl, h⟩

theorem WalCommitRecord.codec_readsFit : WalCommitRecord.codec.ReadsFit := by
  refine Codec.carried_readsFit
    (Bincode.pair_readsFit Bincode.string_readsFit PersistedSnapshot.codec_readsFit) ?_
  rintro ⟨txId, snapshot⟩ _ h ⟨⟩
  exact ⟨rfl, h⟩

/-- The metadata every commit writes. -/
def ClusterMetadataCatalog.initial : ClusterMetadataCatalog := ⟨"v1", [], []⟩

/-- The snapshot of a graph, as a commit and an initialisation build it. -/
def snapshotOf (graph : InMemoryGraphStore) : PersistedSnapshot :=
  ⟨currentCatalogVersion, .initial, graph⟩

/-- A snapshot can be written when its graph can. -/
theorem snapshotOf_fits {g : InMemoryGraphStore} (h : InMemoryGraphStore.codec.Fits g) :
    PersistedSnapshot.codec.Fits (snapshotOf g) := by
  refine ⟨rfl, Bincode.u64_fits _, ⟨rfl, Bincode.string_fits.mpr ?_, Bincode.vec_fits.mpr ?_,
    Bincode.vec_fits.mpr ?_⟩, h⟩
  · show ("v1" : String).utf8ByteSize < 256 ^ 8
    decide
  all_goals simp [snapshotOf, ClusterMetadataCatalog.initial]

/-! ### Files -/

structure Files where
  db : Option Bytes
  wal : Option Bytes

inductive FileEffect where
  | openWal
  | appendWal (b : UInt8)
  | openDb
  | appendDb (b : UInt8)

/-- Opening creates or truncates; a write adds one byte at the end. -/
def applyEffect (f : Files) : FileEffect → Files
  | .openWal => { f with wal := some [] }
  | .appendWal b => { f with wal := f.wal.map (· ++ [b]) }
  | .openDb => { f with db := some [] }
  | .appendDb b => { f with db := f.db.map (· ++ [b]) }

def encodeSnapshot (snapshot : PersistedSnapshot) : Bytes :=
  snapshotMagic ++ leBytes 2 storageFormatVersion ++ PersistedSnapshot.codec.put snapshot

/-- The content of the log: one record, whatever the log held before. -/
def walBytes (txId : String) (snapshot : PersistedSnapshot) : Bytes :=
  let payload := WalCommitRecord.codec.put ⟨txId, snapshot⟩
  walMagic ++ leBytes 2 storageFormatVersion ++ (leBytes 8 payload.length ++ payload)

def appendWal (txId : String) (snapshot : PersistedSnapshot) : List FileEffect :=
  .openWal :: (walBytes txId snapshot).map .appendWal

def persistSnapshotFromStruct (snapshot : PersistedSnapshot) : List FileEffect :=
  .openDb :: (encodeSnapshot snapshot).map .appendDb

def persistAfterWal (txId : String) (graph : InMemoryGraphStore) : List FileEffect :=
  appendWal txId (snapshotOf graph) ++ persistSnapshotFromStruct (snapshotOf graph)

/-! ### Files after a stop -/

theorem done_appendDb (bs : Bytes) (f : Files) (old : Bytes) (h : f.db = some old) :
    done applyEffect (bs.map .appendDb) f = { f with db := some (old ++ bs) } := by
  induction bs generalizing f old with
  | nil => simp [done, ← h]
  | cons b bs ih =>
    have hf : (applyEffect f (.appendDb b)).db = some (old ++ [b]) := by simp [applyEffect, h]
    have := ih _ _ hf
    simpa [done, applyEffect, List.append_assoc] using this

theorem done_appendWal (bs : Bytes) (f : Files) (old : Bytes) (h : f.wal = some old) :
    done applyEffect (bs.map .appendWal) f = { f with wal := some (old ++ bs) } := by
  induction bs generalizing f old with
  | nil => simp [done, ← h]
  | cons b bs ih =>
    have hf : (applyEffect f (.appendWal b)).wal = some (old ++ [b]) := by simp [applyEffect, h]
    have := ih _ _ hf
    simpa [done, applyEffect, List.append_assoc] using this

/-- Writing the snapshot and stopping after `j` of its bytes. -/
theorem after_persistSnapshot (snapshot : PersistedSnapshot) (j : ℕ) (f : Files) :
    after applyEffect (1 + j) (persistSnapshotFromStruct snapshot) f =
      { f with db := some ((encodeSnapshot snapshot).take j) } := by
  rw [Nat.add_comm 1 j, persistSnapshotFromStruct, after_succ_cons, after_eq_done_take,
    ← List.map_take, done_appendDb _ _ [] rfl, List.nil_append, applyEffect]

@[simp] theorem done_persistSnapshot (snapshot : PersistedSnapshot) (f : Files) :
    done applyEffect (persistSnapshotFromStruct snapshot) f =
      { f with db := some (encodeSnapshot snapshot) } := by
  rw [persistSnapshotFromStruct, done_cons, done_appendDb _ _ [] rfl, List.nil_append, applyEffect]

/-- Writing the log and stopping after `j` of its bytes. -/
theorem after_appendWal (txId : String) (snapshot : PersistedSnapshot) (j : ℕ) (f : Files) :
    after applyEffect (1 + j) (appendWal txId snapshot) f =
      { f with wal := some ((walBytes txId snapshot).take j) } := by
  rw [Nat.add_comm 1 j, appendWal, after_succ_cons, after_eq_done_take, ← List.map_take,
    done_appendWal _ _ [] rfl, List.nil_append, applyEffect]

theorem length_appendWal (txId : String) (snapshot : PersistedSnapshot) :
    (appendWal txId snapshot).length = 1 + (walBytes txId snapshot).length := by
  simp [appendWal, Nat.add_comm]

theorem length_persistAfterWal (txId : String) (graph : InMemoryGraphStore) :
    (persistAfterWal txId graph).length =
      2 + (walBytes txId (snapshotOf graph)).length +
        (encodeSnapshot (snapshotOf graph)).length := by
  simp [persistAfterWal, length_appendWal, persistSnapshotFromStruct]
  omega

/-- A commit stopped in the log leaves the snapshot as it was. -/
theorem after_persistAfterWal_log {txId : String} {graph : InMemoryGraphStore} {j : ℕ}
    (h : j ≤ (walBytes txId (snapshotOf graph)).length) (f : Files) :
    after applyEffect (1 + j) (persistAfterWal txId graph) f =
      { f with wal := some ((walBytes txId (snapshotOf graph)).take j) } := by
  rw [persistAfterWal, after_append_left _ (by rw [length_appendWal]; omega), after_appendWal]

/-- A commit stopped in the snapshot leaves the whole log and a part of the snapshot. -/
theorem after_persistAfterWal_snapshot (txId : String) (graph : InMemoryGraphStore) (j : ℕ)
    (f : Files) :
    after applyEffect (2 + (walBytes txId (snapshotOf graph)).length + j)
        (persistAfterWal txId graph) f =
      ⟨some ((encodeSnapshot (snapshotOf graph)).take j),
        some (walBytes txId (snapshotOf graph))⟩ := by
  have hk : 2 + (walBytes txId (snapshotOf graph)).length + j =
      (appendWal txId (snapshotOf graph)).length + (1 + j) := by rw [length_appendWal]; omega
  rw [hk, persistAfterWal, after_append_right, after_persistSnapshot,
    ← after_of_length_le applyEffect (le_of_eq (length_appendWal _ _)), after_appendWal]
  simp

/-- A commit that runs to its end leaves its log and its snapshot. -/
@[simp] theorem done_persistAfterWal (txId : String) (graph : InMemoryGraphStore) (f : Files) :
    done applyEffect (persistAfterWal txId graph) f =
      ⟨some (encodeSnapshot (snapshotOf graph)), some (walBytes txId (snapshotOf graph))⟩ := by
  rw [← after_of_length_le applyEffect (le_of_eq (length_persistAfterWal txId graph)),
    after_persistAfterWal_snapshot]
  simp

/-! ### Decoding -/

/-- The parser of the JSON format that older versions wrote. No JSON text is empty or starts with
    the letter A, and what is parsed is a value in memory, so its lengths are ones that bincode
    can store. -/
structure LegacyJson where
  snapshot : Bytes → Option PersistedSnapshot
  record : String → Option WalCommitRecord
  snapshot_start : ∀ {raw s}, snapshot raw = some s → raw ≠ [] ∧ raw.head? ≠ some 65
  record_start : ∀ {line r}, record line = some r → line.toList.head? ≠ some 'A'
  snapshot_fits : ∀ {raw s}, snapshot raw = some s → PersistedSnapshot.codec.Fits s
  record_fits : ∀ {line r}, record line = some r → PersistedSnapshot.codec.Fits r.snapshot

/-- A parser for a store that has no file of the older format. -/
def LegacyJson.rejecting : LegacyJson :=
  ⟨fun _ => none, fun _ => none, by simp, by simp, by simp, by simp⟩

variable (json : LegacyJson)

/-- The snapshot in the bytes, and whether it was in the older format. -/
def decodeSnapshot (raw : Bytes) : Except GraphDbError (PersistedSnapshot × Bool) :=
  if snapshotMagic.isPrefixOf raw then
    if raw.length < snapshotMagic.length + 2 then
      .error (incompatible "snapshot file is truncated")
    else if ofLe ((raw.drop 4).take 2) ≠ storageFormatVersion then
      .error (incompatible ("snapshot format version mismatch: expected 1, got " ++
        (ofLe ((raw.drop 4).take 2)).repr))
    else match PersistedSnapshot.codec.get (raw.drop 6) with
      | some (snapshot, _) => .ok (snapshot, false)
      | none => .error (incompatible "cannot parse db snapshot")
  else match json.snapshot raw with
    | some snapshot => .ok (snapshot, true)
    | none => .error (incompatible "cannot parse db snapshot")

/-- The entries after the header: the last complete one wins, a cut length ends the log. The buffer
    that each length asks for is left out here. -/
def decodeEntries (latest : Option PersistedSnapshot) (raw : Bytes) :
    Except GraphDbError (Option PersistedSnapshot) :=
  if 8 ≤ raw.length then
    let len := ofLe (raw.take 8)
    if len ≤ raw.length - 8 then
      match WalCommitRecord.codec.get ((raw.drop 8).take len) with
      | some (record, _) => decodeEntries (some record.snapshot) (raw.drop (8 + len))
      | none => .error (incompatible "invalid wal entry")
    else .error (incompatible "truncated wal entry payload")
  else .ok latest
termination_by raw.length
decreasing_by simp; omega

/-- A log without a complete length has no entry. -/
theorem decodeEntries_short {raw : Bytes} (h : raw.length < 8) (latest : Option PersistedSnapshot) :
    decodeEntries latest raw = .ok latest := by
  rw [decodeEntries, if_neg (by omega)]

/-- A log whose entry is cut short is refused. -/
theorem decodeEntries_cut {p : Bytes} {n : ℕ} (hn : n < 256 ^ 8) (hp : p.length < n)
    (latest : Option PersistedSnapshot) :
    decodeEntries latest (leBytes 8 n ++ p) = .error (incompatible "truncated wal entry payload") := by
  have htake : (leBytes 8 n ++ p).take 8 = leBytes 8 n := by simp
  have hlen : (leBytes 8 n ++ p).length - 8 = p.length := by simp
  rw [decodeEntries, if_pos (by simp), htake, ofLe_leBytes hn, hlen]
  exact if_neg (by omega)

/-- A whole entry is decoded before the rest. -/
theorem decodeEntries_frame {payload : Bytes} (hlen : payload.length < 256 ^ 8) (rest : Bytes)
    (latest : Option PersistedSnapshot) :
    decodeEntries latest (frame 8 payload ++ rest) =
      match WalCommitRecord.codec.get payload with
      | some (record, _) => decodeEntries (some record.snapshot) rest
      | none => .error (incompatible "invalid wal entry") := by
  have htake : (frame 8 payload ++ rest).take 8 = leBytes 8 payload.length := by simp [frame]
  have hdrop : (frame 8 payload ++ rest).drop 8 = payload ++ rest := by simp [frame]
  have hskip : (frame 8 payload ++ rest).drop (8 + payload.length) = rest := by
    rw [← List.drop_drop, hdrop, List.drop_left]
  have hlong : 8 + payload.length ≤ (frame 8 payload ++ rest).length := by simp
  rw [decodeEntries, if_pos (by omega), htake, ofLe_leBytes hlen]
  dsimp only
  rw [if_pos (by omega), hdrop, hskip, List.take_left]

def decodeBinaryWal (raw : Bytes) : Except GraphDbError (Option PersistedSnapshot) :=
  if raw.length < walMagic.length + 2 then .error (incompatible "wal file is truncated")
  else if ofLe ((raw.drop 4).take 2) ≠ storageFormatVersion then
    .error (incompatible ("wal format version mismatch: expected 1, got " ++
      (ofLe ((raw.drop 4).take 2)).repr))
  else decodeEntries none (raw.drop 6)

/-- Unicode white space, as `char::is_whitespace` has it. -/
def isWhitespace (c : Char) : Bool :=
  (9 ≤ c.val && c.val ≤ 13) || c.val == 0x20 || c.val == 0x85 || c.val == 0xA0 ||
    c.val == 0x1680 || (0x2000 ≤ c.val && c.val ≤ 0x200A) || c.val == 0x2028 ||
    c.val == 0x2029 || c.val == 0x202F || c.val == 0x205F || c.val == 0x3000

/-- A line without the carriage return that may end it. -/
def stripCr (line : List Char) : String :=
  String.ofList (if line.getLast? = some '\r' then line.dropLast else line)

/-- `str::lines`: the lines of a text, the part after the last line feed only when it is not
    empty. -/
def linesFrom (line : List Char) : List Char → List String
  | [] => if line.isEmpty then [] else [String.ofList line]
  | c :: cs => if c = '\n' then stripCr line :: linesFrom [] cs else linesFrom (line ++ [c]) cs

/-- The records of a log in the older format, one a line. -/
def decodeLegacyWal (raw : Bytes) : Except GraphDbError (Option PersistedSnapshot) :=
  match ofUtf8 raw with
  | none => .error (incompatible "invalid wal encoding")
  | some text =>
    ((linesFrom [] text.toList).filter fun line => !line.toList.all isWhitespace).foldlM
      (fun _ line => match json.record line with
        | some record => .ok (some record.snapshot)
        | none => .error (incompatible "invalid wal entry")) none

/-- What the log asks to restore: its last snapshot, or nothing. -/
def latestInWal (raw : Bytes) : Except GraphDbError (Option PersistedSnapshot) :=
  if walMagic.isPrefixOf raw then decodeBinaryWal raw else decodeLegacyWal json raw

/-! ### What was written is read back -/

theorem encodeSnapshot_eq (snapshot : PersistedSnapshot) :
    encodeSnapshot snapshot =
      65 :: 71 :: 83 :: 78 :: 1 :: 0 :: PersistedSnapshot.codec.put snapshot := rfl

theorem decodeSnapshot_encode {snapshot : PersistedSnapshot}
    (h : PersistedSnapshot.codec.Fits snapshot) :
    decodeSnapshot json (encodeSnapshot snapshot) = .ok (snapshot, false) := by
  have hget := PersistedSnapshot.codec_lawful.get_put h
  have hv : ofLe [1, 0] = storageFormatVersion := rfl
  simp [decodeSnapshot, encodeSnapshot_eq, snapshotMagic, hv, hget]

/-! ### Starting -/

def loadGraph (f : Files) : Except GraphDbError (InMemoryGraphStore × Files) :=
  match f.db with
  | none => .error (incompatible "cannot read db file")
  | some raw => do
    let (snapshot, migrated) ← decodeSnapshot json raw
    if snapshot.catalogVersion ≠ currentCatalogVersion then
      .error (incompatible ("catalog version mismatch: expected 1, got " ++
        snapshot.catalogVersion.toNat.repr))
    else if migrated then
      .ok (snapshot.graph, done applyEffect (persistSnapshotFromStruct snapshot) f)
    else .ok (snapshot.graph, f)

def loadOrInit (f : Files) : Except GraphDbError (InMemoryGraphStore × Files) :=
  match f.db with
  | none => loadGraph json (done applyEffect (persistSnapshotFromStruct (snapshotOf .new)) f)
  | some _ => loadGraph json f

def recover (f : Files) : Except GraphDbError (InMemoryGraphStore × Files) :=
  match f.wal with
  | none => loadOrInit json f
  | some raw => do
    match ← latestInWal json raw with
    | some snapshot =>
      .ok (snapshot.graph, done applyEffect (persistSnapshotFromStruct snapshot) f)
    | none => loadOrInit json f

/-- A file that a commit or an initialisation wrote loads as the graph it was written from. -/
theorem loadGraph_encoded {g : InMemoryGraphStore} (h : InMemoryGraphStore.codec.Fits g)
    {f : Files} (hf : f.db = some (encodeSnapshot (snapshotOf g))) :
    loadGraph json f = .ok (g, f) := by
  simp only [loadGraph, hf, decodeSnapshot_encode json (snapshotOf_fits h), bind, Except.bind]
  rfl

/-- Loading leaves a file that loads as the same graph, also where it migrates or creates it. -/
theorem loadGraph_stable {f f' : Files} {g : InMemoryGraphStore}
    (h : loadGraph json f = .ok (g, f')) : loadGraph json f' = .ok (g, f') := by
  unfold loadGraph at h
  rcases hdb : f.db with _ | raw
  · simp [hdb] at h
  rcases hdec : decodeSnapshot json raw with e | ⟨s, migrated⟩
  · simp [hdb, hdec, bind, Except.bind] at h
  simp only [hdb, hdec, bind, Except.bind] at h
  split at h
  · cases h
  rename_i hcat
  rcases migrated with _ | _
  · obtain ⟨rfl, rfl⟩ := Prod.mk.inj (Except.ok.inj h)
    simp [loadGraph, hdb, hdec, bind, Except.bind, not_not.mp hcat]
  · obtain ⟨rfl, rfl⟩ := Prod.mk.inj (Except.ok.inj h)
    have hfits : PersistedSnapshot.codec.Fits s := by
      unfold decodeSnapshot at hdec
      split at hdec
      · repeat' split at hdec
        all_goals cases hdec
      · split at hdec
        · rename_i hs
          cases hdec
          exact json.snapshot_fits hs
        · cases hdec
    simp [loadGraph, decodeSnapshot_encode json hfits, bind, Except.bind, not_not.mp hcat]

theorem loadOrInit_stable {f f' : Files} {g : InMemoryGraphStore}
    (h : loadOrInit json f = .ok (g, f')) : loadGraph json f' = .ok (g, f') := by
  unfold loadOrInit at h
  split at h <;> exact loadGraph_stable json h

end AiraGraphdb.Library
