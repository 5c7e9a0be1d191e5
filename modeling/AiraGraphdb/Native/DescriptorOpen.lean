import AiraGraphdb.Native.BlobHeader
import AiraGraphdb.Native.Lineage
import AiraGraphdb.Native.Concrete
import AiraGraphdb.Native.DescriptorSession
import AiraGraphdb.Native.Bounded.Catalog
import AiraGraphdb.Schemes.Text

/-! # Opening a committed generation by its descriptors

A process that only reads is given two open files instead of a path: the canonical state and one
blob. It checks how they were opened, reads them whole and applies what `openResolved` applies to a
directory that holds them; what it accepts beyond that, it refuses: an unexpected generation, a
blob with a parent, a state without a catalog (`descriptor_open_agrees`). -/

namespace AiraGraphdb.Native

open Schemes Schemes.Json Bounded

def maxDescriptorCanonicalBytes : ℕ := 16 * 1024 * 1024 * 1024

def maxDescriptorVectorBlobBytes : ℕ := 16 * 1024 * 1024 * 1024

structure DescriptorReadConfig where
  canonicalFd : Int32
  vectorBlobFd : Int32
  expectedGeneration : UInt64
  legacyGeneration0 : Bool
  legacyBindingSha256 : Option String

structure DescriptorReadHandshake where
  canonicalSha256 : String
  vectorBlobSha256 : String
  vectorBlobSize : ℕ
  legacyGeneration0 : Bool
  legacyBindingSha256 : Option String
  methodInventorySha256 : String

/-- A file behind a descriptor: how it was opened, which one it is, its length when it is checked
and when it is read, and what is in it then. -/
structure InheritedFile where
  readOnly : Bool
  pathOnly : Bool
  regular : Bool
  identity : ℕ × ℕ
  checkedSize : ℕ
  size : ℕ
  content : Bytes

/-- The open files of a process. -/
abbrev OpenFiles := Int32 → Option InheritedFile

/-! ### Files -/

def validateInheritedReadonlyFile (file : Option InheritedFile) (name : String) (maxBytes : ℕ) :
    Except String InheritedFile := do
  let file ← ofOption file (name ++ " fcntl(F_GETFL) failed")
  ensure (file.readOnly = true) (name ++ " must be opened O_RDONLY")
  ensure (file.pathOnly = false) (name ++ " must be readable, not O_PATH")
  ensure (file.regular = true) (name ++ " must refer to a regular file")
  ensure (file.checkedSize ≤ maxBytes) (name ++ " exceeds its bounded size")
  return file

def readBoundedDescriptorFile (file : InheritedFile) (maxBytes : ℕ) (name : String) :
    Except String Bytes := do
  ensure (file.size ≤ maxBytes) (name ++ " exceeds its bounded size")
  let raw := file.content.take (maxBytes + 1)
  ensure (raw.length = file.size ∧ raw.length ≤ maxBytes)
    (name ++ " changed or exceeded its bounded size")
  return raw

/-- The two files of a configuration. -/
def inheritedFiles (fds : OpenFiles) (config : DescriptorReadConfig) :
    Except String (Bytes × Bytes) := do
  ensure (0 ≤ config.canonicalFd ∧ 0 ≤ config.vectorBlobFd)
    "descriptor FDs must be non-negative integers"
  ensure (config.canonicalFd ≠ config.vectorBlobFd)
    "canonical and vector blob FDs must be distinct"
  let canonicalFile ← validateInheritedReadonlyFile (fds config.canonicalFd) "canonical FD"
    maxDescriptorCanonicalBytes
  let blobFile ← validateInheritedReadonlyFile (fds config.vectorBlobFd) "vector blob FD"
    maxDescriptorVectorBlobBytes
  ensure (canonicalFile.identity ≠ blobFile.identity)
    "canonical and vector blob descriptors must name distinct files"
  let canonical ← readBoundedDescriptorFile canonicalFile maxDescriptorCanonicalBytes "canonical FD"
  let blob ← readBoundedDescriptorFile blobFile maxDescriptorVectorBlobBytes "vector blob FD"
  return (canonical, blob)

/-- A descriptor that yields these bytes. -/
structure Yielding (file : InheritedFile) (maxBytes : ℕ) (raw : Bytes) : Prop where
  readOnly : file.readOnly = true
  pathOnly : file.pathOnly = false
  regular : file.regular = true
  checkedSize : file.checkedSize ≤ maxBytes
  size : file.size = raw.length
  content : file.content = raw
  bounded : raw.length ≤ maxBytes

/-- The descriptors of a configuration yield these bytes. -/
structure Presents (fds : OpenFiles) (config : DescriptorReadConfig) (canonical blob : Bytes) :
    Prop where
  canonicalFd : 0 ≤ config.canonicalFd
  vectorBlobFd : 0 ≤ config.vectorBlobFd
  distinct : config.canonicalFd ≠ config.vectorBlobFd
  files : ∃ c b, fds config.canonicalFd = some c ∧ fds config.vectorBlobFd = some b
    ∧ c.identity ≠ b.identity ∧ Yielding c maxDescriptorCanonicalBytes canonical
    ∧ Yielding b maxDescriptorVectorBlobBytes blob

theorem validateInheritedReadonlyFile_ok {file : Option InheritedFile} {name : String}
    {maxBytes : ℕ} {f : InheritedFile} :
    validateInheritedReadonlyFile file name maxBytes = .ok f ↔
      file = some f ∧ f.readOnly = true ∧ f.pathOnly = false ∧ f.regular = true
        ∧ f.checkedSize ≤ maxBytes := by
  simp only [validateInheritedReadonlyFile, bind_ok, ofOption_ok, ensure_ok, pure, Except.pure,
    Except.ok.injEq, exists_const]
  constructor
  · rintro ⟨a, rfl, hr, hp, hg, hs, rfl⟩
    exact ⟨rfl, hr, hp, hg, hs⟩
  · rintro ⟨rfl, hr, hp, hg, hs⟩
    exact ⟨f, rfl, hr, hp, hg, hs, rfl⟩

theorem readBoundedDescriptorFile_ok {file : InheritedFile} {maxBytes : ℕ} {name : String}
    {raw : Bytes} :
    readBoundedDescriptorFile file maxBytes name = .ok raw ↔
      file.size = raw.length ∧ file.content = raw ∧ raw.length ≤ maxBytes := by
  simp only [readBoundedDescriptorFile, bind_ok, ensure_ok, pure, Except.pure, Except.ok.injEq,
    exists_const]
  constructor
  · rintro ⟨-, ⟨hsize, hle⟩, rfl⟩
    have htake : file.content.take (maxBytes + 1) = file.content := by
      refine List.take_of_length_le ?_
      rw [List.length_take] at hle
      omega
    exact ⟨hsize.symm, htake.symm, hle⟩
  · rintro ⟨hsize, hcontent, hle⟩
    have htake : file.content.take (maxBytes + 1) = raw := by
      rw [hcontent]
      exact List.take_of_length_le (by omega)
    rw [htake]
    exact ⟨by omega, ⟨hsize.symm, hle⟩, rfl⟩

theorem inheritedFiles_ok {fds : OpenFiles} {config : DescriptorReadConfig} {canonical blob : Bytes} :
    inheritedFiles fds config = .ok (canonical, blob) ↔ Presents fds config canonical blob := by
  simp only [inheritedFiles, bind_ok, ensure_ok, validateInheritedReadonlyFile_ok,
    readBoundedDescriptorFile_ok, pure, Except.pure, Except.ok.injEq, Prod.mk.injEq, exists_const]
  constructor
  · rintro ⟨⟨hc, hb⟩, hne, c, ⟨hcfile, hcr, hcp, hcg, hcs⟩, b, ⟨hbfile, hbr, hbp, hbg, hbs⟩, hid,
      _, ⟨hcsize, hccontent, hcle⟩, _, ⟨hbsize, hbcontent, hble⟩, rfl, rfl⟩
    exact ⟨hc, hb, hne, c, b, hcfile, hbfile, hid, ⟨hcr, hcp, hcg, hcs, hcsize, hccontent, hcle⟩,
      ⟨hbr, hbp, hbg, hbs, hbsize, hbcontent, hble⟩⟩
  · rintro ⟨hc, hb, hne, c, b, hcfile, hbfile, hid, hcy, hby⟩
    exact ⟨⟨hc, hb⟩, hne, c, ⟨hcfile, hcy.readOnly, hcy.pathOnly, hcy.regular, hcy.checkedSize⟩, b,
      ⟨hbfile, hby.readOnly, hby.pathOnly, hby.regular, hby.checkedSize⟩, hid,
      canonical, ⟨hcy.size, hcy.content, hcy.bounded⟩, blob, ⟨hby.size, hby.content, hby.bounded⟩,
      rfl, rfl⟩

/-! ### Opening -/

def Classification.text : Classification → String
  | .health => "health"
  | .transaction => "transaction"
  | .commit => "commit"
  | .recovery => "recovery"
  | .mutation => "mutation"
  | .read => "read"
  | .debug => "debug"

def inventoryLine (name : String) (classification : Classification) (wal : Bool) : String :=
  name ++ "\t" ++ classification.text ++ "\t" ++ toString wal ++ "\n"

def descriptorMethodSpecs : List MethodSpec :=
  methodSpecs.filter fun spec => spec.name ∈ descriptorMethodNames

section Open

variable [Externals]

def descriptorMethodInventorySha256 : String :=
  (sha256 (utf8 (String.join
    (descriptorMethodSpecs.map fun spec => inventoryLine spec.name spec.classification spec.wal)
    ++ String.join (boundedOperations.map fun name => inventoryLine name .read false)))).hex

/-- A generation zero comes with a binding and has a blob of the base layout. -/
def checkLegacyGeneration (config : DescriptorReadConfig) (state : State)
    (header : VectorBlobHeader) : Except String Unit := do
  ensure (config.legacyGeneration0 = true) "generation zero requires explicit legacyGeneration0"
  let binding ← ofOption config.legacyBindingSha256 "generation zero requires legacy binding hash"
  validateSha256 binding "legacy binding hash"
  ensure (state.vectorBlob.isNone = true)
    "generation zero must not contain a vectorBlob descriptor"
  ensure (header.version = vectorBlobVersionBase)
    "generation zero legacy blob must use the base layout"

/-- The blob of a positive generation is the one its state describes, and stands alone. -/
def checkDescribedBlob (config : DescriptorReadConfig) (state : State) (header : VectorBlobHeader)
    (blob : Bytes) : Except String Unit := do
  ensure (config.legacyGeneration0 = false ∧ config.legacyBindingSha256 = none)
    "legacy generation zero metadata is forbidden for positive generations"
  let descriptor ← ofOption state.vectorBlob
    "positive generation requires a vectorBlob descriptor"
  validateBlobBasename descriptor.basename
  ensure (descriptor.size.toNat = blob.length)
    "vector blob size does not match canonical descriptor"
  validateSha256 descriptor.sha256 "vectorBlob.sha256"
  ensure (descriptor.sha256 = (sha256 blob).hex)
    "vector blob hash does not match canonical descriptor"
  ensure (descriptor.format = header.version) "vector blob descriptor format mismatch"
  ensure (header.parent.isNone = true)
    "chained vector blob segment is unsupported in descriptor read-only mode"
  ensure (header.generation.any (· != state.generation) = false)
    "vector blob segment generation does not match the canonical generation"

def checkGeneration (config : DescriptorReadConfig) (state : State) (header : VectorBlobHeader)
    (blob : Bytes) : Except String Unit := do
  ensure (state.generation.toNat ≤ jsonSafeIntegerMax)
    "canonical generation exceeds MAX_SAFE_INTEGER"
  ensure (state.generation = config.expectedGeneration)
    "canonical generation does not match expectedGeneration"
  if config.expectedGeneration = 0 then checkLegacyGeneration config state header
  else checkDescribedBlob config state header blob

def initializeBoundedCatalog (state : State) (walk : Walk state) : Except String Catalog :=
  match ensureBoundedCatalog state walk with
  | .ok catalog => .ok catalog
  | .error failure =>
    .error ("descriptor bounded catalog initialization failed: " ++ failure.cls.reason)

/-- A process over what it was given to read. -/
structure DescriptorServer extends Memory where
  vectorBlobLineage : List VectorBlobDescriptor
  lastPersistBytes : ℕ
  catalog : Catalog
  handshake : DescriptorReadHandshake

def descriptorServer (config : DescriptorReadConfig) (canonical blob : Bytes) (memory : Memory)
    (lineage : List VectorBlobDescriptor) (catalog : Catalog) : DescriptorServer where
  toMemory := memory
  vectorBlobLineage := lineage
  lastPersistBytes := canonical.length
  catalog := catalog
  handshake := {
    canonicalSha256 := (sha256 canonical).hex
    vectorBlobSha256 := (sha256 blob).hex
    vectorBlobSize := blob.length
    legacyGeneration0 := config.legacyGeneration0
    legacyBindingSha256 := config.legacyBindingSha256
    methodInventorySha256 := descriptorMethodInventorySha256 }

/-- `walk` is the order in which the maps of a state are gone through. -/
def openDescriptorRead (walk : (state : State) → Walk state) (fds : OpenFiles)
    (config : DescriptorReadConfig) : Except String DescriptorServer := do
  let (canonical, blob) ← inheritedFiles fds config
  let header ← parseBlobHeader blob
  let state ← ofOption (fromSlice State.read canonical) "parse canonical descriptor failed"
  let _ ← validateStateCommitEvidence state
  checkGeneration config state header blob
  let vectorValues ← decodeVectorValues state [⟨header.generation, header.payloadOffset, blob⟩]
  let memory : Memory := ⟨releaseStateVectorValues state, vectorValues⟩
  let catalog ← initializeBoundedCatalog memory.state (walk memory.state)
  return descriptorServer config canonical blob memory state.vectorBlob.toList catalog

/-! ### A store of one segment -/

/-- The segment that a state is read with: its own, or the base beside a generation zero. -/
structure OneSegment (state : State) (header : VectorBlobHeader) (blob : Bytes) : Prop where
  parsed : parseBlobHeader blob = .ok header
  zero : state.generation = 0 → state.vectorBlob = none ∧ header.version = vectorBlobVersionBase
  positive : state.generation ≠ 0 → ∃ d, state.vectorBlob = some d
    ∧ validateBlobBasename d.basename = .ok () ∧ d.size.toNat = blob.length
    ∧ d.sha256 = (sha256 blob).hex ∧ d.format = header.version ∧ header.parent = none
    ∧ ∀ generation, header.generation = some generation → generation = state.generation

/-- What a configuration says of the generation of a state. -/
structure Admits (config : DescriptorReadConfig) (state : State) : Prop where
  safe : state.generation.toNat ≤ jsonSafeIntegerMax
  expected : state.generation = config.expectedGeneration
  zero : state.generation = 0 → config.legacyGeneration0 = true
    ∧ ∃ binding, config.legacyBindingSha256 = some binding ∧ isLowerHexText binding 32 = true
  positive : state.generation ≠ 0 →
    config.legacyGeneration0 = false ∧ config.legacyBindingSha256 = none

omit [Externals] in
theorem validateSha256_ok {value field : String} {u : Unit} :
    validateSha256 value field = .ok u ↔ isLowerHexText value 32 = true := by
  rw [validateSha256]
  split_ifs with h <;> simp [h]

omit [Externals] in
theorem checkLegacyGeneration_ok {config : DescriptorReadConfig} {state : State}
    {header : VectorBlobHeader} {u : Unit} :
    checkLegacyGeneration config state header = .ok u ↔
      (config.legacyGeneration0 = true ∧ ∃ binding, config.legacyBindingSha256 = some binding
        ∧ isLowerHexText binding 32 = true)
      ∧ state.vectorBlob = none ∧ header.version = vectorBlobVersionBase := by
  simp only [checkLegacyGeneration, bind_ok, ensure_ok, ofOption_ok, validateSha256_ok,
    exists_const, Option.isNone_iff_eq_none]
  constructor
  · rintro ⟨hlegacy, binding, hbinding, hhex, hnone, hbase⟩
    exact ⟨⟨hlegacy, binding, hbinding, hhex⟩, hnone, hbase⟩
  · rintro ⟨⟨hlegacy, binding, hbinding, hhex⟩, hnone, hbase⟩
    exact ⟨hlegacy, binding, hbinding, hhex, hnone, hbase⟩

omit [Externals] in
theorem any_ne_eq_false {generation : Option UInt64} {canonical : UInt64} :
    generation.any (· != canonical) = false ↔ ∀ g, generation = some g → g = canonical := by
  rcases generation with _ | g <;> simp

theorem checkDescribedBlob_ok {config : DescriptorReadConfig} {state : State}
    {header : VectorBlobHeader} {blob : Bytes} {u : Unit} :
    checkDescribedBlob config state header blob = .ok u ↔
      (config.legacyGeneration0 = false ∧ config.legacyBindingSha256 = none)
      ∧ ∃ d, state.vectorBlob = some d ∧ validateBlobBasename d.basename = .ok ()
        ∧ d.size.toNat = blob.length ∧ d.sha256 = (sha256 blob).hex ∧ d.format = header.version
        ∧ header.parent = none
        ∧ ∀ generation, header.generation = some generation → generation = state.generation := by
  simp only [checkDescribedBlob, bind_ok, ensure_ok, ofOption_ok, validateSha256_ok,
    exists_const, Option.isNone_iff_eq_none, any_ne_eq_false]
  constructor
  · rintro ⟨hconfig, d, hd, ⟨⟩, hname, hsize, -, hsha, hrest⟩
    exact ⟨hconfig, d, hd, hname, hsize, hsha, hrest⟩
  · rintro ⟨hconfig, d, hd, hname, hsize, hsha, hrest⟩
    refine ⟨hconfig, d, hd, (), hname, hsize, ?_, hsha, hrest⟩
    rw [hsha]
    exact Digest.isLowerHexText_hex _

theorem checkGeneration_ok {config : DescriptorReadConfig} {state : State}
    {header : VectorBlobHeader} {blob : Bytes} (hparsed : parseBlobHeader blob = .ok header)
    {u : Unit} : checkGeneration config state header blob = .ok u ↔
      Admits config state ∧ OneSegment state header blob := by
  simp only [checkGeneration, bind_ok, ensure_ok, exists_const]
  constructor
  · rintro ⟨hsafe, hexpected, hcheck⟩
    rw [← hexpected] at hcheck
    split_ifs at hcheck with hzero
    · obtain ⟨hconfig, hblob⟩ := checkLegacyGeneration_ok.mp hcheck
      exact ⟨⟨hsafe, hexpected, fun _ => hconfig, fun h => absurd hzero h⟩,
        ⟨hparsed, fun _ => hblob, fun h => absurd hzero h⟩⟩
    · obtain ⟨hconfig, hblob⟩ := checkDescribedBlob_ok.mp hcheck
      exact ⟨⟨hsafe, hexpected, fun h => absurd h hzero, fun _ => hconfig⟩,
        ⟨hparsed, fun h => absurd h hzero, fun _ => hblob⟩⟩
  · rintro ⟨hadmits, hone⟩
    refine ⟨hadmits.safe, hadmits.expected, ?_⟩
    rw [← hadmits.expected]
    split_ifs with hzero
    · exact checkLegacyGeneration_ok.mpr ⟨hadmits.zero hzero, hone.zero hzero⟩
    · exact checkDescribedBlob_ok.mpr ⟨hadmits.positive hzero, hone.positive hzero⟩

theorem initializeBoundedCatalog_ok {state : State} {walk : Walk state} {catalog : Catalog} :
    initializeBoundedCatalog state walk = .ok catalog ↔ ensureBoundedCatalog state walk = .ok catalog := by
  rw [initializeBoundedCatalog]
  rcases ensureBoundedCatalog state walk with failure | c <;> simp

/-- What was read and decoded from the two files. -/
structure Opens (fds : OpenFiles) (config : DescriptorReadConfig) (canonical blob : Bytes)
    (state : State) (values : Map (List F64)) : Prop where
  presents : Presents fds config canonical blob
  parsed : fromSlice State.read canonical = some state
  evidence : ∃ e, validateStateCommitEvidence state = .ok e
  admits : Admits config state
  decoded : ∃ header, OneSegment state header blob
    ∧ decodeVectorValues state [⟨header.generation, header.payloadOffset, blob⟩] = .ok values

theorem openDescriptorRead_ok {walk : (state : State) → Walk state} {fds : OpenFiles}
    {config : DescriptorReadConfig} {d : DescriptorServer} :
    openDescriptorRead walk fds config = .ok d ↔
      ∃ canonical blob state values catalog, Opens fds config canonical blob state values
        ∧ ensureBoundedCatalog (releaseStateVectorValues state)
          (walk (releaseStateVectorValues state)) = .ok catalog
        ∧ d = descriptorServer config canonical blob ⟨releaseStateVectorValues state, values⟩
          state.vectorBlob.toList catalog := by
  simp only [openDescriptorRead, bind_ok, ofOption_ok, initializeBoundedCatalog_ok, pure,
    Except.pure, Except.ok.injEq]
  constructor
  · rintro ⟨⟨canonical, blob⟩, hfiles, header, hparsed, state, hstate, e, hevidence, ⟨⟩, hcheck,
      values, hvalues, catalog, hcatalog, rfl⟩
    obtain ⟨hadmits, hone⟩ := (checkGeneration_ok hparsed).mp hcheck
    exact ⟨canonical, blob, state, values, catalog, ⟨inheritedFiles_ok.mp hfiles, hstate,
      ⟨e, hevidence⟩, hadmits, header, hone, hvalues⟩, hcatalog, rfl⟩
  · rintro ⟨canonical, blob, state, values, catalog, ⟨hfiles, hstate, ⟨e, hevidence⟩, hadmits,
      header, hone, hvalues⟩, hcatalog, rfl⟩
    exact ⟨(canonical, blob), inheritedFiles_ok.mpr hfiles, header, hone.parsed, state, hstate, e,
      hevidence, (), (checkGeneration_ok hone.parsed).mpr ⟨hadmits, hone⟩, values, hvalues, catalog,
      hcatalog, rfl⟩

/-! ### The same store by its path -/

/-- The file that the values of a state are loaded from first. -/
def blobNameOf (dbStem : String) (state : State) : String :=
  (state.vectorBlob.map (·.basename)).getD (legacyBlobName dbStem)

omit [Externals] in
theorem parseBlobHeader_base {blob : Bytes} {header : VectorBlobHeader}
    (h : parseBlobHeader blob = .ok header) (hbase : header.version = vectorBlobVersionBase) :
    header.generation = none ∧ header.parent = none := by
  have hnot : ∀ {g p o}, (⟨vectorBlobVersion, g, p, o⟩ : VectorBlobHeader) = header → False := by
    rintro g p o rfl
    exact absurd (show vectorBlobVersion = vectorBlobVersionBase from hbase) (by decide)
  rw [parseBlobHeader] at h
  split_ifs at h with hshort hmagic
  dsimp only at h
  split_ifs at h with hversion hother
  · cases h
    exact ⟨rfl, rfl⟩
  · obtain ⟨⟨generation, c₁⟩, -, h⟩ := bind_ok.mp h
    dsimp only at h
    split at h
    · cases h
    · obtain ⟨⟨parentLen, c₂⟩, -, h⟩ := bind_ok.mp h
      dsimp only at h
      split at h
      · exact (hnot (Except.ok.inj h)).elim
      · obtain ⟨⟨parent, c₃⟩, -, h⟩ := bind_ok.mp h
        exact (hnot (Except.ok.inj h)).elim

theorem readValidatedBlob_of {files : Map Bytes} {d : VectorBlobDescriptor} {raw : Bytes}
    {header : VectorBlobHeader} (hfile : files[d.basename]? = some raw)
    (hsize : d.size.toNat = raw.length) (hparsed : parseBlobHeader raw = .ok header)
    (hformat : d.format = header.version) (hsha : d.sha256 = (sha256 raw).hex) :
    readValidatedBlob files d = .ok raw := by
  simp [readValidatedBlob, hfile, hsize, hparsed, hformat, hsha, bind, Except.bind, pure, Except.pure]

/-- Before any segment is visited. -/
def startWalk (state : State) : LineageWalk :=
  ⟨[], 0, none, ⟨pendingVectorRefs state, inlineVectorValues state⟩⟩

/-- A base is the whole lineage. -/
theorem walkLineage_base {state : State} {files : Map Bytes} {d : VectorBlobDescriptor} {raw : Bytes}
    {header : VectorBlobHeader} {values : LineageValues} {n : ℕ}
    (hread : readValidatedBlob files d = .ok raw) (hparsed : parseBlobHeader raw = .ok header)
    (hname : validateBlobBasename d.basename = .ok ())
    (hsize : d.size.toNat ≤ maxVectorBlobLineageBytes) (hparent : header.parent = none)
    (hgen : ∀ generation, header.generation = some generation → generation = state.generation)
    (hvalues : applyVectorSegment ⟨header.generation, header.payloadOffset, raw⟩
      ⟨pendingVectorRefs state, inlineVectorValues state⟩ = .ok values) :
    walkLineage state.generation files (n + 1) (startWalk state) d = .ok ([d], values) := by
  have hcheck : checkSegmentGeneration state.generation none header.generation = .ok () := by
    rcases h : header.generation with _ | generation
    · rfl
    · simp [checkSegmentGeneration, hgen generation h]
  have hvisit : visitSegment state.generation files (startWalk state) d = .ok (header,
      ⟨[d.basename], 0 + d.size.toNat, header.generation.or none, values⟩) := by
    simp [visitSegment, startWalk, hname, hread, hparsed, hcheck, hvalues, Nat.not_lt.mpr hsize, bind,
      Except.bind, pure, Except.pure]
  rw [walkLineage, hvisit]
  simp [hparent, bind, Except.bind, pure, Except.pure]

theorem walkLineage_ne_nil {canonical : UInt64} {files : Map Bytes} {n : ℕ} {walk : LineageWalk}
    {d : VectorBlobDescriptor} {lineage : List VectorBlobDescriptor} {loaded : LineageValues}
    (h : walkLineage canonical files n walk d = .ok (lineage, loaded)) : lineage ≠ [] := by
  cases n with
  | zero => cases h
  | succ n =>
    obtain ⟨header, after, -, ⟨-, rfl⟩ | ⟨parent, rest, -, rfl, -⟩⟩ := walkLineage_ok h <;> simp

/-- What a lineage of one segment was loaded from. -/
theorem walkLineage_one {state : State} {files : Map Bytes} {d : VectorBlobDescriptor}
    {lineage : List VectorBlobDescriptor} {loaded : LineageValues} {n : ℕ}
    (h : walkLineage state.generation files (n + 1) (startWalk state) d = .ok (lineage, loaded))
    (hone : lineage.length ≤ 1) :
    lineage = [d] ∧ validateBlobBasename d.basename = .ok () ∧ ∃ raw header,
      files[d.basename]? = some raw ∧ raw.length = d.size.toNat ∧ d.sha256 = (sha256 raw).hex
      ∧ parseBlobHeader raw = .ok header ∧ d.format = header.version ∧ header.parent = none
      ∧ (∀ generation, header.generation = some generation → generation = state.generation)
      ∧ applyVectorSegment ⟨header.generation, header.payloadOffset, raw⟩
        ⟨pendingVectorRefs state, inlineVectorValues state⟩ = .ok loaded := by
  rw [walkLineage] at h
  obtain ⟨⟨header, after⟩, hvisit, h⟩ := bind_ok.mp h
  obtain ⟨hverified, -, -, -, -, -, -, hcheck⟩ := visitSegment_ok hvisit
  obtain ⟨raw, hfile, hlen, hparsed, hsha⟩ := hverified.file
  have hread := readValidatedBlob_of hfile hlen.symm hparsed hverified.format hsha
  dsimp only at h
  split at h
  · next hparent =>
    cases h
    refine ⟨rfl, hverified.basename, raw, header, hfile, hlen, hsha, hparsed, hverified.format,
      hparent, ?_, ?_⟩
    · intro generation hgen
      by_contra hne
      simp [startWalk, hgen, checkSegmentGeneration, hne] at hcheck
    · simp only [visitSegment, startWalk, bind, Except.bind, pure, Except.pure, hread, hparsed,
        hverified.basename] at hvisit
      split at hvisit
      · cases hvisit
      · split at hvisit
        · cases hvisit
        · rcases hgen : checkSegmentGeneration state.generation none header.generation with e | _
          · rw [hgen] at hvisit
            cases hvisit
          · rw [hgen] at hvisit
            dsimp only at hvisit
            split at hvisit
            · cases hvisit
            · next loaded' hloaded =>
              cases hvisit
              exact hloaded
  · next parent _ =>
    obtain ⟨⟨rest, loaded'⟩, hrest, h⟩ := bind_ok.mp h
    cases h
    have := walkLineage_ne_nil hrest
    rcases rest with _ | ⟨d', rest⟩
    · exact absurd rfl this
    · simp at hone

omit [Externals] in
theorem decodeVectorValues_one {state : State} {segment : LoadedVectorSegment}
    {values : Map (List F64)} : decodeVectorValues state [segment] = .ok values ↔
      ∃ loaded, applyVectorSegment segment ⟨pendingVectorRefs state, inlineVectorValues state⟩
          = .ok loaded ∧ unresolvedVectorRefsError loaded.pending = .ok () ∧ loaded.values = values := by
  simp only [decodeVectorValues, List.foldlM_cons, List.foldlM_nil, bind_ok, pure, Except.pure,
    Except.ok.injEq]
  constructor
  · rintro ⟨loaded, ⟨_, hloaded, rfl⟩, _, hpending, rfl⟩
    exact ⟨_, hloaded, hpending, rfl⟩
  · rintro ⟨loaded, hloaded, hpending, rfl⟩
    exact ⟨loaded, ⟨loaded, hloaded, rfl⟩, (), hpending, rfl⟩

theorem loadVectorLineage_one {state : State} {files : Map Bytes} {d : VectorBlobDescriptor}
    {blob : Bytes} (hfile : files[d.basename]? = some blob) {lineage : List VectorBlobDescriptor}
    {values : Map (List F64)} :
    loadVectorLineage state d files = .ok (lineage, values) ∧ lineage.length ≤ 1 ↔
      lineage = [d] ∧ validateBlobBasename d.basename = .ok ()
        ∧ d.size.toNat ≤ maxVectorBlobLineageBytes ∧ d.size.toNat = blob.length
        ∧ d.sha256 = (sha256 blob).hex ∧ ∃ header, parseBlobHeader blob = .ok header
        ∧ d.format = header.version ∧ header.parent = none
        ∧ (∀ generation, header.generation = some generation → generation = state.generation)
        ∧ decodeVectorValues state [⟨header.generation, header.payloadOffset, blob⟩] = .ok values := by
  have hfuel : maxVectorBlobLineage = 4095 + 1 := rfl
  rw [loadVectorLineage, hfuel, bind_ok]
  constructor
  · rintro ⟨⟨⟨found, loaded⟩, hwalk, h⟩, hone⟩
    obtain ⟨⟨⟩, hpending, h⟩ := bind_ok.mp h
    cases h
    obtain ⟨header, after, hvisit, -⟩ := walkLineage_ok hwalk
    obtain ⟨-, -, -, -, -, hbytes, hle, -⟩ := visitSegment_ok hvisit
    obtain ⟨hlineage, hname, raw, header, hraw, hlen, hsha, hparsed, hformat, hparent, hgen, hvalues⟩ :=
      walkLineage_one hwalk hone
    obtain rfl : raw = blob := Option.some.inj (hraw.symm.trans hfile)
    refine ⟨hlineage, hname, ?_, hlen.symm, hsha, header, hparsed, hformat, hparent, hgen,
      decodeVectorValues_one.mpr ⟨loaded, hvalues, hpending, rfl⟩⟩
    omega
  · rintro ⟨rfl, hname, hle, hsize, hsha, header, hparsed, hformat, hparent, hgen, hvalues⟩
    obtain ⟨loaded, hloaded, hpending, rfl⟩ := decodeVectorValues_one.mp hvalues
    have hread := readValidatedBlob_of hfile hsize hparsed hformat hsha
    refine ⟨⟨([d], loaded), walkLineage_base hread hparsed hname hle hparent hgen hloaded, ?_⟩, le_rfl⟩
    exact bind_ok.mpr ⟨(), hpending, rfl⟩

omit [Externals] in
theorem legacySegments_ok {blob : Bytes} {segments : List LoadedVectorSegment} :
    legacySegments (some blob) = .ok segments ↔ ∃ header, parseBlobHeader blob = .ok header
      ∧ header.version = vectorBlobVersionBase
      ∧ segments = [⟨header.generation, header.payloadOffset, blob⟩] := by
  rw [legacySegments, bind_ok]
  refine exists_congr fun header => and_congr_right fun hparsed => ?_
  by_cases hbase : header.version = vectorBlobVersionBase
  · rw [if_neg (not_not.mpr hbase), (parseBlobHeader_base hparsed hbase).1]
    simp [hbase, pure, Except.pure, eq_comm]
  · rw [if_pos hbase]
    simp [hbase, throw, throwThe, MonadExceptOf.throw, bind, Except.bind]

/-- A state has a blob of its own exactly when it was committed. -/
theorem loadVectorValues_ok {state : State} {files : Map Bytes} {legacyName : String}
    {values : Map (List F64)} {lineage : List VectorBlobDescriptor} :
    loadVectorValues state files legacyName = .ok (values, lineage) ↔
      (state.generation = 0 ∧ state.vectorBlob = none ∧ lineage = [] ∧ ∃ segments,
        legacySegments files[legacyName]? = .ok segments
          ∧ decodeVectorValues state segments = .ok values)
      ∨ (state.generation ≠ 0 ∧ ∃ d, state.vectorBlob = some d
        ∧ loadVectorLineage state d files = .ok (lineage, values)) := by
  have hpos : 0 < state.generation ↔ state.generation ≠ 0 := UInt64.pos_iff_ne_zero
  rw [loadVectorValues]
  rcases hblob : state.vectorBlob with _ | d
  · by_cases hzero : state.generation = 0
    · rw [if_neg (by simp), if_neg (by simp [hzero])]
      simp only [bind_ok]
      constructor
      · rintro ⟨segments, hsegments, decoded, hdecoded, h⟩
        cases h
        exact .inl ⟨hzero, trivial, rfl, segments, hsegments, hdecoded⟩
      · rintro (⟨-, -, rfl, segments, hsegments, hdecoded⟩ | ⟨hne, -⟩)
        · exact ⟨segments, hsegments, values, hdecoded, rfl⟩
        · exact absurd hzero hne
    · simp [hpos, hzero, throw, throwThe, MonadExceptOf.throw, bind, Except.bind]
  · by_cases hzero : state.generation = 0
    · simp [hzero, throw, throwThe, MonadExceptOf.throw, bind, Except.bind]
    · simp only [hzero, Option.isNone_some, Bool.false_eq_true, and_false, false_and, if_false,
        bind_ok, pure, Except.pure, Except.ok.injEq, Prod.mk.injEq, ne_eq, not_false_eq_true,
        true_and, Option.some.injEq, exists_eq_left', false_or]
      constructor
      · rintro ⟨⟨_, _⟩, h, rfl, rfl⟩
        exact h
      · intro h
        exact ⟨_, h, rfl, rfl⟩

/-- Loading by the path reads one segment exactly when loading by descriptors does. -/
theorem loadVectorValues_one {state : State} {files : Map Bytes} {dbStem : String} {blob : Bytes}
    (hfile : files[blobNameOf dbStem state]? = some blob)
    (hbounded : blob.length ≤ maxVectorBlobLineageBytes) {values : Map (List F64)}
    {lineage : List VectorBlobDescriptor} :
    loadVectorValues state files (legacyBlobName dbStem) = .ok (values, lineage)
        ∧ lineage.length ≤ 1 ↔
      lineage = state.vectorBlob.toList ∧ ∃ header, OneSegment state header blob
        ∧ decodeVectorValues state [⟨header.generation, header.payloadOffset, blob⟩] = .ok values := by
  rw [loadVectorValues_ok]
  by_cases hzero : state.generation = 0
  · constructor
    · rintro ⟨⟨-, hblob, rfl, segments, hsegments, hvalues⟩ | ⟨hne, -⟩, -⟩
      · rw [blobNameOf, hblob] at hfile
        change files[legacyBlobName dbStem]? = some blob at hfile
        rw [hfile] at hsegments
        obtain ⟨header, hparsed, hbase, rfl⟩ := legacySegments_ok.mp hsegments
        exact ⟨by rw [hblob]; rfl, header, ⟨hparsed, fun _ => ⟨hblob, hbase⟩,
          fun hne => absurd hzero hne⟩, hvalues⟩
      · exact absurd hzero hne
    · rintro ⟨rfl, header, hone, hvalues⟩
      obtain ⟨hblob, hbase⟩ := hone.zero hzero
      rw [blobNameOf, hblob] at hfile
      refine ⟨.inl ⟨hzero, hblob, by rw [hblob]; rfl, _, ?_, hvalues⟩, by rw [hblob]; simp⟩
      change files[legacyBlobName dbStem]? = some blob at hfile
      rw [hfile]
      exact legacySegments_ok.mpr ⟨header, hone.parsed, hbase, rfl⟩
  · constructor
    · rintro ⟨⟨hgen, -⟩ | ⟨-, d, hblob, hload⟩, hle⟩
      · exact absurd hgen hzero
      · rw [blobNameOf, hblob] at hfile
        obtain ⟨rfl, hname, -, hsize, hsha, header, hparsed, hformat, hparent, hgen, hvalues⟩ :=
          (loadVectorLineage_one hfile).mp ⟨hload, hle⟩
        exact ⟨by rw [hblob]; rfl, header, ⟨hparsed, fun h => absurd h hzero,
          fun _ => ⟨d, hblob, hname, hsize, hsha, hformat, hparent, hgen⟩⟩, hvalues⟩
    · rintro ⟨rfl, header, hone, hvalues⟩
      obtain ⟨d, hblob, hname, hsize, hsha, hformat, hparent, hgen⟩ := hone.positive hzero
      rw [blobNameOf, hblob] at hfile
      have hload := (loadVectorLineage_one hfile).mpr ⟨rfl, hname, hsize.trans_le hbounded, hsize,
        hsha, header, hone.parsed, hformat, hparent, hgen, hvalues⟩
      rw [hblob]
      exact ⟨.inr ⟨hzero, d, rfl, hload.1⟩, le_rfl⟩

/-- A directory that holds what the descriptors yield. -/
structure Stored (dbStem : String) (dir : Dir) (canonical blob : Bytes) : Prop where
  canonicalFile : dir.canonical = some canonical
  blobFile : ∀ state, fromSlice State.read canonical = some state →
    dir.files[blobNameOf dbStem state]? = some blob

/-- A store that is opened by its path from one segment. -/
structure OpensAlone (dbStem : String) (dir : Dir) (memory : Memory)
    (lineage : List VectorBlobDescriptor) : Prop where
  opened : ∃ s, openResolved dbStem dir = .ok s ∧ s.toMemory = memory ∧ s.vectorBlobLineage = lineage
  alone : lineage.length ≤ 1

theorem openResolved_ok {dbStem : String} {dir : Dir} {memory : Memory}
    {lineage : List VectorBlobDescriptor} :
    (∃ s, openResolved dbStem dir = .ok s ∧ s.toMemory = memory ∧ s.vectorBlobLineage = lineage) ↔
      ∃ state values, readCanonical dir.canonical = .ok state
        ∧ (∃ e, validateStateCommitEvidence state = .ok e)
        ∧ loadVectorValues state dir.files (legacyBlobName dbStem) = .ok (values, lineage)
        ∧ memory = ⟨releaseStateVectorValues state, values⟩ := by
  constructor
  · rintro ⟨s, h, rfl, rfl⟩
    obtain ⟨state, hstate, h⟩ := bind_ok.mp h
    obtain ⟨e, hevidence, h⟩ := bind_ok.mp h
    obtain ⟨⟨values, lineage⟩, hload, h⟩ := bind_ok.mp h
    cases h
    exact ⟨state, values, hstate, ⟨e, hevidence⟩, hload, rfl⟩
  · rintro ⟨state, values, hstate, ⟨e, hevidence⟩, hload, rfl⟩
    exact ⟨_, bind_ok.mpr ⟨state, hstate, bind_ok.mpr ⟨e, hevidence, bind_ok.mpr ⟨_, hload, rfl⟩⟩⟩,
      rfl, rfl⟩

omit [Externals] in
theorem readCanonical_some [Externals] {raw : Bytes} {state : State} :
    readCanonical (some raw) = .ok state ↔ fromSlice State.read raw = some state := by
  rw [readCanonical]
  rcases fromSlice State.read raw with _ | s <;> simp

/-- A process opens what it is given exactly when a directory that holds it is opened from one
segment, its generation is the expected one and it has a catalog; and then it has the same state,
vectors and lineage. -/
theorem descriptor_open_agrees {walk : (state : State) → Walk state} {fds : OpenFiles}
    {config : DescriptorReadConfig} :
    (∀ d, openDescriptorRead walk fds config = .ok d →
      ∃ canonical blob, Presents fds config canonical blob)
    ∧ ∀ canonical blob, Presents fds config canonical blob →
      ∀ dbStem dir, Stored dbStem dir canonical blob → ∀ d,
        openDescriptorRead walk fds config = .ok d ↔
          ∃ memory lineage catalog, OpensAlone dbStem dir memory lineage
            ∧ Admits config memory.state
            ∧ ensureBoundedCatalog memory.state (walk memory.state) = .ok catalog
            ∧ d = descriptorServer config canonical blob memory lineage catalog := by
  constructor
  · intro d h
    obtain ⟨canonical, blob, _, _, _, hopens, -⟩ := openDescriptorRead_ok.mp h
    exact ⟨canonical, blob, hopens.presents⟩
  · intro canonical blob hpresents dbStem dir hstored d
    have hbounded : blob.length ≤ maxVectorBlobLineageBytes := by
      obtain ⟨_, _, -, -, -, -, hblob⟩ := hpresents.files
      exact hblob.bounded.trans (by decide)
    constructor
    · intro h
      obtain ⟨canonical', blob', state, values, catalog, hopens, hcatalog, rfl⟩ :=
        openDescriptorRead_ok.mp h
      obtain ⟨rfl, rfl⟩ : canonical' = canonical ∧ blob' = blob := by
        have := (inheritedFiles_ok.mpr hopens.presents).symm.trans (inheritedFiles_ok.mpr hpresents)
        simpa using this
      obtain ⟨hload, hone⟩ := (loadVectorValues_one (hstored.blobFile state hopens.parsed) hbounded).mpr
        ⟨rfl, hopens.decoded⟩
      refine ⟨_, _, catalog, ⟨openResolved_ok.mpr ⟨state, values, ?_, hopens.evidence, hload, rfl⟩,
        hone⟩, ?_, hcatalog, rfl⟩
      · rw [hstored.canonicalFile]
        exact readCanonical_some.mpr hopens.parsed
      · exact ⟨hopens.admits.safe, hopens.admits.expected, hopens.admits.zero, hopens.admits.positive⟩
    · rintro ⟨memory, lineage, catalog, halone, hadmits, hcatalog, rfl⟩
      obtain ⟨state, values, hstate, hevidence, hload, rfl⟩ := openResolved_ok.mp halone.opened
      rw [hstored.canonicalFile, readCanonical_some] at hstate
      obtain ⟨rfl, hdecoded⟩ := (loadVectorValues_one (hstored.blobFile state hstate) hbounded).mp
        ⟨hload, halone.alone⟩
      exact openDescriptorRead_ok.mpr ⟨canonical, blob, state, values, catalog, ⟨hpresents, hstate,
        hevidence, ⟨hadmits.safe, hadmits.expected, hadmits.zero, hadmits.positive⟩, hdecoded⟩,
        hcatalog, rfl⟩

end Open

/-! ### A generation zero -/

attribute [local instance] Concrete.externals

def legacyCanonical : Bytes :=
  (Value.obj [("nodes", .obj []), ("edges", .obj []), ("vectors", .obj []), ("passages", .obj []),
    ("snapshots", .obj []), ("checkpoints", .obj [])]).print Concrete.bitsText

/-- The header of a base, and no values. -/
def legacyBlob : Bytes := vectorBlobMagic ++ [1, 0]

def legacyDir : Dir :=
  { Dir.empty with canonical := some legacyCanonical, files := (∅ : Map Bytes).insert "a.vblob" legacyBlob }

def legacyConfig : DescriptorReadConfig := ⟨3, 4, 0, true, some (hex (List.replicate 32 0))⟩

def inherited (identity : ℕ) (content : Bytes) : InheritedFile :=
  ⟨true, false, true, (0, identity), content.length, content.length, content⟩

def legacyFiles : OpenFiles := fun fd =>
  if fd = 3 then some (inherited 1 legacyCanonical)
  else if fd = 4 then some (inherited 2 legacyBlob) else none

theorem legacy_presents : Presents legacyFiles legacyConfig legacyCanonical legacyBlob where
  canonicalFd := by decide
  vectorBlobFd := by decide
  distinct := by decide
  files := ⟨inherited 1 legacyCanonical, inherited 2 legacyBlob, rfl, rfl, by decide,
    ⟨rfl, rfl, rfl, by decide, rfl, rfl, by decide⟩, ⟨rfl, rfl, rfl, by decide, rfl, rfl, by decide⟩⟩

theorem legacy_stored : Stored "a" legacyDir legacyCanonical legacyBlob where
  canonicalFile := rfl
  blobFile := by
    intro state h
    have hread : (fromSlice State.read legacyCanonical).map (·.vectorBlob) = some none := by rfl
    have hblob : state.vectorBlob = none := by simpa [h] using hread
    rw [blobNameOf, hblob]
    rfl

theorem descriptor_open_agrees_legacy : ∃ memory lineage, OpensAlone "a" legacyDir memory lineage
    ∧ Admits legacyConfig memory.state := by
  have hopen : (openDescriptorRead keyWalk legacyFiles legacyConfig).isOk = true := by rfl
  obtain ⟨d, hd⟩ := exists_ok hopen
  obtain ⟨memory, lineage, _, halone, hadmits, -⟩ :=
    (descriptor_open_agrees.2 _ _ legacy_presents _ _ legacy_stored d).mp hd
  exact ⟨memory, lineage, halone, hadmits⟩

end AiraGraphdb.Native
