import AiraGraphdb.Native.BlobHeader
import AiraGraphdb.Native.Lineage
import AiraGraphdb.Native.Crash

/-! # The ceilings of a lineage

A start walks the lineage of the committed descriptor and gives up on one that is too long or too
large. A commit projects both figures before it writes a byte. What the server holds as its lineage
is at all times a chain of segments in the directory, each linked to the next by its header, and a
commit puts one segment in front of it or starts it anew. So the projection is the loader's own sum,
and nothing but a name can keep the loader from a generation that was committed. -/

namespace AiraGraphdb.Native

open Schemes Schemes.Json

/-! ### Chains of segments -/

/-- A segment of a lineage and the header that its file starts with. -/
structure Segment where
  descriptor : VectorBlobDescriptor
  header : VectorBlobHeader

def descriptors (segments : List Segment) : List VectorBlobDescriptor :=
  segments.map Segment.descriptor

def generations (segments : List Segment) : List UInt64 :=
  segments.filterMap fun segment => segment.header.generation

/-- The generations fall from that of the child, or from the canonical one. -/
structure Descends (canonical : UInt64) (child : Option UInt64) (gens : List UInt64) : Prop where
  falling : gens.Pairwise fun a b => b < a
  head : match child with
    | some c => ∀ g ∈ gens, g < c
    | none => ∀ g ∈ gens.head?, g = canonical

/-- What the loader asks of a chain before it decodes a vector, with so many segments left to the
bound and after the names, the bytes and the generation that it has passed. -/
structure Passes (canonical : UInt64) (n : ℕ) (seen : List String) (total : ℕ)
    (child : Option UInt64) (segments : List Segment) : Prop where
  names : ∀ d ∈ descriptors segments, validateBlobBasename d.basename = .ok ()
  nodup : ((descriptors segments).map VectorBlobDescriptor.basename).Nodup
  fresh : ∀ d ∈ descriptors segments, d.basename ∉ seen
  count : segments.length ≤ n
  bytes : total + lineageSize (descriptors segments) ≤ maxVectorBlobLineageBytes
  descends : Descends canonical child (generations segments)

@[simp] theorem descriptors_cons (segment : Segment) (rest : List Segment) :
    descriptors (segment :: rest) = segment.descriptor :: descriptors rest := rfl

theorem generations_cons (segment : Segment) (rest : List Segment) :
    generations (segment :: rest) = segment.header.generation.toList ++ generations rest := by
  rw [generations, List.filterMap_cons]
  rcases segment.header.generation <;> rfl

theorem lineageSize_cons (d : VectorBlobDescriptor) (rest : List VectorBlobDescriptor) :
    lineageSize (d :: rest) = d.size.toNat + lineageSize rest := by
  rw [lineageSize, List.map_cons, List.sum_cons]
  rfl

/-- A segment in front of generations that fall. -/
theorem descends_cons {canonical : UInt64} {child generation : Option UInt64}
    {gens : List UInt64} : Descends canonical child (generation.toList ++ gens) ↔
      checkSegmentGeneration canonical child generation = .ok ()
        ∧ Descends canonical (generation.or child) gens := by
  rcases generation with _ | g
  · rcases child with _ | c <;> simp [checkSegmentGeneration]
  · simp only [Option.toList_some, List.singleton_append, Option.some_or]
    have htail : Descends canonical (some g) gens ↔ gens.Pairwise (fun a b => b < a)
        ∧ ∀ x ∈ gens, x < g := ⟨fun h => ⟨h.falling, h.head⟩, fun h => ⟨h.1, h.2⟩⟩
    rw [htail]
    rcases child with _ | c
    · have hcheck : checkSegmentGeneration canonical none (some g) = .ok () ↔ g = canonical := by
        rw [checkSegmentGeneration]
        split <;> simp_all
      rw [hcheck]
      constructor
      · intro h
        obtain ⟨hbelow, hfalling⟩ := List.pairwise_cons.mp h.falling
        exact ⟨h.head g rfl, hfalling, hbelow⟩
      · rintro ⟨hg, hfalling, hbelow⟩
        refine ⟨List.pairwise_cons.mpr ⟨hbelow, hfalling⟩, ?_⟩
        intro x hx
        cases hx
        exact hg
    · have hcheck : checkSegmentGeneration canonical (some c) (some g) = .ok () ↔ g < c := by
        rw [checkSegmentGeneration]
        split
        · next hle => exact iff_of_false (by simp) (UInt64.not_lt.mpr hle)
        · next hlt => exact iff_of_true rfl (UInt64.not_le.mp hlt)
      rw [hcheck]
      constructor
      · intro h
        obtain ⟨hbelow, hfalling⟩ := List.pairwise_cons.mp h.falling
        exact ⟨h.head g (by simp), hfalling, hbelow⟩
      · rintro ⟨hg, hfalling, hbelow⟩
        refine ⟨List.pairwise_cons.mpr ⟨hbelow, hfalling⟩, ?_⟩
        intro x hx
        rcases List.mem_cons.mp hx with rfl | hx
        · exact hg
        · exact UInt64.lt_trans (hbelow x hx) hg

/-- A chain passes when its first segment does and the rest passes after it. -/
theorem passes_cons {canonical : UInt64} {n : ℕ} {seen : List String} {total : ℕ}
    {child : Option UInt64} {d : VectorBlobDescriptor} {header : VectorBlobHeader}
    {rest : List Segment} : Passes canonical (n + 1) seen total child (⟨d, header⟩ :: rest) ↔
      (validateBlobBasename d.basename = .ok () ∧ d.basename ∉ seen
        ∧ checkSegmentGeneration canonical child header.generation = .ok ())
      ∧ Passes canonical n (d.basename :: seen) (total + d.size.toNat)
          (header.generation.or child) rest := by
  constructor
  · intro h
    obtain ⟨hcheck, hdescends⟩ := descends_cons.mp (generations_cons ⟨d, header⟩ rest ▸ h.descends)
    obtain ⟨hnew, hnodup⟩ := List.nodup_cons.mp h.nodup
    have hbytes := h.bytes
    rw [descriptors_cons, lineageSize_cons] at hbytes
    dsimp only at hbytes
    refine ⟨⟨h.names d (by simp), h.fresh d (by simp), hcheck⟩, ?_, hnodup, ?_,
      Nat.le_of_succ_le_succ h.count, by omega, hdescends⟩
    · intro d' hd
      exact h.names d' (List.mem_cons_of_mem _ hd)
    · intro d' hd hmem
      rcases List.mem_cons.mp hmem with heq | hmem
      · exact hnew (List.mem_map.mpr ⟨d', hd, heq⟩)
      · exact h.fresh d' (List.mem_cons_of_mem _ hd) hmem
  · rintro ⟨⟨hname, hseen, hcheck⟩, h⟩
    refine ⟨?_, ?_, ?_, Nat.succ_le_succ h.count, ?_, ?_⟩
    · intro d' hd
      rcases List.mem_cons.mp hd with rfl | hd
      · exact hname
      · exact h.names d' hd
    · refine List.nodup_cons.mpr ⟨?_, h.nodup⟩
      intro hmem
      obtain ⟨d', hd, heq⟩ := List.mem_map.mp hmem
      exact h.fresh d' hd (List.mem_cons.mpr (.inl heq))
    · intro d' hd
      rcases List.mem_cons.mp hd with rfl | hd
      · exact hseen
      · exact fun hmem => h.fresh d' hd (List.mem_cons_of_mem _ hmem)
    · have := h.bytes
      rw [descriptors_cons, lineageSize_cons]
      dsimp only
      omega
    · rw [generations_cons]
      exact descends_cons.mpr ⟨hcheck, h.descends⟩

theorem passes_nil {canonical : UInt64} {n : ℕ} {seen : List String} {total : ℕ}
    {child : Option UInt64} :
    Passes canonical n seen total child [] ↔ total ≤ maxVectorBlobLineageBytes := by
  refine ⟨fun h => h.bytes, fun h => ?_⟩
  refine ⟨by simp [descriptors], .nil, by simp [descriptors], Nat.zero_le n, h, .nil, ?_⟩
  rcases child <;> simp [generations]

section Chain

variable [Externals]

/-! ### The loader's walk -/

/-- The file of a descriptor is there, and is what the descriptor says. -/
structure Held (files : Map Bytes) (d : VectorBlobDescriptor) (header : VectorBlobHeader) :
    Prop where
  file : ∃ raw, files[d.basename]? = some raw ∧ raw.length = d.size.toNat
    ∧ parseBlobHeader raw = .ok header ∧ d.sha256 = (sha256 raw).hex
  format : d.format = header.version

/-- The segments that are reached from a link. -/
inductive Chain (files : Map Bytes) : Option VectorBlobDescriptor → List Segment → Prop
  | base : Chain files none []
  | link {d : VectorBlobDescriptor} {header : VectorBlobHeader} {rest : List Segment} :
      Held files d header → Chain files header.parent rest →
      Chain files (some d) (⟨d, header⟩ :: rest)

theorem Held.of_verified {files : Map Bytes} {d : VectorBlobDescriptor}
    {header : VectorBlobHeader} (h : Verified files d header) : Held files d header :=
  ⟨h.file, h.format⟩

theorem Held.read {files : Map Bytes} {d : VectorBlobDescriptor} {header : VectorBlobHeader}
    (h : Held files d header) :
    ∃ raw, readValidatedBlob files d = .ok raw ∧ parseBlobHeader raw = .ok header := by
  obtain ⟨raw, hfile, hlen, hparse, hsha⟩ := h.file
  refine ⟨raw, ?_, hparse⟩
  rw [readValidatedBlob, hfile]
  simp only [bind, Except.bind, pure, Except.pure, hparse]
  rw [if_neg (not_not.mpr hlen), if_neg (not_not.mpr h.format), if_neg (not_not.mpr hsha)]

/-- With nothing to decode, a segment that passes is visited. -/
theorem visitSegment_passes {canonical : UInt64} {files : Map Bytes} {walk : LineageWalk}
    {d : VectorBlobDescriptor} {header : VectorBlobHeader} (h : Held files d header)
    (hpending : walk.loaded.pending = [])
    (hbytes : walk.totalBytes + d.size.toNat ≤ maxVectorBlobLineageBytes)
    (hname : validateBlobBasename d.basename = .ok ()) (hseen : d.basename ∉ walk.seen)
    (hcheck : checkSegmentGeneration canonical walk.childGeneration header.generation = .ok ()) :
    visitSegment canonical files walk d = .ok (header, ⟨d.basename :: walk.seen,
      walk.totalBytes + d.size.toNat, header.generation.or walk.childGeneration,
      walk.loaded⟩) := by
  obtain ⟨raw, hread, hparse⟩ := h.read
  have hloaded : ∀ segment, applyVectorSegment segment walk.loaded = .ok walk.loaded := by
    intro segment
    obtain ⟨seen, total, child, pending, values⟩ := walk
    cases hpending
    rfl
  rw [visitSegment]
  simp only [bind, Except.bind, pure, Except.pure]
  rw [if_neg (Nat.not_lt.mpr hbytes), hname]
  dsimp only
  rw [if_neg hseen, hread]
  dsimp only
  rw [hparse]
  dsimp only
  rw [hcheck]
  dsimp only
  rw [hloaded]

/-- A lineage that the loader has walked is a chain that passes. -/
theorem passes_of_walk {canonical : UInt64} {files : Map Bytes} :
    ∀ {n : ℕ} {walk : LineageWalk} {d : VectorBlobDescriptor}
      {lineage : List VectorBlobDescriptor} {loaded : LineageValues},
      walkLineage canonical files n walk d = .ok (lineage, loaded) →
      ∃ segments, descriptors segments = lineage ∧ Chain files (some d) segments
        ∧ Passes canonical n walk.seen walk.totalBytes walk.childGeneration segments
  | 0, _, _, _, _, h => by cases h
  | n + 1, walk, d, lineage, loaded, h => by
    obtain ⟨header, after, hvisit, hcases⟩ := walkLineage_ok h
    obtain ⟨hver, hseen, -, hafter, hchild, htotal, hbytes, hcheck⟩ := visitSegment_ok hvisit
    obtain ⟨rest, hlineage, hchain, hpasses⟩ : ∃ rest, lineage = d :: descriptors rest
        ∧ Chain files header.parent rest
        ∧ Passes canonical n after.seen after.totalBytes after.childGeneration rest := by
      rcases hcases with ⟨hnone, rfl⟩ | ⟨parent, lineage', hparent, rfl, hwalk⟩
      · refine ⟨[], rfl, ?_, passes_nil.mpr hbytes⟩
        rw [hnone]
        exact .base
      · obtain ⟨rest, rfl, hchain, hpasses⟩ := passes_of_walk hwalk
        refine ⟨rest, rfl, ?_, hpasses⟩
        rwa [hparent]
    rw [hafter, htotal, hchild] at hpasses
    exact ⟨⟨d, header⟩ :: rest, hlineage.symm, .link (.of_verified hver) hchain,
      passes_cons.mpr ⟨⟨hver.basename, hseen, hcheck⟩, hpasses⟩⟩

/-- With nothing to decode, a chain that passes is walked. -/
theorem walk_of_passes {canonical : UInt64} {files : Map Bytes} {segments : List Segment} :
    ∀ {n : ℕ} {walk : LineageWalk} {d : VectorBlobDescriptor},
      Chain files (some d) segments → walk.loaded.pending = [] →
      Passes canonical n walk.seen walk.totalBytes walk.childGeneration segments →
      walkLineage canonical files n walk d = .ok (descriptors segments, walk.loaded) := by
  induction segments with
  | nil =>
    intro n walk d hchain
    cases hchain
  | cons segment rest ih =>
    intro n walk d hchain hpending hpasses
    obtain ⟨d, header⟩ := segment
    cases hchain with
    | link hheld hrest =>
      obtain _ | n := n
      · exact absurd hpasses.count (by simp)
      · obtain ⟨⟨hname, hseen, hcheck⟩, hpasses⟩ := passes_cons.mp hpasses
        have hbytes : walk.totalBytes + d.size.toNat ≤ maxVectorBlobLineageBytes :=
          (Nat.le_add_right _ _).trans hpasses.bytes
        rw [walkLineage, visitSegment_passes hheld hpending hbytes hname hseen hcheck]
        simp only [bind, Except.bind]
        rcases hparent : header.parent with _ | parent
        · rw [hparent] at hrest
          cases hrest
          rfl
        · rw [hparent] at hrest
          dsimp only
          have hwalk := @ih n ⟨d.basename :: walk.seen, walk.totalBytes + d.size.toNat,
            header.generation.or walk.childGeneration, walk.loaded⟩ parent hrest hpending hpasses
          rw [hwalk]
          rfl

/-! ### What a commit decides -/

/-- The segment that the next commit is about to write. -/
def NextSegment (s : Server) (blob : Bytes) : Prop :=
  ∃ publish, (publishSet (compacts s) s.state.vectors).toList.mapM (publishValues s.vectorValues)
      = .ok publish
    ∧ segmentBytes (s.state.generation + 1) (segmentParent s) publish = .ok blob

/-- The next commit would leave a lineage with too many segments or too many bytes. -/
def CeilingReached (s : Server) : Prop :=
  ((segmentParent s).isSome ∧ maxVectorBlobLineage ≤ s.vectorBlobLineage.length)
    ∨ ∃ blob, NextSegment s blob ∧ maxVectorBlobLineageBytes < projectedLineageBytes s blob

/-- A file that has the name of the next segment, and with it the digest, is that segment. -/
def Uncollided (s : Server) (files : Map Bytes) : Prop :=
  ∀ blob raw, NextSegment s blob →
    files[blobBasename s.dbStem (s.state.generation + 1) (sha256 blob).hex]? = some raw →
    sha256 raw = sha256 blob → raw = blob

/-- What a commit has decided when its checks are done. -/
structure PublicationDecided (s : Server) (p : Publication) : Prop where
  segment : NextSegment s p.blob
  count : (segmentParent s).isSome → s.vectorBlobLineage.length < maxVectorBlobLineage
  bytes : projectedLineageBytes s p.blob ≤ maxVectorBlobLineageBytes
  compacting : p.compacting = compacts s
  descriptor : p.descriptor = ⟨blobBasename s.dbStem (s.state.generation + 1) (sha256 p.blob).hex,
    UInt64.ofNat p.blob.length, (sha256 p.blob).hex, vectorBlobVersion⟩

theorem decided_of_check {dir : Dir} {s : Server} {supplied : PreparedCommitEvidence}
    {wal : WalFile} {p : Publication} (h : persistCheck dir s supplied = .ok (wal, p)) :
    PublicationDecided s p := by
  obtain ⟨_, -, h⟩ := bind_ok.mp h
  obtain ⟨_, -, h⟩ := bind_ok.mp h
  obtain ⟨_, -, h⟩ := bind_ok.mp h
  obtain ⟨_, -, h⟩ := bind_ok.mp h
  obtain ⟨_, -, h⟩ := bind_ok.mp h
  obtain ⟨p', hp, h⟩ := bind_ok.mp h
  cases h
  obtain ⟨_, -, hp⟩ := bind_ok.mp hp
  obtain ⟨_, hcount, hp⟩ := bind_ok.mp hp
  obtain ⟨publish, hpublish, hp⟩ := bind_ok.mp hp
  obtain ⟨_, -, hp⟩ := bind_ok.mp hp
  obtain ⟨blob, hblob, hp⟩ := bind_ok.mp hp
  obtain ⟨_, hbytes, hp⟩ := bind_ok.mp hp
  obtain ⟨_, -, hp⟩ := bind_ok.mp hp
  obtain ⟨_, -, hp⟩ := bind_ok.mp hp
  cases hp
  exact ⟨⟨publish, hpublish, hblob⟩, ensure_ok.mp hcount, ensure_ok.mp hbytes, rfl, rfl⟩

/-- A commit that would go over a ceiling ends the process and changes nothing. -/
theorem batchCommit_ceiling {host : Host} {dir : Dir} {s : Server} {params : Value}
    (h : CeilingReached s) :
    (batchCommit host dir s params).dir = dir
      ∧ ((batchCommit host dir s params).server = s
        ∨ (batchCommit host dir s params).server = { s with fatal := true })
      ∧ ∃ failure, (batchCommit host dir s params).result = .error failure := by
  have hrefused : ∀ supplied, ∃ error, persist host dir s supplied = (dir, .error error) := by
    intro supplied
    rcases hcheck : persistCheck dir s supplied with error | ⟨wal, p⟩
    · refine ⟨error, ?_⟩
      rw [persist, hcheck]
    · exfalso
      have hdecided := decided_of_check hcheck
      rcases h with ⟨hparent, hcount⟩ | ⟨blob, hblob, hbytes⟩
      · exact absurd (hdecided.count hparent) (Nat.not_lt.mpr hcount)
      · obtain ⟨publish, hpublish, hsegment⟩ := hblob
        obtain ⟨publish', hpublish', hsegment'⟩ := hdecided.segment
        obtain rfl : publish = publish' := Except.ok.inj (hpublish.symm.trans hpublish')
        obtain rfl : blob = p.blob := Except.ok.inj (hsegment.symm.trans hsegment')
        exact absurd hdecided.bytes (Nat.not_le.mpr hbytes)
  rw [batchCommit]
  split
  · exact ⟨rfl, .inl rfl, _, rfl⟩
  · exact ⟨rfl, .inl rfl, _, rfl⟩
  · exact ⟨rfl, .inl rfl, _, rfl⟩
  · rcases preparedEvidenceFromParams params with failure | supplied
    · exact ⟨rfl, .inl rfl, _, rfl⟩
    dsimp only
    split
    · exact ⟨rfl, .inl rfl, _, rfl⟩
    · obtain ⟨error, hpersist⟩ := hrefused supplied
      rw [hpersist]
      exact ⟨rfl, .inr rfl, _, rfl⟩

/-! ### What a commit leaves -/

omit [Externals] in
theorem parseBlobHeader_version {raw : Bytes} {header : VectorBlobHeader}
    (h : parseBlobHeader raw = .ok header) :
    header.version = vectorBlobVersion ∨ header.version = vectorBlobVersionBase := by
  rw [parseBlobHeader] at h
  split at h
  · cases h
  split at h
  · cases h
  dsimp only at h
  split at h
  · rename_i hbase
    cases h
    exact .inr hbase
  split at h
  · cases h
  refine .inl ?_
  obtain ⟨⟨generation, c₁⟩, -, h⟩ := bind_ok.mp h
  dsimp only at h
  split at h
  · cases h
  obtain ⟨⟨parentLen, c₂⟩, -, h⟩ := bind_ok.mp h
  dsimp only at h
  split at h
  · cases h
    rfl
  · obtain ⟨⟨parent, c₃⟩, -, h⟩ := bind_ok.mp h
    cases h
    rfl

theorem Chain.mono {files files' : Map Bytes} {link : Option VectorBlobDescriptor}
    {segments : List Segment} (h : Chain files link segments)
    (hfiles : ∀ (name : String) raw, files[name]? = some raw → files'[name]? = some raw) :
    Chain files' link segments := by
  induction h with
  | base => exact .base
  | link hheld _ ih =>
    obtain ⟨raw, hraw, hfile⟩ := hheld.file
    exact .link ⟨⟨raw, hfiles _ raw hraw, hfile⟩, hheld.format⟩ ih

theorem Chain.eq_nil {files : Map Bytes} {segments : List Segment}
    (h : Chain files none segments) : segments = [] := by
  cases h
  rfl

theorem Chain.held {files : Map Bytes} {link : Option VectorBlobDescriptor}
    {segments : List Segment} (h : Chain files link segments) :
    ∀ segment ∈ segments, Held files segment.descriptor segment.header := by
  induction h with
  | base => simp
  | link hheld _ ih =>
    intro segment hmem
    rcases List.mem_cons.mp hmem with rfl | hmem
    · exact hheld
    · exact ih segment hmem

omit [Externals] in
/-- No generation is above the canonical one. -/
theorem Descends.le {canonical : UInt64} {gens : List UInt64}
    (h : Descends canonical none gens) : ∀ g ∈ gens, g ≤ canonical := by
  intro g hg
  rcases gens with _ | ⟨first, gens⟩
  · cases hg
  · have hfirst : first = canonical := h.head first rfl
    rcases List.mem_cons.mp hg with rfl | hg
    · exact UInt64.le_of_eq hfirst
    · have hlt := (List.pairwise_cons.mp h.falling).1 g hg
      rw [hfirst] at hlt
      exact UInt64.le_of_lt hlt

/-- The files after a commit: the segment under its name, and all that was there before. -/
theorem commit_files {dir : Dir} {s : Server} {p : Publication}
    {evidence : PreparedCommitEvidence} (hdecided : PublicationDecided s p)
    (hfiles : Uncollided s dir.files)
    (hstop : publicationStop dir p (persistedView s p evidence).value = none) :
    (dir.run (commitEffects dir s p evidence) none).files[p.descriptor.basename]? = some p.blob
      ∧ ∀ (name : String) raw, dir.files[name]? = some raw →
        (dir.run (commitEffects dir s p evidence) none).files[name]? = some raw := by
  rcases hold : dir.files[p.descriptor.basename]? with _ | raw
  · have hafter : (dir.run (commitEffects dir s p evidence) none).files
        = dir.files.insert p.descriptor.basename p.blob := by
      simp only [Dir.run, commitEffects, publicationEffects, hold, Option.isSome_none, done_cons]
      rfl
    rw [hafter]
    refine ⟨Map.getElem?_insert_self _ _ _, ?_⟩
    intro name raw hraw
    by_cases hname : name = p.descriptor.basename
    · rw [hname, hold] at hraw
      cases hraw
    · rw [Map.getElem?_insert_ne _ (Ne.symm hname)]
      exact hraw
  · have hafter : (dir.run (commitEffects dir s p evidence) none).files = dir.files := by
      simp only [Dir.run, commitEffects, publicationEffects, hold, Option.isSome_some, done_cons]
      rfl
    rw [hafter]
    refine ⟨?_, fun name raw hraw => hraw⟩
    rw [publicationStop, hold] at hstop
    dsimp only at hstop
    rcases hread : readValidatedBlob dir.files p.descriptor with e | content
    · rw [hread] at hstop
      cases hstop
    · obtain ⟨hcontent, -, hsha, -⟩ := readValidatedBlob_ok hread
      rw [hold] at hcontent
      cases hcontent
      have hsha' : raw = p.blob := by
        refine hfiles p.blob raw hdecided.segment ?_ (Digest.hex_injective ?_)
        · rw [← hold, hdecided.descriptor]
        · rw [← hsha, hdecided.descriptor]
      rw [hold, hsha']

/-! ### The lineage of a server -/

/-- What a server holds as its lineage is a chain of its directory within the ceilings. -/
structure Chained (s : Server) (files : Map Bytes) (segments : List Segment) : Prop where
  lineage : s.vectorBlobLineage = descriptors segments
  chain : Chain files s.state.vectorBlob segments
  nodup : ((descriptors segments).map VectorBlobDescriptor.basename).Nodup
  count : segments.length ≤ maxVectorBlobLineage
  bytes : lineageSize (descriptors segments) ≤ maxVectorBlobLineageBytes
  descends : Descends s.state.generation none (generations segments)

theorem chained_base {s : Server} {files : Map Bytes} (hlineage : s.vectorBlobLineage = [])
    (hblob : s.state.vectorBlob = none) : Chained s files [] := by
  refine ⟨hlineage, ?_, .nil, Nat.zero_le _, Nat.zero_le _, .nil, by simp [generations]⟩
  rw [hblob]
  exact .base

/-- The lineage of a store that was opened. -/
theorem chained_openResolved {dbStem : String} {dir : Dir} {s : Server}
    (h : openResolved dbStem dir = .ok s) : ∃ segments, Chained s dir.files segments := by
  obtain ⟨state, -, h⟩ := bind_ok.mp h
  obtain ⟨_, -, h⟩ := bind_ok.mp h
  obtain ⟨⟨values, lineage⟩, hload, h⟩ := bind_ok.mp h
  cases h
  rw [loadVectorValues] at hload
  simp only [bind, Except.bind, pure, Except.pure] at hload
  split at hload
  · cases hload
  split at hload
  · cases hload
  rcases hblob : state.vectorBlob with _ | head
  · rw [hblob] at hload
    dsimp only at hload
    obtain ⟨_, -, hload⟩ := bind_ok.mp hload
    obtain ⟨_, -, hload⟩ := bind_ok.mp hload
    cases hload
    exact ⟨[], chained_base rfl hblob⟩
  · rw [hblob] at hload
    dsimp only at hload
    rcases hlineage : loadVectorLineage state head dir.files with e | ⟨found, loaded⟩
    · rw [hlineage] at hload
      cases hload
    · rw [hlineage] at hload
      cases hload
      obtain ⟨⟨walked, v⟩, hwalk, hlineage⟩ := bind_ok.mp hlineage
      obtain ⟨_, -, hlineage⟩ := bind_ok.mp hlineage
      cases hlineage
      obtain ⟨segments, rfl, hchain, hpasses⟩ := passes_of_walk hwalk
      refine ⟨segments, rfl, ?_, hpasses.nodup, hpasses.count, ?_, hpasses.descends⟩
      · rw [← hblob] at hchain
        exact hchain
      · have := hpasses.bytes
        omega

theorem chained_start {dbStem : String} {dir after : Dir} {s : Server}
    (h : start dbStem dir = .ok (after, s)) : ∃ segments, Chained s after.files segments := by
  obtain ⟨t, hopen, h⟩ := bind_ok.mp h
  obtain ⟨⟨effects, u⟩, hreplay, h⟩ := bind_ok.mp h
  cases h
  obtain ⟨segments, hchained⟩ := chained_openResolved hopen
  have hlog : ∀ e ∈ effects, e.onLog = true := by
    rcases replayWal_cases hreplay with ⟨rfl | rfl, -⟩ | ⟨rfl, -⟩ <;> simp [FileEffect.onLog]
  have hfiles : (dir.cleanup.run effects none).files = dir.files :=
    (sameStore_run hlog dir.cleanup none).files
  refine ⟨segments, ?_⟩
  rw [hfiles]
  rcases replayWal_cases hreplay with ⟨-, _, _, rfl⟩ | ⟨-, _, _, _, _, _, _, _, rfl⟩
  · exact ⟨hchained.lineage, hchained.chain, hchained.nodup, hchained.count, hchained.bytes,
      hchained.descends⟩
  · exact ⟨hchained.lineage, hchained.chain, hchained.nodup, hchained.count, hchained.bytes,
      hchained.descends⟩

/-- The header of a segment that is about to be written. -/
theorem parseBlobHeader_next {s : Server} {files : Map Bytes} {segments : List Segment}
    {blob : Bytes} (h : Chained s files segments) (hsegment : NextSegment s blob) :
    ∃ payloadOffset, parseBlobHeader blob = .ok ⟨vectorBlobVersion,
      some (s.state.generation + 1), segmentParent s, payloadOffset⟩ := by
  obtain ⟨publish, -, hblob⟩ := hsegment
  obtain ⟨header, hheader, hblob⟩ := bind_ok.mp hblob
  cases hblob
  refine ⟨header.length, parseBlobHeader_encoded ?_ hheader _⟩
  intro parent hparent
  rw [segmentParent] at hparent
  split at hparent
  · cases hparent
  · have hchain := h.chain
    rw [hparent] at hchain
    cases hchain with
    | link hheld _ =>
      obtain ⟨raw, -, -, hparse, -⟩ := hheld.file
      rw [hheld.format]
      exact parseBlobHeader_version hparse

/-- What the segment of a commit is put in front of. -/
def kept (s : Server) (segments : List Segment) : List Segment :=
  if compacts s then [] else segments

/-- The step lemma: a commit puts its segment in front, within the ceilings that it has projected. -/
theorem Chained.commit {dir : Dir} {s : Server} {p : Publication} {wal : WalFile}
    {evidence : PreparedCommitEvidence} {segments : List Segment}
    (h : Chained s dir.files segments) (hfiles : Uncollided s dir.files)
    (hcheck : persistCheck dir s evidence = .ok (wal, p))
    (hstop : publicationStop dir p (persistedView s p evidence).value = none) :
    ∃ header, Chained (s.committed p evidence wal.inode)
      (dir.run (commitEffects dir s p evidence) none).files
      (⟨p.descriptor, header⟩ :: kept s segments) := by
  have hdecided := decided_of_check hcheck
  obtain ⟨hnew, hold⟩ := commit_files hdecided hfiles hstop
  obtain ⟨payloadOffset, hparse⟩ := parseBlobHeader_next h hdecided.segment
  refine ⟨⟨vectorBlobVersion, some (s.state.generation + 1), segmentParent s, payloadOffset⟩, ?_⟩
  have hnext := persistCheck_generation hcheck
  have hchain : Chain dir.files (segmentParent s) (kept s segments) := by
    rw [segmentParent, kept]
    split
    · exact .base
    · exact h.chain
  have hsub : (kept s segments).Sublist segments := by
    rw [kept]
    split
    · exact List.nil_sublist _
    · exact .refl _
  have hbelow : ∀ g ∈ generations (kept s segments), g < s.state.generation + 1 := by
    intro g hg
    have hle := UInt64.le_iff_toNat_le.mp (h.descends.le g ((hsub.filterMap _).mem hg))
    rw [UInt64.lt_iff_toNat_lt]
    omega
  have hprojected : lineageSize (descriptors (kept s segments)) + p.blob.length
      ≤ maxVectorBlobLineageBytes := by
    have hbytes := hdecided.bytes
    rw [projectedLineageBytes, h.lineage] at hbytes
    rw [kept]
    split at hbytes
    · rw [if_pos ‹_›]
      simpa [descriptors, lineageSize] using hbytes
    · rw [if_neg ‹_›]
      exact hbytes
  have hsize : p.descriptor.size.toNat = p.blob.length := by
    rw [hdecided.descriptor]
    refine UInt64.toNat_ofNat_of_lt' ?_
    unfold maxVectorBlobLineageBytes at hprojected
    rw [UInt64.size]
    omega
  have hheld : Held (dir.run (commitEffects dir s p evidence) none).files p.descriptor
      ⟨vectorBlobVersion, some (s.state.generation + 1), segmentParent s, payloadOffset⟩ := by
    refine ⟨⟨p.blob, hnew, hsize.symm, hparse, ?_⟩, ?_⟩
    · rw [hdecided.descriptor]
    · rw [hdecided.descriptor]
  refine ⟨?_, ?_, ?_, ?_, ?_, ?_⟩
  · simp only [Server.committed, Server.published, hdecided.compacting, h.lineage, kept,
      descriptors_cons]
    split <;> rfl
  · exact .link hheld (hchain.mono hold)
  · refine List.nodup_cons.mpr ⟨?_, h.nodup.sublist ((hsub.map _).map _)⟩
    -- A segment of that name would be this one, and would have its generation.
    intro hmem
    obtain ⟨d, hd, hname⟩ := List.mem_map.mp hmem
    obtain ⟨segment, hsegment, rfl⟩ := List.mem_map.mp hd
    obtain ⟨raw, hraw, -, hparse', -⟩ := (hchain.held segment hsegment).file
    have hraw' := hold _ _ hraw
    rw [hname, hnew] at hraw'
    cases hraw'
    rw [hparse] at hparse'
    have hgen : segment.header.generation = some (s.state.generation + 1) := by
      rw [← Except.ok.inj hparse']
    have hlt := hbelow (s.state.generation + 1)
      (List.mem_filterMap.mpr ⟨segment, hsegment, hgen⟩)
    exact absurd hlt (UInt64.lt_irrefl _)
  · have hcount := hdecided.count
    rw [List.length_cons, Nat.succ_le_iff]
    rcases hparent : segmentParent s with _ | parent
    · rw [hparent] at hchain
      rw [hchain.eq_nil]
      decide
    · rw [h.lineage, hparent] at hcount
      have hlt := hcount rfl
      rw [descriptors, List.length_map] at hlt
      exact hsub.length_le.trans_lt hlt
  · rw [descriptors_cons, lineageSize_cons, hsize]
    omega
  · rw [generations_cons]
    refine descends_cons.mpr ⟨?_, ?_⟩
    · simp [checkSegmentGeneration, Server.committed, Server.published]
    · have hfalling := h.descends.falling.sublist (hsub.filterMap _)
      exact ⟨hfalling, hbelow⟩

/-! ### Runs -/

theorem Chained.keep {s t : Server} {files : Map Bytes} {segments : List Segment}
    (h : Chained s files segments) (hcommit : SameCommit s.state t.state)
    (hlineage : t.vectorBlobLineage = s.vectorBlobLineage) : Chained t files segments := by
  refine ⟨hlineage.trans h.lineage, ?_, h.nodup, h.count, h.bytes, ?_⟩
  · rw [hcommit.vectorBlob]
    exact h.chain
  · rw [hcommit.generation]
    exact h.descends

/-- Every turn of a process that goes on keeps a chain. -/
theorem Chained.turn {answer : Memory → RpcRequest → Result Value} {host : Host} {dir : Dir}
    {s : Server} {req : RpcRequest} {o : Outcome} {segments : List Segment}
    (h : Chained s dir.files segments)
    (hfiles : Uncollided s dir.files) (turn : Turn answer host dir s req o)
    (hlive : o.server.fatal = false) : ∃ segments', Chained o.server o.dir.files segments' := by
  have hself := SameCommit.refl s.state
  cases turn with
  | refused _ => exact ⟨segments, h⟩
  | answered _ _ _ _ => exact ⟨segments, h.keep hself rfl⟩
  | began _ _ _ => exact ⟨segments, h.keep hself rfl⟩
  | @mutated canonical record applied _ _ happlied =>
    have hstore := sameStore_run (onLog_walAppendEffects host dir record) dir none
    refine ⟨segments, ?_⟩
    rw [hstore.files]
    exact h.keep (applyMutation_sameCommit happlied) rfl
  | prepared _ _ => exact ⟨segments, h.keep hself rfl⟩
  | committed _ _ _ hcheck hstop =>
    obtain ⟨header, hchained⟩ := h.commit hfiles hcheck hstop
    exact ⟨_, hchained⟩
  | discarded _ _ =>
    refine ⟨segments, ?_⟩
    rw [(sameStore_run onLog_renameWal dir none).files]
    exact h.keep hself rfl
  | _ => simp_all

section Runs

variable [Runtime] {answer : Memory → RpcRequest → Result Value}

/-- No commit along a run finds another file with the digest of its segment. -/
def CollisionFree (answer : Memory → RpcRequest → Result Value) (c₀ : Server × Dir)
    (h : List ((Host × Bytes) × Option RpcResponse)) : Prop :=
  ∀ h' e b, h' ++ [e] <+: h → Trace (storeStep answer) c₀ h' b → Uncollided b.1 b.2.files

/-- The run lemma. -/
theorem chained_run {c₀ c : Server × Dir} {h : List ((Host × Bytes) × Option RpcResponse)}
    (h₀ : ∃ segments, Chained c₀.1 c₀.2.files segments) (run : Trace (storeStep answer) c₀ h c) :
    CollisionFree answer c₀ h → c.1.fatal = false →
      ∃ segments, Chained c.1 c.2.files segments := by
  induction run with
  | nil =>
    intro _ _
    exact h₀
  | @snoc h b input response d run hs ih =>
    intro hfree hlive
    obtain ⟨hbefore, hcases⟩ := storeStep_cases hs
    obtain ⟨segments, hchained⟩ := ih
      (fun h' e b hpart => hfree h' e b (hpart.trans (List.prefix_append _ _))) hbefore
    rcases hcases with ⟨rfl, -⟩ | ⟨incoming, o, hparse, turn, rfl, -⟩
    · exact ⟨segments, hchained⟩
    · exact hchained.turn (hfree h _ b (List.prefix_refl _) run) turn hlive

end Runs

/-- The lineage of a server over its files: within both ceilings, with generations that fall, and,
once the names are safe, the one that the loader walks from the committed descriptor. -/
structure WithinCeilings (s : Server) (files : Map Bytes) : Prop where
  head : s.vectorBlobLineage.head? = s.state.vectorBlob
  count : s.vectorBlobLineage.length ≤ maxVectorBlobLineage
  bytes : lineageSize s.vectorBlobLineage ≤ maxVectorBlobLineageBytes
  falling : (s.vectorBlobLineage.filterMap (segmentGeneration files)).Pairwise fun a b => b < a
  loads : ∀ d, s.state.vectorBlob = some d →
    (loadVectorLineage { s.state with vectors := ∅ } d files = .ok (s.vectorBlobLineage, ∅) ↔
      ∀ d' ∈ s.vectorBlobLineage, validateBlobBasename d'.basename = .ok ())

theorem readBlobHeaderPrefix_of_held {files : Map Bytes} {d : VectorBlobDescriptor}
    {header : VectorBlobHeader} (h : Held files d header) :
    readBlobHeaderPrefix files d.basename = .ok (d.size.toNat, header) := by
  obtain ⟨raw, hfile, hlen, hparse, -⟩ := h.file
  rw [readBlobHeaderPrefix, hfile, ← hlen]
  simp only [ofOption, bind, Except.bind, parseBlobHeader_take, hparse]
  rfl

theorem Chain.generations {files : Map Bytes} {link : Option VectorBlobDescriptor}
    {segments : List Segment} (h : Chain files link segments) :
    (descriptors segments).filterMap (segmentGeneration files) = Native.generations segments := by
  rw [descriptors, List.filterMap_map, Native.generations]
  refine List.filterMap_congr fun segment hmem => ?_
  rw [Function.comp_apply, segmentGeneration, readBlobHeaderPrefix_of_held (h.held segment hmem)]

theorem Chain.head {files : Map Bytes} {link : Option VectorBlobDescriptor}
    {segments : List Segment} (h : Chain files link segments) :
    (descriptors segments).head? = link := by
  cases h <;> rfl

theorem Chained.within {s : Server} {files : Map Bytes} {segments : List Segment}
    (h : Chained s files segments) : WithinCeilings s files := by
  refine ⟨?_, ?_, ?_, ?_, ?_⟩
  · rw [h.lineage, h.chain.head]
  · rw [h.lineage, descriptors, List.length_map]
    exact h.count
  · rw [h.lineage]
    exact h.bytes
  · rw [h.lineage, h.chain.generations]
    exact h.descends.falling
  · intro d hd
    have hchain := h.chain
    rw [hd] at hchain
    rw [h.lineage]
    constructor
    · intro hload
      obtain ⟨⟨walked, v⟩, hwalk, hload⟩ := bind_ok.mp hload
      obtain ⟨_, -, hload⟩ := bind_ok.mp hload
      obtain ⟨segments', hsame, -, hpasses⟩ := passes_of_walk hwalk
      have hwalked : walked = descriptors segments := congrArg Prod.fst (Except.ok.inj hload)
      rw [← hwalked, ← hsame]
      exact hpasses.names
    · intro hnames
      have hpasses : Passes s.state.generation maxVectorBlobLineage [] 0 none segments :=
        ⟨hnames, h.nodup, by simp, h.count, by rw [Nat.zero_add]; exact h.bytes, h.descends⟩
      have hwalk := @walk_of_passes _ s.state.generation files segments maxVectorBlobLineage
        ⟨[], 0, none, ⟨[], ∅⟩⟩ d hchain rfl hpasses
      have hpending : pendingVectorRefs { s.state with vectors := ∅ } = [] := rfl
      have hinline : inlineVectorValues { s.state with vectors := ∅ } = ∅ := rfl
      rw [loadVectorLineage, hpending, hinline]
      dsimp only
      rw [hwalk]
      rfl

end Chain

attribute [local instance] Concrete.externals Concrete.runtime

end AiraGraphdb.Native
