import AiraGraphdb.Native.Store

/-! # Vector blobs and their lineage

A generation publishes one blob: a header and the values of the vectors it writes. The header of a
format 2 segment names its generation and, unless it is a base, the descriptor of its parent.
Loading a generation follows the parents from the committed descriptor to the base, checks every
segment against the descriptor that named it, and decodes from each the vectors that refer to its
generation. -/

namespace AiraGraphdb.Native

open Schemes Schemes.Json

def vectorBlobMagic : Bytes := [0x41, 0x47, 0x56, 0x42]
def vectorBlobVersion : UInt16 := 2
def vectorBlobVersionBase : UInt16 := 1
def maxVectorBlobLineage : ℕ := 4096
def maxVectorBlobLineageBytes : ℕ := 17179869184

/-! ### Values -/

def encodeF64 (x : F64) : Bytes := leBytes 8 x.bits.toNat

def encodeValues (values : List F64) : Bytes := values.flatMap encodeF64

/-- So many doubles off the front. -/
def decodeValues : ℕ → Bytes → List F64
  | 0, _ => []
  | n + 1, bs => ⟨UInt64.ofNat (ofLe (bs.take 8))⟩ :: decodeValues n (bs.drop 8)

/-! ### Names -/

/-- A name that stays in its directory. -/
def validateBlobBasename (basename : String) : Except String Unit :=
  if basename.isEmpty ∨ (utf8 basename).contains 0x2F ∨ (utf8 basename).contains 0x5C ∨
      basename = "." ∨ basename = ".." then
    .error "vector blob basename is not a safe basename"
  else .ok ()

def validateSha256 (value field : String) : Except String Unit :=
  if isLowerHexText value 32 then .ok ()
  else .error (field ++ " must be a lowercase SHA-256 hex digest")

/-! ### Headers -/

structure VectorBlobHeader where
  version : UInt16
  generation : Option UInt64
  parent : Option VectorBlobDescriptor
  payloadOffset : ℕ
  deriving DecidableEq

/-- The next field of a header, and the position after it. -/
def headerField (raw : Bytes) (cursor len : ℕ) : Except String (Bytes × ℕ) :=
  if raw.length < cursor + len then .error "vector blob header is truncated"
  else .ok ((raw.drop cursor).take len, cursor + len)

/-- The link to a parent whose name has this length. -/
def parseParent (raw : Bytes) (cursor parentLen : ℕ) :
    Except String (VectorBlobDescriptor × ℕ) := do
  let (name, cursor) ← headerField raw cursor parentLen
  let basename ← match ofUtf8 name with
    | some basename => .ok basename
    | none => .error "vector blob parent basename is not UTF-8"
  validateBlobBasename basename
  let (size, cursor) ← headerField raw cursor 8
  let (digest, cursor) ← headerField raw cursor 32
  let (format, cursor) ← headerField raw cursor 2
  let format := UInt16.ofNat (ofLe format)
  if format ≠ vectorBlobVersion ∧ format ≠ vectorBlobVersionBase then
    throw "vector blob parent link names an unsupported format"
  return (⟨basename, UInt64.ofNat (ofLe size), hex digest, format⟩, cursor)

/-- The header of a format 2 segment, after its version. -/
def parseSegmentHeader (raw : Bytes) (cursor : ℕ) : Except String VectorBlobHeader := do
  let (generation, cursor) ← headerField raw cursor 8
  let generation := UInt64.ofNat (ofLe generation)
  if generation = 0 then throw "vector blob segment generation must be positive"
  let (parentLen, cursor) ← headerField raw cursor 2
  if ofLe parentLen = 0 then return ⟨vectorBlobVersion, some generation, none, cursor⟩
  let (parent, cursor) ← parseParent raw cursor (ofLe parentLen)
  return ⟨vectorBlobVersion, some generation, some parent, cursor⟩

def parseBlobHeader (raw : Bytes) : Except String VectorBlobHeader :=
  if raw.length < 6 then .error "vector blob file is truncated"
  else if raw.take 4 ≠ vectorBlobMagic then .error "vector blob magic mismatch"
  else
    let version := UInt16.ofNat (ofLe ((raw.drop 4).take 2))
    if version = vectorBlobVersionBase then .ok ⟨version, none, none, 6⟩
    else if version ≠ vectorBlobVersion then
      .error ("vector blob version mismatch: expected 1 or 2, got " ++ toString version)
    else parseSegmentHeader raw 6

/-- The link to the parent, or the zero length that marks a base. -/
def encodeParent : Option VectorBlobDescriptor → Except String Bytes
  | none => .ok (leBytes 2 0)
  | some parent => do
    validateBlobBasename parent.basename
    validateSha256 parent.sha256 "parent vectorBlob.sha256"
    if 2 ^ 16 ≤ (utf8 parent.basename).length then
      throw "parent blob basename exceeds u16 length"
    let digest ← match ofHex parent.sha256 with
      | some digest => .ok digest
      | none => .error "validated hex digest"
    return leBytes 2 (utf8 parent.basename).length ++ utf8 parent.basename ++
      leBytes 8 parent.size.toNat ++ digest ++ leBytes 2 parent.format.toNat

def encodeBlobHeader (generation : UInt64) (parent : Option VectorBlobDescriptor) :
    Except String Bytes := do
  if generation = 0 then throw "vector blob segment generation must be positive"
  let link ← encodeParent parent
  return vectorBlobMagic ++ leBytes 2 vectorBlobVersion.toNat ++ leBytes 8 generation.toNat ++ link

/-! ### Loading -/

section Load

variable [Externals]

/-- A blob file that is what its descriptor says. -/
def readValidatedBlob (files : Map Bytes) (descriptor : VectorBlobDescriptor) :
    Except String Bytes := do
  let raw ← match files[descriptor.basename]? with
    | some raw => .ok raw
    | none => .error "open vector blob failed"
  if raw.length ≠ descriptor.size.toNat then throw "vector blob size does not match descriptor"
  let header ← parseBlobHeader raw
  if descriptor.format ≠ header.version then throw "vector blob descriptor format mismatch"
  if descriptor.sha256 ≠ (sha256 raw).hex then throw "vector blob hash does not match descriptor"
  return raw

end Load

structure LoadedVectorSegment where
  generation : Option UInt64
  payloadOffset : ℕ
  raw : Bytes

/-- The vectors that carry their values inline. -/
def inlineVectorValues (state : State) : Map (List F64) :=
  (state.vectors.filter fun _ vector => !vector.values.isEmpty).map fun _ vector => vector.values

/-- The vectors that wait for a segment. -/
def pendingVectorRefs (state : State) : List (String × VectorBlobRef) :=
  state.vectors.toList.filterMap fun p =>
    if p.2.values.isEmpty then p.2.blobRef.map fun blobRef => (p.1, blobRef) else none

/-- The values that a reference stands for in a segment. -/
def segmentValues (segment : LoadedVectorSegment) (blobRef : VectorBlobRef) :
    Except String (List F64) :=
  let start := segment.payloadOffset + blobRef.offset.toNat
  if segment.raw.length < start + blobRef.len.toNat * 8 then
    .error "vector blob reference out of bounds"
  else .ok (decodeValues blobRef.len.toNat (segment.raw.drop start))

/-- What is decoded and what still waits. -/
structure LineageValues where
  pending : List (String × VectorBlobRef)
  values : Map (List F64)

/-- Enters the decoded vectors one by one. -/
def decodeInto (segment : LoadedVectorSegment) :
    List (String × VectorBlobRef) → Map (List F64) → Except String (Map (List F64))
  | [], values => .ok values
  | (key, blobRef) :: refs, values => do
    let decoded ← segmentValues segment blobRef
    decodeInto segment refs (values.insert key decoded)

/-- Decodes the vectors that name this segment. -/
def applyVectorSegment (segment : LoadedVectorSegment) (v : LineageValues) :
    Except String LineageValues := do
  let values ← decodeInto segment
    (v.pending.filter fun p => p.2.gen == segment.generation) v.values
  return ⟨v.pending.filter fun p => p.2.gen != segment.generation, values⟩

/-- Nothing may be left waiting; the lowest generation is reported. -/
def unresolvedVectorRefsError (pending : List (String × VectorBlobRef)) : Except String Unit :=
  if pending.isEmpty then .ok ()
  else match pending.mapM fun p => p.2.gen with
    | none => .error "vector metadata references the base blob but the lineage has no base"
    | some gens => .error ("vector metadata references segment generation " ++
        toString (gens.foldl min (gens.headD 0)) ++ " outside the lineage")

section Lineage

variable [Externals]

/-- Where the walk along a lineage stands. -/
structure LineageWalk where
  seen : List String
  totalBytes : ℕ
  childGeneration : Option UInt64
  loaded : LineageValues

/-- The generation of a segment has to be the canonical one at the head and to fall from there. -/
def checkSegmentGeneration (canonical : UInt64) (child generation : Option UInt64) :
    Except String Unit :=
  match generation, child with
  | some generation, none =>
    if generation ≠ canonical then
      .error "vector blob segment generation does not match the canonical generation"
    else .ok ()
  | some generation, some child =>
    if child ≤ generation then .error "vector blob parent generation is not below its child"
    else .ok ()
  | none, _ => .ok ()

/-- One segment of the lineage: its header, and the walk after it. -/
def visitSegment (canonical : UInt64) (files : Map Bytes) (walk : LineageWalk)
    (descriptor : VectorBlobDescriptor) : Except String (VectorBlobHeader × LineageWalk) := do
  let totalBytes := walk.totalBytes + descriptor.size.toNat
  if maxVectorBlobLineageBytes < totalBytes then
    throw "vector blob lineage exceeds 17179869184 bytes"
  validateBlobBasename descriptor.basename
  if descriptor.basename ∈ walk.seen then
    throw "vector blob lineage references the same segment twice"
  let raw ← readValidatedBlob files descriptor
  let header ← parseBlobHeader raw
  checkSegmentGeneration canonical walk.childGeneration header.generation
  let loaded ← applyVectorSegment ⟨header.generation, header.payloadOffset, raw⟩ walk.loaded
  return (header, ⟨descriptor.basename :: walk.seen, totalBytes,
    header.generation.or walk.childGeneration, loaded⟩)

/-- The lineage from a descriptor to its base, with so many segments left to the bound. -/
def walkLineage (canonical : UInt64) (files : Map Bytes) :
    ℕ → LineageWalk → VectorBlobDescriptor →
      Except String (List VectorBlobDescriptor × LineageValues)
  | 0, _, _ => .error "vector blob lineage exceeds 4096 segments"
  | n + 1, walk, descriptor => do
    let (header, walk) ← visitSegment canonical files walk descriptor
    match header.parent with
    | none => return ([descriptor], walk.loaded)
    | some parent =>
      let (lineage, loaded) ← walkLineage canonical files n walk parent
      return (descriptor :: lineage, loaded)

def loadVectorLineage (state : State) (head : VectorBlobDescriptor) (files : Map Bytes) :
    Except String (List VectorBlobDescriptor × Map (List F64)) := do
  let (lineage, loaded) ← walkLineage state.generation files maxVectorBlobLineage
    ⟨[], 0, none, ⟨pendingVectorRefs state, inlineVectorValues state⟩⟩ head
  unresolvedVectorRefsError loaded.pending
  return (lineage, loaded.values)

/-- The adjacent blob of a generation-zero store. -/
def legacySegments (legacy : Option Bytes) : Except String (List LoadedVectorSegment) :=
  match legacy with
  | none => .ok []
  | some raw => do
    let header ← parseBlobHeader raw
    if header.version ≠ vectorBlobVersionBase then
      throw "legacy adjacent vector blob must use the base layout"
    return [⟨none, header.payloadOffset, raw⟩]

/-- The values of a store without a lineage. -/
def decodeVectorValues (state : State) (segments : List LoadedVectorSegment) :
    Except String (Map (List F64)) := do
  let loaded ← segments.foldlM (fun v segment => applyVectorSegment segment v)
    (⟨pendingVectorRefs state, inlineVectorValues state⟩ : LineageValues)
  unresolvedVectorRefsError loaded.pending
  return loaded.values

/-- The values of every vector and the lineage they were loaded from. -/
def loadVectorValues (state : State) (files : Map Bytes) (legacyName : String) :
    Except String (Map (List F64) × List VectorBlobDescriptor) := do
  if state.generation = 0 ∧ state.vectorBlob.isSome then
    throw "legacy generation zero must not contain a vector blob descriptor"
  if 0 < state.generation ∧ state.vectorBlob.isNone then
    throw "committed generation is missing its vector blob descriptor"
  match state.vectorBlob with
  | some head =>
    let (lineage, values) ← loadVectorLineage state head files
    return (values, lineage)
  | none =>
    let segments ← legacySegments files[legacyName]?
    return (← decodeVectorValues state segments, [])

/-- Decoded values live in one place; the records drop their inline copies. -/
def releaseStateVectorValues (state : State) : State :=
  { state with vectors := state.vectors.map fun _ vector => { vector with values := [] } }

end Lineage

end AiraGraphdb.Native
