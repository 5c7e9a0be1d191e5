import AiraGraphdb.Native.Blob
import AiraGraphdb.Schemes.Except

/-! # The header of a vector blob

Encoding and parsing are inverse to each other on the headers of format 2: what is encoded is
parsed back whatever follows it, and what is parsed is encoded to the bytes it was read from. The
parser is given a second time with every access to the bytes checked, as the source's slices and
conversions are; no text makes one of them fail. -/

namespace AiraGraphdb.Native

open Schemes

/-! ### Fields -/

theorem headerField_iff {raw bytes : Bytes} {cursor len next : ℕ} :
    headerField raw cursor len = .ok (bytes, next) ↔ bytes.length = len ∧ next = cursor + len
      ∧ next ≤ raw.length ∧ raw.take next = raw.take cursor ++ bytes := by
  rw [headerField]
  by_cases hlen : raw.length < cursor + len
  · rw [if_pos hlen]
    refine iff_of_false (by simp) ?_
    rintro ⟨-, rfl, hle, -⟩
    omega
  · rw [if_neg hlen]
    have htake : raw.take (cursor + len) = raw.take cursor ++ (raw.drop cursor).take len :=
      List.take_add
    constructor
    · intro h
      cases h
      refine ⟨?_, rfl, by omega, htake⟩
      rw [List.length_take, List.length_drop]
      omega
    · rintro ⟨-, rfl, -, hbytes⟩
      rw [htake] at hbytes
      rw [List.append_cancel_left hbytes]

/-- A field in front of what is left, and what is left after it. -/
theorem headerField_drop {raw bytes rest : Bytes} {cursor len : ℕ}
    (h : raw.drop cursor = bytes ++ rest) (hlen : bytes.length = len) (hpos : 0 < len) :
    headerField raw cursor len = .ok (bytes, cursor + len) ∧ raw.drop (cursor + len) = rest := by
  have hsize := congrArg List.length h
  rw [List.length_drop, List.length_append, hlen] at hsize
  refine ⟨?_, by rw [← List.drop_drop, h, List.drop_left' hlen]⟩
  rw [headerField, if_neg (by omega), h, List.take_left' hlen]

theorem validateSha256_hex {digest : Bytes} (h : digest.length = 32) (field : String) :
    validateSha256 (hex digest) field = .ok () :=
  if_pos (Digest.isLowerHexText_hex ⟨digest, h⟩)

theorem hex_of_validateSha256 {s field : String} {digest : Bytes}
    (h : validateSha256 s field = .ok ()) (hdigest : ofHex s = some digest) :
    hex digest = s ∧ digest.length = 32 := by
  have hbytes := hexBytes_of_ofHexBytes hdigest
  have htext : hex digest = s := by
    have := congrArg ofUtf8 ((utf8_hex digest).trans hbytes)
    simpa using this
  refine ⟨htext, ?_⟩
  rw [validateSha256] at h
  split at h
  · rename_i hlower
    rw [isLowerHexText] at hlower
    have hlen := congrArg List.length hbytes
    simp at hlower hlen
    omega
  · cases h

/-! ### What is encoded is parsed back -/

/-- The bytes of a link to a parent. -/
def linkBytes (parent : VectorBlobDescriptor) (digest : Bytes) : Bytes :=
  leBytes 2 (utf8 parent.basename).length ++ utf8 parent.basename ++
    leBytes 8 parent.size.toNat ++ digest ++ leBytes 2 parent.format.toNat

theorem encodeParent_some {parent : VectorBlobDescriptor} {link : Bytes} :
    encodeParent (some parent) = .ok link ↔ validateBlobBasename parent.basename = .ok ()
      ∧ validateSha256 parent.sha256 "parent vectorBlob.sha256" = .ok ()
      ∧ (utf8 parent.basename).length < 2 ^ 16
      ∧ ∃ digest, ofHex parent.sha256 = some digest ∧ link = linkBytes parent digest := by
  rw [encodeParent]
  rcases validateBlobBasename parent.basename with e | ⟨⟩
  · simp [bind, Except.bind]
  rcases validateSha256 parent.sha256 "parent vectorBlob.sha256" with e | ⟨⟩
  · simp [bind, Except.bind]
  by_cases hlen : 2 ^ 16 ≤ (utf8 parent.basename).length
  · have hnot : ¬ (utf8 parent.basename).length < 2 ^ 16 := by omega
    simp only [hlen, hnot, bind, Except.bind]
    simp [throw, throwThe, MonadExceptOf.throw]
  · have hlt : (utf8 parent.basename).length < 2 ^ 16 := by omega
    rcases ofHex parent.sha256 with _ | digest
    · simp only [hlen, hlt, bind, Except.bind]
      simp
    · simp only [hlen, hlt, bind, Except.bind, pure, Except.pure, linkBytes]
      simp [eq_comm]

theorem validateBlobBasename_ne_nil {basename : String}
    (h : validateBlobBasename basename = .ok ()) : (utf8 basename).length ≠ 0 := by
  rw [validateBlobBasename] at h
  split at h
  · cases h
  · rename_i hsafe
    intro hlen
    refine hsafe (.inl ?_)
    rw [String.isEmpty_iff]
    rw [length_utf8] at hlen
    exact String.utf8ByteSize_eq_zero_iff.mp hlen

theorem parseParent_encoded {parent : VectorBlobDescriptor} {digest raw rest : Bytes} {cursor : ℕ}
    (hname : validateBlobBasename parent.basename = .ok ())
    (hdigest : hex digest = parent.sha256) (hlen : digest.length = 32)
    (hformat : parent.format = vectorBlobVersion ∨ parent.format = vectorBlobVersionBase)
    (h : raw.drop cursor = utf8 parent.basename ++ (leBytes 8 parent.size.toNat ++
      (digest ++ (leBytes 2 parent.format.toNat ++ rest)))) :
    parseParent raw cursor (utf8 parent.basename).length
      = .ok (parent, cursor + (utf8 parent.basename).length + 8 + 32 + 2) := by
  have hsize : UInt64.ofNat (ofLe (leBytes 8 parent.size.toNat)) = parent.size := by
    rw [ofLe_leBytes (by simpa using parent.size.toNat_lt), UInt64.ofNat_toNat]
  have hversion : UInt16.ofNat (ofLe (leBytes 2 parent.format.toNat)) = parent.format := by
    rw [ofLe_leBytes (by simpa using parent.format.toNat_lt), UInt16.ofNat_toNat]
  obtain ⟨hfield₁, h⟩ := headerField_drop h rfl
    (Nat.pos_of_ne_zero (validateBlobBasename_ne_nil hname))
  obtain ⟨hfield₂, h⟩ := headerField_drop h (length_leBytes _ _) (by decide)
  obtain ⟨hfield₃, h⟩ := headerField_drop h hlen (by decide)
  obtain ⟨hfield₄, -⟩ := headerField_drop h (length_leBytes _ _) (by decide)
  rw [parseParent, hfield₁]
  simp only [bind, Except.bind, ofUtf8_utf8, hname, hfield₂, hfield₃, hfield₄]
  rw [hversion, hsize, hdigest, if_neg (by tauto)]
  rfl

theorem parseBlobHeader_encoded {generation : UInt64} {parent : Option VectorBlobDescriptor}
    {header : Bytes} (hformat : ∀ p, parent = some p →
      p.format = vectorBlobVersion ∨ p.format = vectorBlobVersionBase)
    (h : encodeBlobHeader generation parent = .ok header) (payload : Bytes) :
    parseBlobHeader (header ++ payload)
      = .ok ⟨vectorBlobVersion, some generation, parent, header.length⟩ := by
  rw [encodeBlobHeader] at h
  by_cases hzero : generation = 0
  · rw [if_pos hzero] at h
    cases h
  rw [if_neg hzero] at h
  obtain ⟨link, hlink, h⟩ := bind_ok.mp h
  cases h
  have hgeneration : UInt64.ofNat (ofLe (leBytes 8 generation.toNat)) = generation := by
    rw [ofLe_leBytes (by simpa using generation.toNat_lt), UInt64.ofNat_toNat]
  have hbytes : vectorBlobMagic ++ leBytes 2 vectorBlobVersion.toNat ++ leBytes 8 generation.toNat
      ++ link ++ payload
      = 0x41 :: 0x47 :: 0x56 :: 0x42 :: 2 :: 0 :: (leBytes 8 generation.toNat ++ (link ++ payload)) := by
    simp only [List.append_assoc]
    rfl
  have hlength : (vectorBlobMagic ++ leBytes 2 vectorBlobVersion.toNat
      ++ leBytes 8 generation.toNat ++ link).length = 14 + link.length := by
    simp only [vectorBlobMagic, List.length_append, length_leBytes, List.length_cons,
      List.length_nil]
  rw [hlength, hbytes]
  have hparse : ∀ rest : Bytes, parseBlobHeader (0x41 :: 0x47 :: 0x56 :: 0x42 :: 2 :: 0 :: rest)
      = parseSegmentHeader (0x41 :: 0x47 :: 0x56 :: 0x42 :: 2 :: 0 :: rest) 6 := by
    intro rest
    rw [parseBlobHeader, if_neg (by simp)]
    rfl
  have hskip : (0x41 :: 0x47 :: 0x56 :: 0x42 :: 2 :: 0 ::
      (leBytes 8 generation.toNat ++ (link ++ payload)) : Bytes).drop 6
      = leBytes 8 generation.toNat ++ (link ++ payload) := rfl
  obtain ⟨hfield, hdrop⟩ := headerField_drop hskip (length_leBytes 8 _) (by decide)
  rw [hparse, parseSegmentHeader, hfield]
  simp only [bind, Except.bind, hgeneration, if_neg hzero]
  rcases parent with _ | parent
  · cases hlink
    obtain ⟨hlen, -⟩ := headerField_drop hdrop (length_leBytes 2 _) (by decide)
    rw [hlen]
    rfl
  · obtain ⟨hname, hsha, hlt, digest, hdigest, rfl⟩ := encodeParent_some.mp hlink
    obtain ⟨hhex, hlen⟩ := hex_of_validateSha256 hsha hdigest
    simp only [linkBytes, List.append_assoc] at hdrop ⊢
    obtain ⟨hfield', hdrop⟩ := headerField_drop hdrop (length_leBytes 2 _) (by decide)
    rw [hfield']
    simp only [ofLe_leBytes (show (utf8 parent.basename).length < 256 ^ 2 by omega)]
    rw [if_neg (validateBlobBasename_ne_nil hname),
      parseParent_encoded hname hhex hlen (hformat parent rfl) hdrop]
    simp only [List.length_append, length_leBytes, hlen, pure, Except.pure]
    congr 2
    omega

/-! ### What is parsed is encoded to itself -/

theorem parseParent_encodes {raw : Bytes} {cursor parentLen next : ℕ}
    {parent : VectorBlobDescriptor} (hlen : parentLen < 2 ^ 16)
    (h : parseParent raw cursor parentLen = .ok (parent, next)) :
    next ≤ raw.length ∧ ∃ link, encodeParent (some parent) = .ok (leBytes 2 parentLen ++ link)
      ∧ raw.take next = raw.take cursor ++ link := by
  rw [parseParent] at h
  obtain ⟨⟨name, c₁⟩, hname, h⟩ := bind_ok.mp h
  dsimp only at h
  rcases hof : ofUtf8 name with _ | basename
  · rw [hof] at h
    cases h
  rw [hof] at h
  obtain ⟨_, ⟨⟩, h⟩ := bind_ok.mp h
  obtain ⟨⟨⟩, hsafe, h⟩ := bind_ok.mp h
  obtain ⟨⟨size, c₂⟩, hsize, h⟩ := bind_ok.mp h
  obtain ⟨⟨digest, c₃⟩, hdigest, h⟩ := bind_ok.mp h
  obtain ⟨⟨format, c₄⟩, hformat, h⟩ := bind_ok.mp h
  dsimp only at h
  split at h
  · cases h
  cases h
  obtain ⟨hlen₁, -, -, htake₁⟩ := headerField_iff.mp hname
  obtain ⟨hlen₂, -, -, htake₂⟩ := headerField_iff.mp hsize
  obtain ⟨hlen₃, -, -, htake₃⟩ := headerField_iff.mp hdigest
  obtain ⟨hlen₄, -, hle, htake₄⟩ := headerField_iff.mp hformat
  have hutf8 : utf8 basename = name := utf8_of_ofUtf8 hof
  have hsize8 : leBytes 8 (UInt64.ofNat (ofLe size)).toNat = size := by
    have hlt := ofLe_lt size
    rw [hlen₂] at hlt
    rw [UInt64.toNat_ofNat_of_lt' (by simpa [UInt64.size] using hlt), ← hlen₂, leBytes_ofLe]
  have hformat2 : leBytes 2 (UInt16.ofNat (ofLe format)).toNat = format := by
    have hlt := ofLe_lt format
    rw [hlen₄] at hlt
    rw [UInt16.toNat_ofNat_of_lt' (by simpa [UInt16.size] using hlt), ← hlen₄, leBytes_ofLe]
  refine ⟨hle, name ++ (size ++ (digest ++ format)), ?_, ?_⟩
  · refine encodeParent_some.mpr ⟨hsafe, validateSha256_hex hlen₃ _, ?_, digest, ofHex_hex digest, ?_⟩
    · rw [hutf8, hlen₁]
      exact hlen
    · rw [linkBytes, hutf8, hlen₁, hsize8, hformat2]
      simp only [List.append_assoc]
  · rw [htake₄, htake₃, htake₂, htake₁]
    simp only [List.append_assoc]

theorem encodeBlobHeader_parsed {raw : Bytes} {header : VectorBlobHeader}
    (h : parseBlobHeader raw = .ok header) (hversion : header.version = vectorBlobVersion) :
    header.payloadOffset ≤ raw.length ∧ ∃ generation, header.generation = some generation
      ∧ encodeBlobHeader generation header.parent = .ok (raw.take header.payloadOffset) := by
  rw [parseBlobHeader] at h
  split at h
  · cases h
  rename_i hshort
  split at h
  · cases h
  rename_i hmagic
  dsimp only at h
  split at h
  · rename_i hbase
    cases h
    rw [hbase] at hversion
    cases hversion
  split at h
  · cases h
  rename_i hother
  have hfront : raw.take 6 = vectorBlobMagic ++ leBytes 2 vectorBlobVersion.toNat := by
    have hsix : raw.take 6 = raw.take 4 ++ (raw.drop 4).take 2 :=
      (List.take_add : raw.take (4 + 2) = _)
    have hlen : ((raw.drop 4).take 2).length = 2 := by
      rw [List.length_take, List.length_drop]
      omega
    have hlt := ofLe_lt ((raw.drop 4).take 2)
    rw [hlen] at hlt
    have hversion' := congrArg UInt16.toNat (not_not.mp hother)
    rw [UInt16.toNat_ofNat_of_lt' (by simpa [UInt16.size] using hlt)] at hversion'
    have hbytes := leBytes_ofLe ((raw.drop 4).take 2)
    rw [hlen, hversion'] at hbytes
    rw [hsix, not_not.mp hmagic, hbytes]
  rw [parseSegmentHeader] at h
  obtain ⟨⟨generation, c₁⟩, hgeneration, h⟩ := bind_ok.mp h
  dsimp only at h
  split at h
  · cases h
  rename_i hpositive
  obtain ⟨⟨parentLen, c₂⟩, hparentLen, h⟩ := bind_ok.mp h
  obtain ⟨hlen₁, -, -, htake₁⟩ := headerField_iff.mp hgeneration
  obtain ⟨hlen₂, -, hle₂, htake₂⟩ := headerField_iff.mp hparentLen
  have hgeneration8 : leBytes 8 (UInt64.ofNat (ofLe generation)).toNat = generation := by
    have hlt := ofLe_lt generation
    rw [hlen₁] at hlt
    rw [UInt64.toNat_ofNat_of_lt' (by simpa [UInt64.size] using hlt), ← hlen₁, leBytes_ofLe]
  have hencode : ∀ parent link, encodeParent parent = .ok link →
      encodeBlobHeader (UInt64.ofNat (ofLe generation)) parent
        = .ok (vectorBlobMagic ++ leBytes 2 vectorBlobVersion.toNat ++ generation ++ link) := by
    intro parent link hlink
    rw [encodeBlobHeader, if_neg hpositive, hlink, hgeneration8]
    rfl
  dsimp only at h
  split at h
  · rename_i hzero
    cases h
    refine ⟨hle₂, _, rfl, ?_⟩
    have hlink : leBytes 2 0 = parentLen := by
      rw [← hzero, ← hlen₂, leBytes_ofLe]
    rw [hencode none (leBytes 2 0) rfl, hlink, htake₂, htake₁, hfront]
  · obtain ⟨⟨parent, c₃⟩, hparent, h⟩ := bind_ok.mp h
    cases h
    have hlt := ofLe_lt parentLen
    rw [hlen₂] at hlt
    obtain ⟨hle, link, hlink, htake⟩ := parseParent_encodes (by omega) hparent
    have hcount : leBytes 2 (ofLe parentLen) = parentLen := by
      rw [← hlen₂, leBytes_ofLe]
    refine ⟨hle, _, rfl, ?_⟩
    rw [hencode _ _ hlink, hcount, htake, htake₂, htake₁, hfront]
    simp only [List.append_assoc]

/-! ### Checked accesses -/

namespace Checked

/-- An error that is reported, or an access that the bytes do not bear. -/
inductive Fault where
  | io (message : String)
  | panic

/-- The bytes from one position to another. -/
def slice (raw : Bytes) (start stop : ℕ) : Except Fault Bytes :=
  if start ≤ stop ∧ stop ≤ raw.length then .ok ((raw.drop start).take (stop - start))
  else .error .panic

/-- A number in a slice of exactly so many bytes. -/
def fromLeBytes (w : ℕ) (bytes : Bytes) : Except Fault ℕ :=
  if bytes.length = w then .ok (ofLe bytes) else .error .panic

def headerField (raw : Bytes) (cursor len : ℕ) : Except Fault (Bytes × ℕ) :=
  if 2 ^ 64 ≤ cursor + len then .error (.io "vector blob header overflow")
  else if raw.length < cursor + len then .error (.io "vector blob header is truncated")
  else do
    let bytes ← slice raw cursor (cursor + len)
    return (bytes, cursor + len)

def parseParent (raw : Bytes) (cursor parentLen : ℕ) : Except Fault (VectorBlobDescriptor × ℕ) := do
  let (name, cursor) ← headerField raw cursor parentLen
  let basename ← match ofUtf8 name with
    | some basename => .ok basename
    | none => .error (.io "vector blob parent basename is not UTF-8")
  (validateBlobBasename basename).mapError .io
  let (size, cursor) ← headerField raw cursor 8
  let size ← fromLeBytes 8 size
  let (digest, cursor) ← headerField raw cursor 32
  let (format, cursor) ← headerField raw cursor 2
  let format := UInt16.ofNat (← fromLeBytes 2 format)
  if format ≠ vectorBlobVersion ∧ format ≠ vectorBlobVersionBase then
    throw (.io "vector blob parent link names an unsupported format")
  return (⟨basename, UInt64.ofNat size, hex digest, format⟩, cursor)

def parseSegmentHeader (raw : Bytes) (cursor : ℕ) : Except Fault VectorBlobHeader := do
  let (generation, cursor) ← headerField raw cursor 8
  let generation := UInt64.ofNat (← fromLeBytes 8 generation)
  if generation = 0 then throw (.io "vector blob segment generation must be positive")
  let (parentLen, cursor) ← headerField raw cursor 2
  let parentLen ← fromLeBytes 2 parentLen
  if parentLen = 0 then return ⟨vectorBlobVersion, some generation, none, cursor⟩
  let (parent, cursor) ← parseParent raw cursor parentLen
  return ⟨vectorBlobVersion, some generation, some parent, cursor⟩

def parseBlobHeader (raw : Bytes) : Except Fault VectorBlobHeader := do
  if raw.length < 6 then throw (.io "vector blob file is truncated")
  if (← slice raw 0 4) ≠ vectorBlobMagic then throw (.io "vector blob magic mismatch")
  let version := UInt16.ofNat (← fromLeBytes 2 (← slice raw 4 6))
  if version = vectorBlobVersionBase then return ⟨version, none, none, 6⟩
  if version ≠ vectorBlobVersion then
    throw (.io ("vector blob version mismatch: expected 1 or 2, got " ++ toString version))
  parseSegmentHeader raw 6

theorem fromLeBytes_eq {w : ℕ} {bytes : Bytes} (h : bytes.length = w) :
    fromLeBytes w bytes = .ok (ofLe bytes) := if_pos h

theorem slice_eq {raw : Bytes} {start stop : ℕ} (h : start ≤ stop) (h' : stop ≤ raw.length) :
    slice raw start stop = .ok ((raw.drop start).take (stop - start)) := if_pos ⟨h, h'⟩

theorem headerField_eq {raw : Bytes} {cursor len : ℕ} (h : cursor + len < 2 ^ 64) :
    headerField raw cursor len = (Native.headerField raw cursor len).mapError .io := by
  rw [headerField, Native.headerField, if_neg (by omega)]
  by_cases hlen : raw.length < cursor + len
  · rw [if_pos hlen, if_pos hlen]
    rfl
  · rw [if_neg hlen, if_neg hlen, slice_eq (by omega) (by omega), Nat.add_sub_cancel_left]
    rfl

theorem parseParent_eq {raw : Bytes} {cursor parentLen : ℕ} (h : cursor + parentLen < 2 ^ 32) :
    parseParent raw cursor parentLen = (Native.parseParent raw cursor parentLen).mapError .io := by
  rw [parseParent, Native.parseParent, headerField_eq (by omega)]
  rcases hname : Native.headerField raw cursor parentLen with e | ⟨name, c₁⟩
  · rfl
  obtain ⟨-, rfl, -⟩ := headerField_iff.mp hname
  simp only [Except.mapError, bind, Except.bind]
  rcases ofUtf8 name with _ | basename
  · rfl
  dsimp only
  rcases validateBlobBasename basename with e | ⟨⟩
  · rfl
  dsimp only
  rw [headerField_eq (by omega)]
  rcases hsize : Native.headerField raw (cursor + parentLen) 8 with e | ⟨size, c₂⟩
  · rfl
  obtain ⟨hlen, rfl, -⟩ := headerField_iff.mp hsize
  simp only [Except.mapError, fromLeBytes_eq hlen]
  rw [headerField_eq (by omega)]
  rcases hdigest : Native.headerField raw (cursor + parentLen + 8) 32 with e | ⟨digest, c₃⟩
  · rfl
  obtain ⟨-, rfl, -⟩ := headerField_iff.mp hdigest
  simp only [Except.mapError]
  rw [headerField_eq (by omega)]
  rcases hformat : Native.headerField raw (cursor + parentLen + 8 + 32) 2 with e | ⟨format, c₄⟩
  · rfl
  obtain ⟨hlen, rfl, -⟩ := headerField_iff.mp hformat
  simp only [Except.mapError, fromLeBytes_eq hlen]
  split_ifs <;> rfl

theorem parseSegmentHeader_eq (raw : Bytes) :
    parseSegmentHeader raw 6 = (Native.parseSegmentHeader raw 6).mapError .io := by
  rw [parseSegmentHeader, Native.parseSegmentHeader, headerField_eq (by omega)]
  rcases hgeneration : Native.headerField raw 6 8 with e | ⟨generation, c₁⟩
  · rfl
  obtain ⟨hlen, rfl, -⟩ := headerField_iff.mp hgeneration
  simp only [Except.mapError, bind, Except.bind, fromLeBytes_eq hlen]
  by_cases hzero : UInt64.ofNat (ofLe generation) = 0
  · rw [if_pos hzero, if_pos hzero]
    rfl
  rw [if_neg hzero, if_neg hzero, headerField_eq (by omega)]
  rcases hparent : Native.headerField raw (6 + 8) 2 with e | ⟨parentLen, c₂⟩
  · rfl
  obtain ⟨hlen, rfl, -⟩ := headerField_iff.mp hparent
  have hlt := ofLe_lt parentLen
  rw [hlen] at hlt
  simp only [Except.mapError, fromLeBytes_eq hlen]
  by_cases hbase : ofLe parentLen = 0
  · rw [if_pos hbase, if_pos hbase]
    rfl
  rw [if_neg hbase, if_neg hbase, parseParent_eq (by omega)]
  rcases Native.parseParent raw (6 + 8 + 2) (ofLe parentLen) with e | ⟨parent, c₃⟩
  · rfl
  · rfl

theorem parseBlobHeader_eq (raw : Bytes) :
    parseBlobHeader raw = (Native.parseBlobHeader raw).mapError .io := by
  rw [parseBlobHeader, Native.parseBlobHeader]
  by_cases hshort : raw.length < 6
  · rw [if_pos hshort, if_pos hshort]
    rfl
  have hversion : ((raw.drop 4).take 2).length = 2 := by
    rw [List.length_take, List.length_drop]
    omega
  rw [if_neg hshort, if_neg hshort, slice_eq (by omega) (by omega), slice_eq (by omega) (by omega)]
  simp only [bind, Except.bind, List.drop_zero, Nat.sub_zero, Nat.reduceSub,
    fromLeBytes_eq hversion]
  by_cases hmagic : raw.take 4 ≠ vectorBlobMagic
  · rw [if_pos hmagic, if_pos hmagic]
    rfl
  rw [if_neg hmagic, if_neg hmagic]
  by_cases hbase : UInt16.ofNat (ofLe ((raw.drop 4).take 2)) = vectorBlobVersionBase
  · rw [if_pos hbase, if_pos hbase]
    rfl
  rw [if_neg hbase, if_neg hbase]
  by_cases hother : UInt16.ofNat (ofLe ((raw.drop 4).take 2)) ≠ vectorBlobVersion
  · rw [if_pos hother, if_pos hother]
    rfl
  rw [if_neg hother, if_neg hother]
  exact parseSegmentHeader_eq raw

end Checked

/-- Encoding and parsing a header of format 2 are inverse, and no bytes make the parser read past
their end. -/
theorem blob_header_codec :
    (∀ generation parent header payload, (∀ p, parent = some p →
        p.format = vectorBlobVersion ∨ p.format = vectorBlobVersionBase) →
      encodeBlobHeader generation parent = .ok header →
      parseBlobHeader (header ++ payload)
        = .ok ⟨vectorBlobVersion, some generation, parent, header.length⟩)
    ∧ (∀ raw header, parseBlobHeader raw = .ok header → header.version = vectorBlobVersion →
      header.payloadOffset ≤ raw.length ∧ ∃ generation, header.generation = some generation
        ∧ encodeBlobHeader generation header.parent = .ok (raw.take header.payloadOffset))
    ∧ ∀ raw, Checked.parseBlobHeader raw = (parseBlobHeader raw).mapError .io
      ∧ Checked.parseBlobHeader raw ≠ .error .panic := by
  refine ⟨fun _ _ _ payload hformat h => parseBlobHeader_encoded hformat h payload,
    fun _ _ h hversion => encodeBlobHeader_parsed h hversion, fun raw => ?_⟩
  rw [Checked.parseBlobHeader_eq]
  refine ⟨rfl, ?_⟩
  rcases parseBlobHeader raw with e | header
  · rintro ⟨⟩
  · rintro ⟨⟩

end AiraGraphdb.Native
