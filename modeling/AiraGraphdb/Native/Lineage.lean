import AiraGraphdb.Native.Concrete

/-! # Enumerating a lineage from headers

The owner reclaims what a lineage no longer reaches. It asks for the lineage of a published blob,
which is walked from the prefixes of the files alone: no payload is read, and the digest of the
head is taken from its name. The walk agrees with the one that loads and verifies. -/

namespace AiraGraphdb.Native

open Schemes Schemes.Json

/-! ### Published names -/

/-- A text without its end. -/
def stripSuffix (suffix s : List Char) : Option (List Char) :=
  if suffix.isSuffixOf s then some (s.take (s.length - suffix.length)) else none

/-- What stands before and after the last occurrence of a pattern. -/
def rsplitOnce (pat : List Char) : List Char → Option (List Char × List Char)
  | [] => none
  | c :: cs => match rsplitOnce pat cs with
    | some (before, after) => some (c :: before, after)
    | none => if pat.isPrefixOf (c :: cs) then some ([], (c :: cs).drop pat.length) else none

/-- The digest that a published blob carries in its own name. -/
def publishedBlobSha256 (basename : String) : Option String := do
  let stem ← stripSuffix ".vblob".toList basename.toList
  let (rest, digest) ← rsplitOnce ['.'] stem
  let (_, generation) ← rsplitOnce ['.', 'g'] rest
  if generation.length ≠ 20 ∨ ¬ generation.all Char.isDigit then none
  else if ¬ isLowerHexText (String.ofList digest) 32 then none
  else some (String.ofList digest)

theorem stripSuffix_append (a suffix : List Char) : stripSuffix suffix (a ++ suffix) = some a := by
  rw [stripSuffix, if_pos (by rw [List.isSuffixOf_iff_suffix]; exact List.suffix_append a suffix)]
  simp

theorem rsplitOnce_of_not_mem {p : Char} {pat : List Char} :
    ∀ {s : List Char}, p ∉ s → rsplitOnce (p :: pat) s = none
  | [], _ => rfl
  | c :: cs, h => by
    rw [List.mem_cons, not_or] at h
    rw [rsplitOnce, rsplitOnce_of_not_mem h.2]
    have hpre : (p :: pat).isPrefixOf (c :: cs) = false := by
      simp [List.isPrefixOf, h.1]
    simp [hpre]

/-- The last occurrence is the one after which the pattern's first character is not seen again. -/
theorem rsplitOnce_append {p : Char} {pat b : List Char} (hpat : p ∉ pat) (hb : p ∉ b) :
    ∀ a : List Char, rsplitOnce (p :: pat) (a ++ (p :: pat ++ b)) = some (a, b)
  | [] => by
    have htail : p ∉ pat ++ b := by simp [hpat, hb]
    rw [List.nil_append, List.cons_append, rsplitOnce, rsplitOnce_of_not_mem htail]
    have hpre : (p :: pat).isPrefixOf (p :: (pat ++ b)) = true := by
      simp [List.isPrefixOf]
    simp [hpre]
  | c :: a => by
    rw [List.cons_append, rsplitOnce, rsplitOnce_append hpat hb a]

theorem toList_pushn (s : String) (c : Char) (n : ℕ) :
    (s.pushn c n).toList = s.toList ++ List.replicate n c := by
  induction n with
  | zero => simp [String.pushn_eq_repeat_push, Nat.repeat]
  | succ n ih =>
    rw [String.pushn_eq_repeat_push] at ih ⊢
    rw [Nat.repeat, String.toList_push, ih, List.replicate_succ', List.append_assoc]

theorem toList_paddedGeneration (generation : UInt64) :
    (paddedGeneration generation).toList.length = 20
      ∧ ∀ c ∈ (paddedGeneration generation).toList, c.isDigit = true := by
  have hdigits : (toString generation).toList = Nat.toDigits 10 generation.toNat := by
    rw [show toString generation = Nat.repr generation.toNat from rfl, Nat.toList_repr]
  have hle : (toString generation).length ≤ 20 := by
    rw [show toString generation = Nat.repr generation.toNat from rfl,
      Nat.length_repr_le_iff (by decide)]
    exact generation.toNat_lt.trans (by decide)
  have hlist : (paddedGeneration generation).toList
      = List.replicate (20 - (toString generation).length) '0'
        ++ (toString generation).toList := by
    rw [paddedGeneration, String.toList_append, toList_pushn]
    rfl
  refine ⟨?_, ?_⟩
  · rw [hlist, List.length_append, List.length_replicate, String.length_toList]
    omega
  · intro c hc
    rw [hlist] at hc
    rcases List.mem_append.mp hc with hc | hc
    · rw [List.eq_of_mem_replicate hc]
      rfl
    · rw [hdigits] at hc
      exact Nat.isDigit_of_mem_toDigits (by decide) (by decide) hc

theorem dot_not_mem_hex (d : Digest) : '.' ∉ d.hex.toList := by
  have key : ∀ n < 16, hexChar n ≠ '.' := by decide
  intro h
  rw [Digest.hex, hex, String.toList_ofList] at h
  obtain ⟨b, -, hb⟩ := List.mem_flatMap.mp h
  have hlt : b.toNat < 256 := b.toNat_lt
  rcases List.mem_cons.mp hb with hb | hb
  · exact key _ (by omega) hb.symm
  · exact key _ (by omega) (List.mem_singleton.mp hb).symm

/-- The name that a commit gives its blob carries the digest. -/
theorem publishedBlobSha256_blobBasename (dbStem : String) (generation : UInt64) (d : Digest) :
    publishedBlobSha256 (blobBasename dbStem generation d.hex) = some d.hex := by
  obtain ⟨hlen, hdigits⟩ := toList_paddedGeneration generation
  have hdot : '.' ∉ (paddedGeneration generation).toList := by
    intro h
    have := hdigits _ h
    simp [Char.isDigit] at this
  have hname : (blobBasename dbStem generation d.hex).toList
      = (dbStem.toList ++ ('.' :: ['g'] ++ (paddedGeneration generation).toList)
          ++ ('.' :: [] ++ d.hex.toList)) ++ ".vblob".toList := by
    simp only [blobBasename, String.toList_append]
    have hg : ".g".toList = ['.', 'g'] := rfl
    have hd : ".".toList = ['.'] := rfl
    rw [hg, hd]
    simp
  have hgen : rsplitOnce ['.', 'g'] (dbStem.toList ++ ('.' :: ['g']
      ++ (paddedGeneration generation).toList))
      = some (dbStem.toList, (paddedGeneration generation).toList) :=
    rsplitOnce_append (by decide) hdot _
  rw [publishedBlobSha256, hname, stripSuffix_append]
  simp only [Option.bind_eq_bind, Option.bind_some]
  rw [rsplitOnce_append (by simp) (dot_not_mem_hex d)]
  simp only [Option.bind_some]
  rw [hgen]
  simp only [Option.bind_some]
  rw [if_neg, if_neg]
  · rw [String.ofList_toList]
  · rw [String.ofList_toList]
    simp
  · rw [not_or, not_not, not_not]
    exact ⟨hlen, List.all_eq_true.mpr hdigits⟩

/-! ### The walk -/

/-- The largest header of a segment. -/
def vectorBlobHeaderMaxBytes : ℕ := 4 + 2 + 8 + 2 + 65535 + 8 + 32 + 2

/-- The length of a file and the header at its front. -/
def readBlobHeaderPrefix (files : Map Bytes) (basename : String) :
    Except String (ℕ × VectorBlobHeader) := do
  let raw ← ofOption files[basename]? "open vector blob failed"
  let header ← parseBlobHeader (raw.take vectorBlobHeaderMaxBytes)
  return (raw.length, header)

/-- A parent that has a generation has one below its child's. -/
def fallsBelow (child parent : Option UInt64) : Prop :=
  ∀ c ∈ child, ∀ g ∈ parent, g < c

instance (child parent : Option UInt64) : Decidable (fallsBelow child parent) :=
  match child, parent with
  | none, _ => isTrue (by simp [fallsBelow])
  | some _, none => isTrue (by simp [fallsBelow])
  | some c, some g => decidable_of_iff (g < c) (by simp [fallsBelow])

/-- The parents, with so many entries left to the bound. -/
def enumerateParents (files : Map Bytes) : ℕ → List String → Option UInt64 →
    Option VectorBlobDescriptor → Except String (List VectorBlobDescriptor)
  | _, _, _, none => .ok []
  | 0, _, _, some _ => .error "vector blob lineage exceeds 4096 segments"
  | n + 1, seen, child, some parent => do
    validateBlobBasename parent.basename
    ensure (parent.basename ∉ seen) "vector blob lineage references the same segment twice"
    let p ← readBlobHeaderPrefix files parent.basename
    ensure (p.1 = parent.size.toNat ∧ p.2.version = parent.format)
      "vector blob parent header does not match the link that named it"
    ensure (fallsBelow child p.2.generation)
      "vector blob parent generation is not below its child"
    let rest ← enumerateParents files n (parent.basename :: seen) (p.2.generation.or child)
      p.2.parent
    return parent :: rest

def enumerateBlobLineage (files : Map Bytes) (basename : String) :
    Except String (List VectorBlobDescriptor) := do
  validateBlobBasename basename
  let headSha256 ← ofOption (publishedBlobSha256 basename)
    "blob_lineage requires a published blob basename"
  let head ← readBlobHeaderPrefix files basename
  let parents ← enumerateParents files (maxVectorBlobLineage - 1) [basename] head.2.generation
    head.2.parent
  return ⟨basename, UInt64.ofNat head.1, headSha256, head.2.version⟩ :: parents

/-! ### The front of a file is enough -/

theorem headerField_ok {raw bytes : Bytes} {cursor len next : ℕ}
    (h : headerField raw cursor len = .ok (bytes, next)) :
    next = cursor + len ∧ bytes.length = len := by
  rw [headerField] at h
  split at h
  · cases h
  · cases h
    refine ⟨rfl, ?_⟩
    rw [List.length_take, List.length_drop]
    omega

theorem headerField_take {raw : Bytes} {cursor len n : ℕ} (h : cursor + len ≤ n) :
    headerField (raw.take n) cursor len = headerField raw cursor len := by
  have hslice : ((raw.take n).drop cursor).take len = (raw.drop cursor).take len := by
    rw [List.drop_take, List.take_take]
    congr 1
    omega
  have hlen : (raw.take n).length < cursor + len ↔ raw.length < cursor + len := by
    rw [List.length_take]
    omega
  simp only [headerField, hlen, hslice]

theorem parseParent_take {raw : Bytes} {cursor parentLen n : ℕ}
    (h : cursor + parentLen + 42 ≤ n) :
    parseParent (raw.take n) cursor parentLen = parseParent raw cursor parentLen := by
  rw [parseParent, parseParent, headerField_take (by omega)]
  rcases h1 : headerField raw cursor parentLen with e | ⟨name, c1⟩
  · rfl
  · obtain ⟨rfl, -⟩ := headerField_ok h1
    simp only [bind, Except.bind]
    rw [headerField_take (by omega)]
    rcases h2 : headerField raw (cursor + parentLen) 8 with e | ⟨size, c2⟩
    · rfl
    · obtain ⟨rfl, -⟩ := headerField_ok h2
      dsimp only
      rw [headerField_take (by omega)]
      rcases h3 : headerField raw (cursor + parentLen + 8) 32 with e | ⟨digest, c3⟩
      · rfl
      · obtain ⟨rfl, -⟩ := headerField_ok h3
        dsimp only
        rw [headerField_take (by omega)]

theorem parseSegmentHeader_take {raw : Bytes} {n : ℕ} (h : vectorBlobHeaderMaxBytes ≤ n) :
    parseSegmentHeader (raw.take n) 6 = parseSegmentHeader raw 6 := by
  unfold vectorBlobHeaderMaxBytes at h
  rw [parseSegmentHeader, parseSegmentHeader, headerField_take (by omega)]
  rcases h1 : headerField raw 6 8 with e | ⟨generation, c1⟩
  · rfl
  · obtain ⟨rfl, -⟩ := headerField_ok h1
    simp only [bind, Except.bind]
    rw [headerField_take (by omega)]
    rcases h2 : headerField raw (6 + 8) 2 with e | ⟨parentLen, c2⟩
    · rfl
    · obtain ⟨rfl, hlen⟩ := headerField_ok h2
      have hlt := ofLe_lt parentLen
      rw [hlen] at hlt
      dsimp only
      rw [parseParent_take (by omega)]

/-- The header of a file is parsed from its front as from the whole. -/
theorem parseBlobHeader_take (raw : Bytes) :
    parseBlobHeader (raw.take vectorBlobHeaderMaxBytes) = parseBlobHeader raw := by
  have hlen : (raw.take vectorBlobHeaderMaxBytes).length < 6 ↔ raw.length < 6 := by
    rw [List.length_take, vectorBlobHeaderMaxBytes]
    omega
  have hmagic : (raw.take vectorBlobHeaderMaxBytes).take 4 = raw.take 4 := by
    rw [List.take_take]
    rfl
  have hversion : ((raw.take vectorBlobHeaderMaxBytes).drop 4).take 2 = (raw.drop 4).take 2 := by
    rw [List.drop_take, List.take_take]
    rfl
  simp only [parseBlobHeader, hlen, hmagic, hversion, parseSegmentHeader_take (le_refl _)]

/-! ### What an answer is -/

/-- The generation that a segment carries in its header. -/
def segmentGeneration (files : Map Bytes) (d : VectorBlobDescriptor) : Option UInt64 :=
  match readBlobHeaderPrefix files d.basename with
  | .ok (_, header) => header.generation
  | .error _ => none

/-- A chain of segments from a link to a blob without a parent. -/
inductive LinkedBy (files : Map Bytes) :
    Option VectorBlobDescriptor → List VectorBlobDescriptor → Prop
  | base : LinkedBy files none []
  | link {d : VectorBlobDescriptor} {header : VectorBlobHeader} {n : ℕ}
      {rest : List VectorBlobDescriptor} :
      readBlobHeaderPrefix files d.basename = .ok (n, header) → d.size = UInt64.ofNat n →
      d.format = header.version → LinkedBy files header.parent rest →
      LinkedBy files (some d) (d :: rest)

/-- A whole lineage, from a blob of this name to its base. -/
structure WholeLineage (files : Map Bytes) (basename : String)
    (lineage : List VectorBlobDescriptor) : Prop where
  head : (lineage.head?).map VectorBlobDescriptor.basename = some basename
  linked : LinkedBy files lineage.head? lineage
  base : ∃ d n header, lineage.getLast? = some d
    ∧ readBlobHeaderPrefix files d.basename = .ok (n, header) ∧ header.parent = none
  nodup : (lineage.map VectorBlobDescriptor.basename).Nodup
  falling : (lineage.filterMap (segmentGeneration files)).Pairwise (fun a b => b < a)
  bounded : lineage.length ≤ maxVectorBlobLineage

/-- A chain that is not empty ends at a blob without a parent. -/
theorem LinkedBy.base_of_some {files : Map Bytes} {link : Option VectorBlobDescriptor}
    {lineage : List VectorBlobDescriptor} (h : LinkedBy files link lineage) :
    link.isSome → ∃ d n header, lineage.getLast? = some d
      ∧ readBlobHeaderPrefix files d.basename = .ok (n, header) ∧ header.parent = none := by
  induction h with
  | base => intro hsome; cases hsome
  | @link d header n rest hread hsize hformat hrest ih =>
    intro _
    rcases hparent : header.parent with _ | parent
    · rw [hparent] at hrest
      cases hrest
      exact ⟨d, n, header, rfl, hread, hparent⟩
    · obtain ⟨base, m, header', hlast, hbase⟩ := ih (by rw [hparent]; rfl)
      refine ⟨base, m, header', ?_, hbase⟩
      rw [List.getLast?_cons, hlast]
      rfl

/-- What the walk over the parents keeps: names that were not seen, generations that fall. -/
structure ParentWalk (files : Map Bytes) (n : ℕ) (seen : List String) (child : Option UInt64)
    (link : Option VectorBlobDescriptor) (rest : List VectorBlobDescriptor) : Prop where
  linked : LinkedBy files link rest
  nodup : (rest.map VectorBlobDescriptor.basename).Nodup
  fresh : ∀ d ∈ rest, d.basename ∉ seen
  falling : (rest.filterMap (segmentGeneration files)).Pairwise (fun a b => b < a)
  below : ∀ c ∈ child, ∀ g ∈ rest.filterMap (segmentGeneration files), g < c
  bounded : rest.length ≤ n

/-- A segment in front of a walk that starts from it. -/
theorem falling_cons {files : Map Bytes} {d : VectorBlobDescriptor} {m : ℕ}
    {header : VectorBlobHeader} {child : Option UInt64} {rest : List VectorBlobDescriptor}
    (hread : readBlobHeaderPrefix files d.basename = .ok (m, header))
    (hfalls : fallsBelow child header.generation)
    (hfalling : (rest.filterMap (segmentGeneration files)).Pairwise (fun a b => b < a))
    (hbelow : ∀ c ∈ header.generation.or child,
      ∀ g ∈ rest.filterMap (segmentGeneration files), g < c) :
    ((d :: rest).filterMap (segmentGeneration files)).Pairwise (fun a b => b < a)
      ∧ ∀ c ∈ child, ∀ g ∈ (d :: rest).filterMap (segmentGeneration files), g < c := by
  have hgen : segmentGeneration files d = header.generation := by rw [segmentGeneration, hread]
  rcases hg : header.generation with _ | generation
  · rw [hg, Option.none_or] at hbelow
    rw [List.filterMap_cons_none (hgen.trans hg)]
    exact ⟨hfalling, hbelow⟩
  · rw [hg, Option.some_or] at hbelow
    rw [List.filterMap_cons_some (hgen.trans hg)]
    refine ⟨List.pairwise_cons.mpr ⟨hbelow generation rfl, hfalling⟩, ?_⟩
    intro c hc g hmem
    have hlt : generation < c := hfalls c hc generation hg
    rcases List.mem_cons.mp hmem with rfl | hmem
    · exact hlt
    · exact UInt64.lt_trans (hbelow generation rfl g hmem) hlt

theorem enumerateParents_ok {files : Map Bytes} :
    ∀ {n : ℕ} {seen : List String} {child : Option UInt64} {link : Option VectorBlobDescriptor}
      {rest : List VectorBlobDescriptor},
      enumerateParents files n seen child link = .ok rest →
      ParentWalk files n seen child link rest
  | n, seen, child, none, rest, h => by
    rw [enumerateParents] at h
    cases h
    exact ⟨.base, List.nodup_nil, by simp, by simp, by simp, Nat.zero_le n⟩
  | 0, _, _, some _, _, h => by cases h
  | n + 1, seen, child, some parent, rest, h => by
    rw [enumerateParents] at h
    obtain ⟨_, -, h⟩ := bind_ok.mp h
    obtain ⟨_, hseen, h⟩ := bind_ok.mp h
    obtain ⟨⟨len, header⟩, hread, h⟩ := bind_ok.mp h
    obtain ⟨_, hlink, h⟩ := bind_ok.mp h
    obtain ⟨_, hfalls, h⟩ := bind_ok.mp h
    obtain ⟨tail, htail, h⟩ := bind_ok.mp h
    cases h
    replace hseen := ensure_ok.mp hseen
    replace hfalls := ensure_ok.mp hfalls
    obtain ⟨hsize, hformat⟩ := ensure_ok.mp hlink
    have ih := enumerateParents_ok htail
    obtain ⟨hfalling, hbelow⟩ := falling_cons hread hfalls ih.falling ih.below
    refine ⟨.link hread ?_ hformat.symm ih.linked, ?_, ?_, hfalling, hbelow, ?_⟩
    · rw [show len = parent.size.toNat from hsize, UInt64.ofNat_toNat]
    · rw [List.map_cons, List.nodup_cons]
      refine ⟨?_, ih.nodup⟩
      intro hmem
      obtain ⟨d, hd, hname⟩ := List.mem_map.mp hmem
      exact ih.fresh d hd (List.mem_cons.mpr (.inl hname))
    · intro d hd hmem
      rcases List.mem_cons.mp hd with rfl | hd
      · exact hseen hmem
      · exact ih.fresh d hd (List.mem_cons_of_mem _ hmem)
    · simpa using ih.bounded

/-- What is enumerated is a whole lineage, whatever the files hold. -/
theorem enumerateBlobLineage_whole {files : Map Bytes} {basename : String}
    {lineage : List VectorBlobDescriptor} (h : enumerateBlobLineage files basename = .ok lineage) :
    WholeLineage files basename lineage := by
  obtain ⟨_, -, h⟩ := bind_ok.mp h
  obtain ⟨digest, -, h⟩ := bind_ok.mp h
  obtain ⟨⟨len, header⟩, hread, h⟩ := bind_ok.mp h
  obtain ⟨parents, hparents, h⟩ := bind_ok.mp h
  cases h
  have walk := enumerateParents_ok hparents
  set head : VectorBlobDescriptor := ⟨basename, UInt64.ofNat len, digest, header.version⟩
  have hlinked : LinkedBy files (some head) (head :: parents) := .link hread rfl rfl walk.linked
  have hroot : fallsBelow none header.generation := by simp [fallsBelow]
  obtain ⟨hfalling, -⟩ := falling_cons (d := head) hread hroot
    walk.falling (by rw [Option.or_none]; exact walk.below)
  refine ⟨rfl, hlinked, hlinked.base_of_some rfl, ?_, hfalling, ?_⟩
  · rw [List.map_cons, List.nodup_cons]
    refine ⟨?_, walk.nodup⟩
    intro hmem
    obtain ⟨d, hd, hname⟩ := List.mem_map.mp hmem
    exact walk.fresh d hd (List.mem_singleton.mpr hname)
  · have := walk.bounded
    rw [List.length_cons]
    unfold maxVectorBlobLineage at *
    omega

/-! ### Agreement with the loader -/

section Agreement

variable [Externals]

/-- A segment that the loader has verified. -/
structure Verified (files : Map Bytes) (d : VectorBlobDescriptor) (header : VectorBlobHeader) :
    Prop where
  basename : validateBlobBasename d.basename = .ok ()
  file : ∃ raw, files[d.basename]? = some raw ∧ raw.length = d.size.toNat
    ∧ parseBlobHeader raw = .ok header ∧ d.sha256 = (sha256 raw).hex
  format : d.format = header.version

theorem readValidatedBlob_ok {files : Map Bytes} {d : VectorBlobDescriptor} {raw : Bytes}
    (h : readValidatedBlob files d = .ok raw) :
    files[d.basename]? = some raw ∧ raw.length = d.size.toNat ∧ d.sha256 = (sha256 raw).hex
      ∧ ∃ header, parseBlobHeader raw = .ok header ∧ d.format = header.version := by
  rw [readValidatedBlob] at h
  rcases hf : files[d.basename]? with _ | content
  · rw [hf] at h
    cases h
  · rw [hf] at h
    simp only [bind, Except.bind, pure, Except.pure] at h
    split at h
    · cases h
    · next hlen =>
      rcases hp : parseBlobHeader content with e | header
      · rw [hp] at h
        cases h
      · rw [hp] at h
        dsimp only at h
        split at h
        · cases h
        · next hformat =>
          split at h
          · cases h
          · next hsha =>
            cases h
            exact ⟨rfl, not_not.mp hlen, not_not.mp hsha, header, hp, not_not.mp hformat⟩

theorem visitSegment_ok {canonical : UInt64} {files : Map Bytes} {walk after : LineageWalk}
    {d : VectorBlobDescriptor} {header : VectorBlobHeader}
    (h : visitSegment canonical files walk d = .ok (header, after)) :
    Verified files d header ∧ d.basename ∉ walk.seen
      ∧ fallsBelow walk.childGeneration header.generation
      ∧ after.seen = d.basename :: walk.seen
      ∧ after.childGeneration = header.generation.or walk.childGeneration
      ∧ after.totalBytes = walk.totalBytes + d.size.toNat
      ∧ after.totalBytes ≤ maxVectorBlobLineageBytes
      ∧ checkSegmentGeneration canonical walk.childGeneration header.generation = .ok () := by
  rw [visitSegment] at h
  simp only [bind, Except.bind, pure, Except.pure] at h
  split at h
  · cases h
  · rename_i hbytes
    rcases hname : validateBlobBasename d.basename with e | _
    · rw [hname] at h
      cases h
    · rw [hname] at h
      dsimp only at h
      split at h
      · cases h
      · next hseen =>
        rcases hraw : readValidatedBlob files d with e | raw
        · rw [hraw] at h
          cases h
        · rw [hraw] at h
          dsimp only at h
          obtain ⟨hfile, hlen, hsha, header', hparse, hformat⟩ := readValidatedBlob_ok hraw
          rw [hparse] at h
          dsimp only at h
          rcases hgen : checkSegmentGeneration canonical walk.childGeneration header'.generation
            with e | _
          · rw [hgen] at h
            cases h
          · rw [hgen] at h
            dsimp only at h
            split at h
            · cases h
            · cases h
              refine ⟨⟨hname, ⟨raw, hfile, hlen, hparse, hsha⟩, hformat⟩, hseen, ?_, rfl, rfl, rfl,
                Nat.not_lt.mp hbytes, hgen⟩
              intro c hc g hg
              rw [Option.mem_def] at hc hg
              simp only [checkSegmentGeneration, hc, hg] at hgen
              split at hgen
              · cases hgen
              · next hlt => exact UInt64.not_le.mp hlt

omit [Externals] in
theorem walkLineage_ok [Externals] {canonical : UInt64} {files : Map Bytes} {n : ℕ}
    {walk : LineageWalk} {d : VectorBlobDescriptor} {lineage : List VectorBlobDescriptor}
    {loaded : LineageValues}
    (h : walkLineage canonical files (n + 1) walk d = .ok (lineage, loaded)) :
    ∃ header after, visitSegment canonical files walk d = .ok (header, after)
      ∧ ((header.parent = none ∧ lineage = [d])
        ∨ ∃ parent rest, header.parent = some parent ∧ lineage = d :: rest
          ∧ walkLineage canonical files n after parent = .ok (rest, loaded)) := by
  rw [walkLineage] at h
  obtain ⟨⟨header, after⟩, hv, h⟩ := bind_ok.mp h
  refine ⟨header, after, hv, ?_⟩
  dsimp only at h
  split at h
  · next hnone =>
    cases h
    exact .inl ⟨hnone, rfl⟩
  · next parent hparent =>
    obtain ⟨⟨rest, loaded'⟩, hrest, h⟩ := bind_ok.mp h
    cases h
    exact .inr ⟨parent, rest, hparent, rfl, hrest⟩

theorem readBlobHeaderPrefix_of_verified {files : Map Bytes} {d : VectorBlobDescriptor}
    {header : VectorBlobHeader} (h : Verified files d header) :
    readBlobHeaderPrefix files d.basename = .ok (d.size.toNat, header) := by
  obtain ⟨raw, hfile, hlen, hparse, -⟩ := h.file
  rw [readBlobHeaderPrefix, hfile, ← hlen]
  simp only [ofOption, bind, Except.bind, parseBlobHeader_take, hparse]
  rfl

/-- The parents that the loader has walked are enumerated from the headers. -/
theorem enumerateParents_of_walk {canonical : UInt64} {files : Map Bytes} :
    ∀ {n : ℕ} {walk : LineageWalk} {d : VectorBlobDescriptor}
      {lineage : List VectorBlobDescriptor} {loaded : LineageValues},
      walkLineage canonical files n walk d = .ok (lineage, loaded) →
      enumerateParents files n walk.seen walk.childGeneration (some d) = .ok lineage
  | 0, _, _, _, _, h => by cases h
  | n + 1, walk, d, lineage, loaded, h => by
    obtain ⟨header, after, hv, hcases⟩ := walkLineage_ok h
    obtain ⟨hver, hseen, hfalls, hafter, hchild, -⟩ := visitSegment_ok hv
    have hrest : ∃ rest, lineage = d :: rest ∧ enumerateParents files n (d.basename :: walk.seen)
        (header.generation.or walk.childGeneration) header.parent = .ok rest := by
      rcases hcases with ⟨hnone, rfl⟩ | ⟨parent, rest, hparent, rfl, hwalk⟩
      · refine ⟨[], rfl, ?_⟩
        rw [hnone, enumerateParents]
      · refine ⟨rest, rfl, ?_⟩
        rw [hparent, ← hafter, ← hchild]
        exact enumerateParents_of_walk hwalk
    obtain ⟨rest, rfl, hrest⟩ := hrest
    rw [enumerateParents, hver.basename, (ensure_ok (u := ())).mpr hseen,
      readBlobHeaderPrefix_of_verified hver]
    simp only [bind, Except.bind]
    rw [(ensure_ok (u := ())).mpr ⟨trivial, hver.format.symm⟩, (ensure_ok (u := ())).mpr hfalls]
    dsimp only
    rw [hrest]
    rfl

/-- A descriptor that a commit has published: its name carries its digest. -/
def Published (head : VectorBlobDescriptor) : Prop :=
  ∃ dbStem generation, ∃ digest : Digest,
    head.basename = blobBasename dbStem generation digest.hex ∧ head.sha256 = digest.hex

/-- The lineage of a published head is enumerated as it is loaded. -/
theorem enumerateBlobLineage_of_load {state : State} {files : Map Bytes}
    {head : VectorBlobDescriptor} {lineage : List VectorBlobDescriptor}
    {values : Map (List F64)} (hpub : Published head)
    (h : loadVectorLineage state head files = .ok (lineage, values)) :
    enumerateBlobLineage files head.basename = .ok lineage := by
  obtain ⟨⟨walked, loaded⟩, hwalk, h⟩ := bind_ok.mp h
  obtain ⟨_, -, h⟩ := bind_ok.mp h
  cases h
  obtain ⟨header, after, hv, hcases⟩ := walkLineage_ok hwalk
  obtain ⟨hver, -, -, hafter, hchild, -⟩ := visitSegment_ok hv
  obtain ⟨dbStem, generation, digest, hname, hsha⟩ := hpub
  have hparents : ∃ rest, lineage = head :: rest
      ∧ enumerateParents files (maxVectorBlobLineage - 1) [head.basename] header.generation
          header.parent = .ok rest := by
    rw [Option.or_none] at hchild
    rcases hcases with ⟨hnone, rfl⟩ | ⟨parent, rest, hparent, rfl, hrest⟩
    · refine ⟨[], rfl, ?_⟩
      rw [hnone, enumerateParents]
    · refine ⟨rest, rfl, ?_⟩
      rw [hparent, ← hafter, ← hchild]
      exact enumerateParents_of_walk hrest
  obtain ⟨rest, rfl, hrest⟩ := hparents
  have hdigest : publishedBlobSha256 head.basename = some head.sha256 := by
    rw [hname, hsha]
    exact publishedBlobSha256_blobBasename dbStem generation digest
  rw [enumerateBlobLineage, hver.basename, hdigest, readBlobHeaderPrefix_of_verified hver]
  simp only [ofOption, bind, Except.bind]
  rw [hrest, UInt64.ofNat_toNat, ← hver.format]
  rfl

/-- Every successful commit publishes its head. -/
theorem persist_published {host : Host} {dir after : Dir} {s t : Server}
    {supplied : PreparedCommitEvidence} {evidence : StoredCommitEvidence}
    {head : VectorBlobDescriptor}
    (h : persist host dir s supplied = (after, .ok (t, evidence, head))) :
    t.state.vectorBlob = some head ∧ Published head := by
  rw [persist] at h
  split at h
  · cases h
  · next wal p hcheck =>
    dsimp only at h
    split at h
    · cases h
    · cases h
      refine ⟨rfl, ?_⟩
      obtain ⟨_, -, hcheck⟩ := bind_ok.mp hcheck
      obtain ⟨_, -, hcheck⟩ := bind_ok.mp hcheck
      obtain ⟨_, -, hcheck⟩ := bind_ok.mp hcheck
      obtain ⟨_, -, hcheck⟩ := bind_ok.mp hcheck
      obtain ⟨_, -, hcheck⟩ := bind_ok.mp hcheck
      obtain ⟨p', hp, hcheck⟩ := bind_ok.mp hcheck
      cases hcheck
      obtain ⟨_, -, hp⟩ := bind_ok.mp hp
      obtain ⟨_, -, hp⟩ := bind_ok.mp hp
      obtain ⟨_, -, hp⟩ := bind_ok.mp hp
      obtain ⟨_, -, hp⟩ := bind_ok.mp hp
      obtain ⟨blob, -, hp⟩ := bind_ok.mp hp
      obtain ⟨_, -, hp⟩ := bind_ok.mp hp
      obtain ⟨_, -, hp⟩ := bind_ok.mp hp
      obtain ⟨_, -, hp⟩ := bind_ok.mp hp
      cases hp
      exact ⟨s.dbStem, s.state.generation + 1, sha256 blob, rfl, rfl⟩

/-- What the owner reclaims by: for the head of a commit it is told the lineage that a load walks, in
whatever directory and state that head is found; and it is never told less than a whole lineage. -/
theorem enumerateBlobLineage_agrees :
    (∀ {host : Host} {dir after : Dir} {s t : Server} {supplied : PreparedCommitEvidence}
        {evidence : StoredCommitEvidence} {head : VectorBlobDescriptor},
      persist host dir s supplied = (after, .ok (t, evidence, head)) →
      t.state.vectorBlob = some head
        ∧ ∀ (state : State) (files : Map Bytes) (lineage : List VectorBlobDescriptor)
            (values : Map (List F64)), state.vectorBlob = some head →
          loadVectorLineage state head files = .ok (lineage, values) →
          enumerateBlobLineage files head.basename = .ok lineage)
    ∧ ∀ (files : Map Bytes) (basename : String) (lineage : List VectorBlobDescriptor),
      enumerateBlobLineage files basename = .ok lineage → WholeLineage files basename lineage := by
  refine ⟨?_, ?_⟩
  · intro host dir after s t supplied evidence head h
    obtain ⟨hblob, hpub⟩ := persist_published h
    refine ⟨hblob, ?_⟩
    intro state files lineage values _ hload
    exact enumerateBlobLineage_of_load hpub hload
  · intro files basename lineage h
    exact enumerateBlobLineage_whole h

end Agreement

attribute [local instance] Concrete.externals

/-- The first commit of a new store. -/
theorem enumerateBlobLineage_agrees_first : ∃ dir s evidence after t stored head lineage,
    Concrete.prepared = .ok (dir, s, evidence)
      ∧ persist Concrete.host dir s evidence = (after, .ok (t, stored, head))
      ∧ enumerateBlobLineage after.files head.basename = .ok lineage
      ∧ WholeLineage after.files head.basename lineage := by
  have hrun : (match Concrete.prepared with
      | .ok (dir, s, evidence) => match persist Concrete.host dir s evidence with
        | (after, .ok (t, _, head)) => (loadVectorLineage t.state head after.files).isOk
        | (_, .error _) => false
      | .error _ => false) = true := by
    decide +kernel
  rcases hp : Concrete.prepared with e | ⟨dir, s, evidence⟩
  · rw [hp] at hrun
    cases hrun
  · rw [hp] at hrun
    dsimp only at hrun
    rcases hc : persist Concrete.host dir s evidence with ⟨after, e | ⟨t, stored, head⟩⟩
    · rw [hc] at hrun
      cases hrun
    · rw [hc] at hrun
      dsimp only at hrun
      rcases hload : loadVectorLineage t.state head after.files with e | ⟨lineage, values⟩
      · rw [hload] at hrun
        cases hrun
      · obtain ⟨hblob, hagrees⟩ := enumerateBlobLineage_agrees.1 hc
        have henum := hagrees t.state after.files lineage values hblob hload
        exact ⟨dir, s, evidence, after, t, stored, head, lineage, rfl, hc, henum,
          enumerateBlobLineage_agrees.2 _ _ _ henum⟩

end AiraGraphdb.Native
