import AiraGraphdb.Native.DescriptorOpen

/-! # The command line

A process is started over a path, or over two descriptors, or only prints its table of methods. The
options of a descriptor process may come in any order, each once (`descriptor_command_line`). -/

namespace AiraGraphdb.Native

open Schemes

inductive CliMode where
  | normal (dbPath : String)
  | descriptorRead (config : DescriptorReadConfig)
  | printMethodPolicyTable

def methodPolicyTableFlag : String := "--print-method-policy-table"

def descriptorCliFlag (arg : String) : Bool :=
  arg ∈ ["--descriptor-read", "--canonical-fd", "--canonical-json-fd", "--vector-blob-fd",
    "--vector-fd", "--expected-generation", "--legacy-generation0", "--legacy-binding-hash",
    "--legacy-binding-sha256"]

def descriptorLikeCliFlag (arg : String) : Bool :=
  descriptorCliFlag arg
    || ["--descriptor", "--canonical", "--vector", "--expected-generation", "--legacy-generation",
      "--legacy-binding"].any fun pre => pre.toList.isPrefixOf arg.toList

/-! ### Options -/

/-- A signed integer of 32 bits. -/
def parseI32 (s : String) : Option Int32 := do
  let n ← Text.parseI64 s.toList
  if -2 ^ 31 ≤ n.toInt ∧ n.toInt < 2 ^ 31 then some (Int32.ofInt n.toInt) else none

def parseDescriptorI32 (value : Option String) (name : String) : Except String Int32 := do
  let value ← ofOption value (name ++ " requires a value")
  ofOption (parseI32 value) (name ++ " must be an integer FD")

def parseDescriptorGeneration (value : Option String) : Except String UInt64 := do
  let value ← ofOption value "--expected-generation requires a value"
  let generation ← ofOption (Text.parseU64 value.toList)
    "--expected-generation must be an unsigned integer"
  ensure (generation ≤ jsonSafeIntegerMax) "--expected-generation exceeds MAX_SAFE_INTEGER"
  return UInt64.ofNat generation

def parseLegacyBinding (value : Option String) (arg : String) : Except String String := do
  let value ← ofOption value (arg ++ " requires a value")
  validateSha256 value "legacy binding hash"
  return value

/-- An option of a descriptor process and what it says. -/
inductive CliOption where
  | descriptorRead
  | canonicalFd (fd : Int32)
  | vectorBlobFd (fd : Int32)
  | expectedGeneration (generation : UInt64)
  | legacyGeneration0
  | legacyBinding (binding : String)

inductive CliOptionKind where
  | descriptorRead
  | canonicalFd
  | vectorBlobFd
  | expectedGeneration
  | legacyGeneration0
  | legacyBinding
  deriving DecidableEq

def CliOption.kind : CliOption → CliOptionKind
  | descriptorRead => .descriptorRead
  | canonicalFd _ => .canonicalFd
  | vectorBlobFd _ => .vectorBlobFd
  | expectedGeneration _ => .expectedGeneration
  | legacyGeneration0 => .legacyGeneration0
  | legacyBinding _ => .legacyBinding

namespace CliOptionKind

/-- The flags of an option. -/
def flags : CliOptionKind → List String
  | descriptorRead => ["--descriptor-read"]
  | canonicalFd => ["--canonical-fd", "--canonical-json-fd"]
  | vectorBlobFd => ["--vector-blob-fd", "--vector-fd"]
  | expectedGeneration => ["--expected-generation"]
  | legacyGeneration0 => ["--legacy-generation0"]
  | legacyBinding => ["--legacy-binding-hash", "--legacy-binding-sha256"]

/-- What a second one is refused with. -/
def duplicate : CliOptionKind → String
  | descriptorRead => "duplicate --descriptor-read"
  | canonicalFd => "duplicate canonical descriptor FD"
  | vectorBlobFd => "duplicate vector blob descriptor FD"
  | expectedGeneration => "duplicate --expected-generation"
  | legacyGeneration0 => "duplicate --legacy-generation0"
  | legacyBinding => "duplicate legacy binding hash"

def ofFlag (arg : String) : Option CliOptionKind :=
  [descriptorRead, canonicalFd, vectorBlobFd, expectedGeneration, legacyGeneration0,
    legacyBinding].find? fun kind => arg ∈ kind.flags

/-- The option of a flag with what comes behind it, and whether that is its value. -/
def read (value : Option String) (arg : String) : CliOptionKind → Except String (CliOption × Bool)
  | descriptorRead => .ok (.descriptorRead, false)
  | canonicalFd => (parseDescriptorI32 value arg).map fun fd => (.canonicalFd fd, true)
  | vectorBlobFd => (parseDescriptorI32 value arg).map fun fd => (.vectorBlobFd fd, true)
  | expectedGeneration =>
    (parseDescriptorGeneration value).map fun generation => (.expectedGeneration generation, true)
  | legacyGeneration0 => .ok (.legacyGeneration0, false)
  | legacyBinding =>
    (parseLegacyBinding value arg).map fun binding => (.legacyBinding binding, true)

end CliOptionKind

/-- The options that were found. -/
structure DescriptorArgs where
  descriptorMode : Bool
  canonicalFd : Option Int32
  vectorBlobFd : Option Int32
  expectedGeneration : Option UInt64
  legacyGeneration0 : Bool
  legacyBindingSha256 : Option String

namespace DescriptorArgs

def none : DescriptorArgs := ⟨false, .none, .none, .none, false, .none⟩

/-- Whether there is an option of this kind. -/
def has (a : DescriptorArgs) : CliOptionKind → Bool
  | .descriptorRead => a.descriptorMode
  | .canonicalFd => a.canonicalFd.isSome
  | .vectorBlobFd => a.vectorBlobFd.isSome
  | .expectedGeneration => a.expectedGeneration.isSome
  | .legacyGeneration0 => a.legacyGeneration0
  | .legacyBinding => a.legacyBindingSha256.isSome

def put (a : DescriptorArgs) : CliOption → DescriptorArgs
  | .descriptorRead => { a with descriptorMode := true }
  | .canonicalFd fd => { a with canonicalFd := some fd }
  | .vectorBlobFd fd => { a with vectorBlobFd := some fd }
  | .expectedGeneration generation => { a with expectedGeneration := some generation }
  | .legacyGeneration0 => { a with legacyGeneration0 := true }
  | .legacyBinding binding => { a with legacyBindingSha256 := some binding }

/-- An option says what was found. -/
def Shows (a : DescriptorArgs) : CliOption → Prop
  | .descriptorRead => a.descriptorMode = true
  | .canonicalFd fd => a.canonicalFd = some fd
  | .vectorBlobFd fd => a.vectorBlobFd = some fd
  | .expectedGeneration generation => a.expectedGeneration = some generation
  | .legacyGeneration0 => a.legacyGeneration0 = true
  | .legacyBinding binding => a.legacyBindingSha256 = some binding

end DescriptorArgs

/-- One option, and whether what comes behind it was its value. -/
def readOption (arg : String) (value : Option String) (a : DescriptorArgs) :
    Except String (DescriptorArgs × Bool) :=
  match CliOptionKind.ofFlag arg with
  | some kind => do
    ensure (a.has kind = false) kind.duplicate
    let (option, taken) ← kind.read value arg
    return (a.put option, taken)
  | none =>
    if arg = "--db" then .error "--db/path is mutually exclusive with descriptor read mode"
    else .error ("unknown descriptor read option " ++ arg)

def readOptions : List String → DescriptorArgs → Except String DescriptorArgs
  | [], a => .ok a
  | [arg], a => (readOption arg none a).map Prod.fst
  | arg :: value :: args, a => do
    let (a, taken) ← readOption arg (some value) a
    if taken then readOptions args a else readOptions (value :: args) a

/-- The options of a descriptor process have to be complete. -/
def descriptorConfig (a : DescriptorArgs) : Except String DescriptorReadConfig := do
  ensure (a.descriptorMode = true) "descriptor read options require --descriptor-read"
  let expectedGeneration ← ofOption a.expectedGeneration
    "descriptor mode requires --expected-generation"
  let canonicalFd ← ofOption a.canonicalFd "descriptor mode requires --canonical-fd"
  let vectorBlobFd ← ofOption a.vectorBlobFd "descriptor mode requires --vector-blob-fd"
  ensure (expectedGeneration = 0 → a.legacyGeneration0 = true)
    "generation zero requires --legacy-generation0"
  ensure (expectedGeneration = 0 → a.legacyBindingSha256.isSome = true)
    "generation zero requires --legacy-binding-hash"
  ensure (expectedGeneration ≠ 0 → a.legacyGeneration0 = false ∧ a.legacyBindingSha256 = none)
    "legacy generation zero metadata is forbidden for positive generations"
  return ⟨canonicalFd, vectorBlobFd, expectedGeneration, a.legacyGeneration0,
    a.legacyBindingSha256⟩

/-- The last `--db` that a value follows; everything else is ignored. -/
def normalDbPath : List String → String → String
  | [], path => path
  | [_], path => path
  | arg :: value :: args, path =>
    if arg = "--db" then normalDbPath args value else normalDbPath (value :: args) path

def parseCli (args : List String) : Except String CliMode :=
  if methodPolicyTableFlag ∈ args then .ok .printMethodPolicyTable
  else if args.any descriptorLikeCliFlag then do
    let a ← readOptions args .none
    return .descriptorRead (← descriptorConfig a)
  else .ok (.normal (normalDbPath args "aira-graphdb-native.json"))

/-! ### What is accepted -/

/-- How an option is written. -/
inductive Spells : CliOption → List String → Prop
  | descriptorRead : Spells .descriptorRead ["--descriptor-read"]
  | canonicalFd {flag text : String} {fd : Int32} (hflag : flag ∈ CliOptionKind.canonicalFd.flags)
      (htext : parseI32 text = some fd) : Spells (.canonicalFd fd) [flag, text]
  | vectorBlobFd {flag text : String} {fd : Int32}
      (hflag : flag ∈ CliOptionKind.vectorBlobFd.flags) (htext : parseI32 text = some fd) :
      Spells (.vectorBlobFd fd) [flag, text]
  | expectedGeneration {text : String} {n : ℕ} (htext : Text.parseU64 text.toList = some n)
      (hsafe : n ≤ jsonSafeIntegerMax) :
      Spells (.expectedGeneration (UInt64.ofNat n)) ["--expected-generation", text]
  | legacyGeneration0 : Spells .legacyGeneration0 ["--legacy-generation0"]
  | legacyBinding {flag text : String} (hflag : flag ∈ CliOptionKind.legacyBinding.flags)
      (htext : isLowerHexText text 32 = true) : Spells (.legacyBinding text) [flag, text]

/-- A generation zero comes with its binding, a positive one with neither. -/
structure DescriptorReadConfig.Coherent (config : DescriptorReadConfig) : Prop where
  zero : config.expectedGeneration = 0 →
    config.legacyGeneration0 = true ∧ config.legacyBindingSha256.isSome = true
  positive : config.expectedGeneration ≠ 0 →
    config.legacyGeneration0 = false ∧ config.legacyBindingSha256 = none

/-- The options that say a configuration. -/
def DescriptorReadConfig.options (config : DescriptorReadConfig) : List CliOption :=
  [.descriptorRead, .canonicalFd config.canonicalFd, .vectorBlobFd config.vectorBlobFd,
    .expectedGeneration config.expectedGeneration]
    ++ (if config.legacyGeneration0 then [.legacyGeneration0] else [])
    ++ config.legacyBindingSha256.toList.map .legacyBinding

namespace DescriptorArgs

theorem put_shows (a : DescriptorArgs) (o : CliOption) : (a.put o).Shows o := by
  cases o <;> rfl

theorem put_keeps {a : DescriptorArgs} {o o' : CliOption} (h : o.kind ≠ o'.kind) :
    (a.put o').Shows o ↔ a.Shows o := by
  cases o <;> cases o' <;> first | exact Iff.rfl | exact absurd rfl h

theorem has_put (a : DescriptorArgs) (o : CliOption) (k : CliOptionKind) :
    (a.put o).has k = true ↔ k = o.kind ∨ a.has k = true := by
  cases o <;> cases k <;> simp [has, put, CliOption.kind]

theorem has_none (k : CliOptionKind) : none.has k = false := by
  cases k <;> rfl

theorem Shows.has {a : DescriptorArgs} {o : CliOption} (h : a.Shows o) : a.has o.kind = true := by
  cases o <;> simp_all [Shows, DescriptorArgs.has, CliOption.kind]

/-- There is one option of a kind. -/
theorem Shows.unique {a : DescriptorArgs} {o o' : CliOption} (h : a.Shows o) (h' : a.Shows o')
    (hkind : o.kind = o'.kind) : o = o' := by
  cases o <;> cases o' <;> simp_all [Shows, CliOption.kind]

theorem exists_shows {a : DescriptorArgs} {k : CliOptionKind} (h : a.has k = true) :
    ∃ o, o.kind = k ∧ a.Shows o := by
  cases k with
  | descriptorRead => exact ⟨.descriptorRead, rfl, h⟩
  | canonicalFd =>
    obtain ⟨fd, hfd⟩ := Option.isSome_iff_exists.mp h
    exact ⟨.canonicalFd fd, rfl, hfd⟩
  | vectorBlobFd =>
    obtain ⟨fd, hfd⟩ := Option.isSome_iff_exists.mp h
    exact ⟨.vectorBlobFd fd, rfl, hfd⟩
  | expectedGeneration =>
    obtain ⟨generation, hgeneration⟩ := Option.isSome_iff_exists.mp h
    exact ⟨.expectedGeneration generation, rfl, hgeneration⟩
  | legacyGeneration0 => exact ⟨.legacyGeneration0, rfl, h⟩
  | legacyBinding =>
    obtain ⟨binding, hbinding⟩ := Option.isSome_iff_exists.mp h
    exact ⟨.legacyBinding binding, rfl, hbinding⟩

end DescriptorArgs

theorem parseDescriptorI32_ok {value : Option String} {name : String} {fd : Int32} :
    parseDescriptorI32 value name = .ok fd ↔ ∃ text, value = some text ∧ parseI32 text = some fd := by
  simp [parseDescriptorI32, bind_ok]

theorem parseDescriptorGeneration_ok {value : Option String} {generation : UInt64} :
    parseDescriptorGeneration value = .ok generation ↔ ∃ text, value = some text
      ∧ ∃ n, Text.parseU64 text.toList = some n ∧ n ≤ jsonSafeIntegerMax
        ∧ UInt64.ofNat n = generation := by
  simp [parseDescriptorGeneration, bind_ok, pure, Except.pure]

theorem parseLegacyBinding_ok {value : Option String} {arg binding : String} :
    parseLegacyBinding value arg = .ok binding ↔
      value = some binding ∧ isLowerHexText binding 32 = true := by
  simp only [parseLegacyBinding, bind_ok, ofOption_ok, validateSha256_ok, pure, Except.pure,
    Except.ok.injEq, exists_const]
  constructor
  · rintro ⟨text, hvalue, hhex, rfl⟩
    exact ⟨hvalue, hhex⟩
  · rintro ⟨hvalue, hhex⟩
    exact ⟨binding, hvalue, hhex, rfl⟩

/-- The words of an option at the front of some arguments. -/
def WordsOf (o : CliOption) (arg : String) (value : Option String) (taken : Bool) : Prop :=
  (taken = false ∧ Spells o [arg]) ∨ (taken = true ∧ ∃ text, value = some text ∧ Spells o [arg, text])

theorem ofFlag_eq {arg : String} {kind : CliOptionKind} :
    CliOptionKind.ofFlag arg = some kind ↔ arg ∈ kind.flags := by
  constructor
  · intro h
    simpa using List.find?_some h
  · intro h
    cases kind <;> simp only [CliOptionKind.flags, List.mem_cons, List.not_mem_nil, or_false] at h
    all_goals first | (subst h; decide) | (rcases h with rfl | rfl <;> decide)

theorem Spells.flag_mem {o : CliOption} {arg : String} {words : List String}
    (h : Spells o (arg :: words)) : arg ∈ o.kind.flags := by
  cases h <;> first | assumption | simp [CliOption.kind, CliOptionKind.flags]

theorem read_ok {kind : CliOptionKind} {arg : String} {value : Option String} {o : CliOption}
    {taken : Bool} (hflag : arg ∈ kind.flags) :
    kind.read value arg = .ok (o, taken) ↔ o.kind = kind ∧ WordsOf o arg value taken := by
  constructor
  · intro h
    cases kind with
    | descriptorRead =>
      cases h
      obtain rfl : arg = "--descriptor-read" := by simpa [CliOptionKind.flags] using hflag
      exact ⟨rfl, .inl ⟨rfl, .descriptorRead⟩⟩
    | canonicalFd =>
      obtain ⟨fd, hfd, heq⟩ := map_ok.mp h
      cases heq
      obtain ⟨text, hvalue, htext⟩ := parseDescriptorI32_ok.mp hfd
      exact ⟨rfl, .inr ⟨rfl, text, hvalue, .canonicalFd hflag htext⟩⟩
    | vectorBlobFd =>
      obtain ⟨fd, hfd, heq⟩ := map_ok.mp h
      cases heq
      obtain ⟨text, hvalue, htext⟩ := parseDescriptorI32_ok.mp hfd
      exact ⟨rfl, .inr ⟨rfl, text, hvalue, .vectorBlobFd hflag htext⟩⟩
    | expectedGeneration =>
      obtain ⟨generation, hgeneration, heq⟩ := map_ok.mp h
      cases heq
      obtain ⟨text, hvalue, n, htext, hsafe, rfl⟩ := parseDescriptorGeneration_ok.mp hgeneration
      obtain rfl : arg = "--expected-generation" := by simpa [CliOptionKind.flags] using hflag
      exact ⟨rfl, .inr ⟨rfl, text, hvalue, .expectedGeneration htext hsafe⟩⟩
    | legacyGeneration0 =>
      cases h
      obtain rfl : arg = "--legacy-generation0" := by simpa [CliOptionKind.flags] using hflag
      exact ⟨rfl, .inl ⟨rfl, .legacyGeneration0⟩⟩
    | legacyBinding =>
      obtain ⟨binding, hbinding, heq⟩ := map_ok.mp h
      cases heq
      obtain ⟨hvalue, hhex⟩ := parseLegacyBinding_ok.mp hbinding
      exact ⟨rfl, .inr ⟨rfl, binding, hvalue, .legacyBinding hflag hhex⟩⟩
  · rintro ⟨rfl, ⟨rfl, hspells⟩ | ⟨rfl, text, rfl, hspells⟩⟩
    · cases hspells <;> rfl
    · cases hspells with
      | canonicalFd _ htext =>
        exact map_ok.mpr ⟨_, parseDescriptorI32_ok.mpr ⟨text, rfl, htext⟩, rfl⟩
      | vectorBlobFd _ htext =>
        exact map_ok.mpr ⟨_, parseDescriptorI32_ok.mpr ⟨text, rfl, htext⟩, rfl⟩
      | expectedGeneration htext hsafe =>
        exact map_ok.mpr ⟨_, parseDescriptorGeneration_ok.mpr ⟨text, rfl, _, htext, hsafe, rfl⟩, rfl⟩
      | legacyBinding _ hhex =>
        exact map_ok.mpr ⟨_, parseLegacyBinding_ok.mpr ⟨rfl, hhex⟩, rfl⟩

theorem readOption_ok {arg : String} {value : Option String} {a b : DescriptorArgs} {taken : Bool} :
    readOption arg value a = .ok (b, taken) ↔
      ∃ o, a.has o.kind = false ∧ b = a.put o ∧ WordsOf o arg value taken := by
  rw [readOption]
  rcases hflag : CliOptionKind.ofFlag arg with _ | kind
  · have hnone : ∀ o, ¬ WordsOf o arg value taken := by
      rintro o (⟨-, hspells⟩ | ⟨-, text, -, hspells⟩)
      · simp [ofFlag_eq.mpr hspells.flag_mem] at hflag
      · simp [ofFlag_eq.mpr hspells.flag_mem] at hflag
    constructor
    · intro h
      dsimp only at h
      split_ifs at h
    · rintro ⟨o, -, -, hwords⟩
      exact absurd hwords (hnone o)
  · have hmem := ofFlag_eq.mp hflag
    simp only [bind_ok, ensure_ok, exists_const, pure, Except.pure, Except.ok.injEq, Prod.mk.injEq]
    constructor
    · rintro ⟨hfresh, ⟨o, taken'⟩, hread, rfl, rfl⟩
      obtain ⟨rfl, hwords⟩ := (read_ok hmem).mp hread
      exact ⟨o, hfresh, rfl, hwords⟩
    · rintro ⟨o, hfresh, rfl, hwords⟩
      have hkind : o.kind = kind := by
        have : arg ∈ o.kind.flags := by
          rcases hwords with ⟨-, hspells⟩ | ⟨-, text, -, hspells⟩ <;> exact hspells.flag_mem
        exact Option.some.inj ((ofFlag_eq.mpr this).symm.trans hflag)
      exact ⟨hkind ▸ hfresh, (o, taken), (read_ok hmem).mpr ⟨hkind, hwords⟩, rfl, rfl⟩

/-- Options one after the other, each of a new kind. -/
inductive Gathers : DescriptorArgs → List CliOption → DescriptorArgs → Prop
  | nil {a : DescriptorArgs} : Gathers a [] a
  | cons {a b : DescriptorArgs} {o : CliOption} {options : List CliOption}
      (hfresh : a.has o.kind = false) (h : Gathers (a.put o) options b) : Gathers a (o :: options) b

/-- Arguments that spell some options. -/
def SpellAll (options : List CliOption) (args : List String) : Prop :=
  ∃ groups, List.Forall₂ Spells options groups ∧ args = groups.flatten

theorem spellAll_nil {options : List CliOption} : SpellAll options [] ↔ options = [] := by
  constructor
  · rintro ⟨groups, hgroups, hflat⟩
    cases hgroups with
    | nil => rfl
    | cons h _ => cases h <;> simp at hflat
  · rintro rfl
    exact ⟨[], .nil, rfl⟩

theorem spellAll_cons {options : List CliOption} {arg : String} {args : List String} :
    SpellAll options (arg :: args) ↔ ∃ o rest, options = o :: rest
      ∧ ((Spells o [arg] ∧ SpellAll rest args)
        ∨ ∃ text args', args = text :: args' ∧ Spells o [arg, text] ∧ SpellAll rest args') := by
  constructor
  · rintro ⟨groups, hgroups, hflat⟩
    cases hgroups with
    | nil => cases hflat
    | @cons o words rest groups h hgroups =>
      refine ⟨o, rest, rfl, ?_⟩
      have hwords : words.length = 1 ∨ words.length = 2 := by cases h <;> simp
      rcases words with _ | ⟨flag, _ | ⟨text, _ | ⟨_, _⟩⟩⟩
      · simp at hwords
      · simp only [List.flatten_cons, List.cons_append, List.nil_append, List.cons.injEq] at hflat
        obtain ⟨rfl, rfl⟩ := hflat
        exact .inl ⟨h, groups, hgroups, rfl⟩
      · simp only [List.flatten_cons, List.cons_append, List.nil_append, List.cons.injEq] at hflat
        obtain ⟨rfl, rfl⟩ := hflat
        exact .inr ⟨text, _, rfl, h, groups, hgroups, rfl⟩
      · simp at hwords
  · rintro ⟨o, rest, rfl, ⟨h, groups, hgroups, rfl⟩ | ⟨text, _, rfl, h, groups, hgroups, rfl⟩⟩
    · exact ⟨[arg] :: groups, .cons h hgroups, rfl⟩
    · exact ⟨[arg, text] :: groups, .cons h hgroups, rfl⟩

theorem readOptions_ok (args : List String) (a b : DescriptorArgs) :
    readOptions args a = .ok b ↔ ∃ options, SpellAll options args ∧ Gathers a options b := by
  induction args, a using readOptions.induct with
  | case1 a =>
    simp only [readOptions, Except.ok.injEq, spellAll_nil]
    constructor
    · rintro rfl
      exact ⟨[], rfl, .nil⟩
    · rintro ⟨_, rfl, hgathers⟩
      cases hgathers
      rfl
  | case2 a arg =>
    rw [readOptions, map_ok]
    constructor
    · rintro ⟨⟨b', taken⟩, hread, rfl⟩
      obtain ⟨o, hfresh, rfl, ⟨-, hspells⟩ | ⟨-, text, hnone, -⟩⟩ := readOption_ok.mp hread
      · exact ⟨[o], spellAll_cons.mpr ⟨o, [], rfl, .inl ⟨hspells, spellAll_nil.mpr rfl⟩⟩,
          .cons hfresh .nil⟩
      · cases hnone
    · rintro ⟨options, hall, hgathers⟩
      obtain ⟨o, rest, rfl, ⟨hspells, hrest⟩ | ⟨text, args', hcons, -⟩⟩ := spellAll_cons.mp hall
      · obtain rfl := spellAll_nil.mp hrest
        cases hgathers with
        | cons hfresh h =>
          cases h
          exact ⟨(_, false), readOption_ok.mpr ⟨o, hfresh, rfl, .inl ⟨rfl, hspells⟩⟩, rfl⟩
      · cases hcons
  | case3 arg value args a ihTaken ih =>
    rw [readOptions, bind_ok]
    constructor
    · rintro ⟨⟨a', taken⟩, hread, h⟩
      obtain ⟨o, hfresh, rfl, ⟨rfl, hspells⟩ | ⟨rfl, text, hvalue, hspells⟩⟩ :=
        readOption_ok.mp hread
      · obtain ⟨options, hall, hgathers⟩ := (ih _).mp h
        exact ⟨o :: options, spellAll_cons.mpr ⟨o, options, rfl, .inl ⟨hspells, hall⟩⟩,
          .cons hfresh hgathers⟩
      · obtain ⟨options, hall, hgathers⟩ := (ihTaken _).mp h
        cases hvalue
        exact ⟨o :: options, spellAll_cons.mpr ⟨o, options, rfl, .inr ⟨_, _, rfl, hspells, hall⟩⟩,
          .cons hfresh hgathers⟩
    · rintro ⟨options, hall, hgathers⟩
      obtain ⟨o, rest, rfl, ⟨hspells, hrest⟩ | ⟨text, args', hcons, hspells, hrest⟩⟩ :=
        spellAll_cons.mp hall
      · cases hgathers with
        | cons hfresh h =>
          exact ⟨(_, false), readOption_ok.mpr ⟨o, hfresh, rfl, .inl ⟨rfl, hspells⟩⟩,
            (ih _).mpr ⟨rest, hrest, h⟩⟩
      · cases hcons
        cases hgathers with
        | cons hfresh h =>
          exact ⟨(_, true), readOption_ok.mpr ⟨o, hfresh, rfl, .inr ⟨rfl, _, rfl, hspells⟩⟩,
            (ihTaken _).mpr ⟨rest, hrest, h⟩⟩

/-- What was gathered: options of different kinds, which say what was found beside what was there. -/
structure Gathered (a : DescriptorArgs) (options : List CliOption) (b : DescriptorArgs) : Prop where
  nodup : (options.map CliOption.kind).Nodup
  fresh : ∀ o ∈ options, a.has o.kind = false
  shows : ∀ o, b.Shows o ↔ a.Shows o ∨ o ∈ options

theorem gathers_iff (options : List CliOption) (a : DescriptorArgs) :
    (∀ b, Gathers a options b → Gathered a options b)
      ∧ ((options.map CliOption.kind).Nodup → (∀ o ∈ options, a.has o.kind = false) →
        ∃ b, Gathers a options b) := by
  induction options generalizing a with
  | nil =>
    refine ⟨?_, fun _ _ => ⟨a, .nil⟩⟩
    intro b h
    cases h
    exact ⟨List.nodup_nil, by simp, by simp⟩
  | cons o options ih =>
    obtain ⟨hgathered, hexists⟩ := ih (a.put o)
    constructor
    · intro b h
      cases h with
      | cons hfresh h =>
        obtain ⟨hnodup, hrest, hshows⟩ := hgathered b h
        have hkinds : ∀ o' ∈ options, o'.kind ≠ o.kind ∧ a.has o'.kind = false := by
          intro o' ho'
          have := hrest o' ho'
          rw [← Bool.not_eq_true, DescriptorArgs.has_put] at this
          simpa using this
        refine ⟨?_, ?_, ?_⟩
        · rw [List.map_cons, List.nodup_cons]
          refine ⟨?_, hnodup⟩
          rw [List.mem_map]
          rintro ⟨o', ho', hkind⟩
          exact (hkinds o' ho').1 hkind
        · intro o' ho'
          rcases List.mem_cons.mp ho' with rfl | ho'
          · exact hfresh
          · exact (hkinds o' ho').2
        · intro o'
          rw [hshows, List.mem_cons, ← or_assoc, or_congr_left]
          by_cases hkind : o'.kind = o.kind
          · constructor
            · intro h
              exact .inr (h.unique (a.put_shows o) hkind)
            · rintro (h | rfl)
              · have := h.has
                rw [hkind, hfresh] at this
                cases this
              · exact a.put_shows _
          · rw [DescriptorArgs.put_keeps hkind]
            constructor
            · exact .inl
            · rintro (h | rfl)
              · exact h
              · exact absurd rfl hkind
    · intro hnodup hfresh
      rw [List.map_cons, List.nodup_cons] at hnodup
      obtain ⟨b, hb⟩ := hexists hnodup.2 fun o' ho' => by
        rw [← Bool.not_eq_true, DescriptorArgs.has_put, not_or]
        refine ⟨?_, by simp [hfresh o' (List.mem_cons_of_mem _ ho')]⟩
        intro hkind
        exact hnodup.1 (List.mem_map.mpr ⟨o', ho', hkind⟩)
      exact ⟨b, .cons (hfresh o (by simp)) hb⟩

theorem mem_options {config : DescriptorReadConfig} {o : CliOption} :
    o ∈ config.options ↔ .descriptorRead = o ∨ .canonicalFd config.canonicalFd = o
      ∨ .vectorBlobFd config.vectorBlobFd = o ∨ .expectedGeneration config.expectedGeneration = o
      ∨ (config.legacyGeneration0 = true ∧ .legacyGeneration0 = o)
      ∨ ∃ binding, config.legacyBindingSha256 = some binding ∧ .legacyBinding binding = o := by
  rcases hzero : config.legacyGeneration0 <;>
    rcases hbinding : config.legacyBindingSha256 with _ | binding <;>
    simp [DescriptorReadConfig.options, hzero, hbinding, eq_comm (a := o)]

theorem nodup_options (config : DescriptorReadConfig) :
    (config.options.map CliOption.kind).Nodup := by
  rcases hzero : config.legacyGeneration0 <;>
    rcases hbinding : config.legacyBindingSha256 with _ | binding <;>
    simp [DescriptorReadConfig.options, hzero, hbinding, CliOption.kind]

theorem descriptorConfig_ok {a : DescriptorArgs} {config : DescriptorReadConfig} :
    descriptorConfig a = .ok config ↔
      config.Coherent ∧ ∀ o, a.Shows o ↔ o ∈ config.options := by
  simp only [descriptorConfig, bind_ok, ensure_ok, ofOption_ok, exists_const, pure, Except.pure,
    Except.ok.injEq]
  constructor
  · rintro ⟨hmode, generation, hgeneration, canonical, hcanonical, vector, hvector, hzero, hbinding,
      hpositive, rfl⟩
    refine ⟨⟨fun h => ⟨hzero h, hbinding h⟩, hpositive⟩, ?_⟩
    intro o
    rw [mem_options]
    cases o <;> simp [DescriptorArgs.Shows, hmode, hgeneration, hcanonical, hvector]
  · rintro ⟨hcoherent, hshows⟩
    have hlegacy : a.legacyGeneration0 = config.legacyGeneration0 := by
      have := hshows .legacyGeneration0
      rw [mem_options] at this
      simp only [DescriptorArgs.Shows, reduceCtorEq, and_true, and_false, exists_false, or_false,
        false_or] at this
      exact Bool.eq_iff_iff.mpr this
    have hbinding : a.legacyBindingSha256 = config.legacyBindingSha256 := by
      refine Option.ext fun binding => ?_
      have := hshows (.legacyBinding binding)
      rw [mem_options] at this
      simpa [DescriptorArgs.Shows] using this
    refine ⟨(hshows .descriptorRead).mpr (by simp [mem_options]), config.expectedGeneration,
      (hshows (.expectedGeneration _)).mpr (by simp [mem_options]), config.canonicalFd,
      (hshows (.canonicalFd _)).mpr (by simp [mem_options]), config.vectorBlobFd,
      (hshows (.vectorBlobFd _)).mpr (by simp [mem_options]), ?_, ?_, ?_, ?_⟩
    · rw [hlegacy]
      exact fun h => (hcoherent.zero h).1
    · rw [hbinding]
      exact fun h => (hcoherent.zero h).2
    · rw [hlegacy, hbinding]
      exact hcoherent.positive
    · rw [hlegacy, hbinding]

theorem not_shows_none (o : CliOption) : ¬ DescriptorArgs.none.Shows o := by
  intro h
  have := h.has
  rw [DescriptorArgs.has_none] at this
  cases this

/-- The words of an option are neither the flag of the table nor without a flag of their own. -/
theorem Spells.words {o : CliOption} {words : List String} (h : Spells o words) :
    methodPolicyTableFlag ∉ words ∧ ∃ word ∈ words, descriptorLikeCliFlag word = true := by
  have hfd : parseI32 methodPolicyTableFlag = none := by decide
  have hgeneration : Text.parseU64 methodPolicyTableFlag.toList = none := by decide
  have hbinding : isLowerHexText methodPolicyTableFlag 32 = false := by decide
  have hflag : ∀ {kind : CliOptionKind} {flag : String}, flag ∈ kind.flags →
      methodPolicyTableFlag ≠ flag ∧ descriptorLikeCliFlag flag = true := by
    intro kind flag h
    cases kind <;> simp only [CliOptionKind.flags, List.mem_cons, List.not_mem_nil, or_false] at h
    all_goals first | (subst h; decide) | (rcases h with rfl | rfl <;> decide)
  have htwo : ∀ {flag text : String}, flag ∈ o.kind.flags → methodPolicyTableFlag ≠ text →
      methodPolicyTableFlag ∉ [flag, text]
        ∧ ∃ word ∈ [flag, text], descriptorLikeCliFlag word = true := by
    intro flag text h htext
    exact ⟨by simp [(hflag h).1, htext], flag, by simp, (hflag h).2⟩
  have hmem : ∀ {arg : String} {rest : List String}, words = arg :: rest → arg ∈ o.kind.flags := by
    rintro arg rest rfl
    exact h.flag_mem
  cases h with
  | descriptorRead => exact ⟨by decide, "--descriptor-read", by simp, by decide⟩
  | canonicalFd _ htext => exact htwo (hmem rfl) fun heq => by simp [← heq, hfd] at htext
  | vectorBlobFd _ htext => exact htwo (hmem rfl) fun heq => by simp [← heq, hfd] at htext
  | expectedGeneration htext _ =>
    exact htwo (hmem rfl) fun heq => by simp [← heq, hgeneration] at htext
  | legacyGeneration0 => exact ⟨by decide, "--legacy-generation0", by simp, by decide⟩
  | legacyBinding _ htext => exact htwo (hmem rfl) fun heq => by simp [← heq, hbinding] at htext

/-- Arguments that spell options ask for a descriptor process. -/
theorem SpellAll.requests {options : List CliOption} {args : List String} (h : SpellAll options args)
    (hne : options ≠ []) :
    methodPolicyTableFlag ∉ args ∧ args.any descriptorLikeCliFlag = true := by
  obtain ⟨groups, hgroups, rfl⟩ := h
  have hwords : ∀ words ∈ groups, methodPolicyTableFlag ∉ words
      ∧ ∃ word ∈ words, descriptorLikeCliFlag word = true := by
    clear hne
    induction hgroups with
    | nil => simp
    | cons h _ ih =>
      intro words hwords
      rcases List.mem_cons.mp hwords with rfl | hwords
      · exact h.words
      · exact ih words hwords
  refine ⟨?_, ?_⟩
  · rw [List.mem_flatten]
    rintro ⟨words, hmem, htable⟩
    exact (hwords words hmem).1 htable
  · cases hgroups with
    | nil => exact absurd rfl hne
    | cons h _ =>
      obtain ⟨-, word, hword, hlike⟩ := h.words
      exact List.any_eq_true.mpr ⟨word, by simp [hword], hlike⟩

/-- The arguments of a descriptor process are its options in any order, each once. -/
theorem descriptor_command_line {args : List String} {config : DescriptorReadConfig} :
    parseCli args = .ok (.descriptorRead config) ↔
      config.Coherent ∧ ∃ options, options.Perm config.options ∧ SpellAll options args := by
  have hgather : ∀ {options : List CliOption} {a : DescriptorArgs},
      Gathers .none options a → (options.Perm config.options ↔ ∀ o, a.Shows o ↔ o ∈ config.options) := by
    intro options a h
    obtain ⟨hnodup, -, hshows⟩ := (gathers_iff options .none).1 a h
    rw [List.perm_ext_iff_of_nodup hnodup.of_map (nodup_options config).of_map]
    refine forall_congr' fun o => ?_
    rw [hshows, or_iff_right (not_shows_none o)]
  constructor
  · intro h
    rw [parseCli] at h
    split_ifs at h with htable hdescriptor
    · cases h
    · obtain ⟨a, hread, h⟩ := bind_ok.mp h
      obtain ⟨config', hconfig, h⟩ := bind_ok.mp h
      cases h
      obtain ⟨options, hspells, hgathers⟩ := (readOptions_ok args .none a).mp hread
      obtain ⟨hcoherent, hshows⟩ := descriptorConfig_ok.mp hconfig
      exact ⟨hcoherent, options, (hgather hgathers).mpr hshows, hspells⟩
    · cases h
  · rintro ⟨hcoherent, options, hperm, hspells⟩
    have hne : options ≠ [] := by
      rintro rfl
      have := hperm.length_eq
      simp [DescriptorReadConfig.options] at this
    obtain ⟨htable, hdescriptor⟩ := hspells.requests hne
    have hnodup : (options.map CliOption.kind).Nodup :=
      (hperm.map CliOption.kind).nodup_iff.mpr (nodup_options config)
    obtain ⟨a, hgathers⟩ := (gathers_iff options .none).2 hnodup fun o _ =>
      DescriptorArgs.has_none o.kind
    rw [parseCli, if_neg htable, if_pos hdescriptor]
    exact bind_ok.mpr ⟨a, (readOptions_ok args .none a).mpr ⟨options, hspells, hgathers⟩,
      bind_ok.mpr ⟨config, descriptorConfig_ok.mpr ⟨hcoherent, (hgather hgathers).mp hperm⟩, rfl⟩⟩

end AiraGraphdb.Native
