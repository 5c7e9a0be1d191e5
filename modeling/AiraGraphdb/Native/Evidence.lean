import AiraGraphdb.Native.Store

/-! # Commit evidence

What a prepared transaction and the generation it becomes are known by: the nonce of the
transaction, the two generations, and the length, record count and digest of the log. A
`CommitEvidencePayload` carries its own validity; `CommitEvidencePayload.new` is the only way to
get one from loose fields. -/

namespace AiraGraphdb.Native

open Schemes Schemes.Json

def jsonSafeIntegerMax : ℕ := 9007199254740991

def preparedCommitEvidenceSchema : String := "PreparedCommitEvidence@1"

def commitEvidenceSchema : String := "CommitEvidence@1"

structure CommitEvidencePayload where
  transactionNonce : String
  baseGeneration : UInt64
  generation : UInt64
  walSha256 : String
  walBytes : UInt64
  walRecordCount : UInt64
  nonceHex : isLowerHexText transactionNonce 32 = true
  walHex : isLowerHexText walSha256 32 = true
  generation_le : generation.toNat ≤ jsonSafeIntegerMax
  generation_eq : baseGeneration.toNat + 1 = generation.toNat
  walBytes_pos : 0 < walBytes.toNat
  walBytes_le : walBytes.toNat ≤ jsonSafeIntegerMax
  walRecordCount_pos : 0 < walRecordCount.toNat
  walRecordCount_le : walRecordCount.toNat ≤ jsonSafeIntegerMax
  deriving DecidableEq

/-- A number of the canonical range; zero only where it is allowed. -/
def validateSafeInteger (name : String) (value : UInt64) (allowZero : Bool) : Except String Unit :=
  if jsonSafeIntegerMax < value.toNat ∨ (allowZero = false ∧ value.toNat = 0) then
    .error (name ++ " is outside the canonical safe-integer range")
  else .ok ()

def validateLowerHex (name value : String) (bytes : ℕ) : Except String Unit :=
  if isLowerHexText value bytes then .ok ()
  else .error (name ++ " must be " ++ toString (bytes * 2) ++ " lowercase hex characters")

namespace CommitEvidencePayload

/-- The checks in the order of the source; what is left to prove is what they checked. -/
def new (transactionNonce : String) (baseGeneration generation : UInt64) (walSha256 : String)
    (walBytes walRecordCount : UInt64) : Except String CommitEvidencePayload := do
  validateLowerHex "transactionNonce" transactionNonce 32
  validateLowerHex "walSha256" walSha256 32
  validateSafeInteger "baseGeneration" baseGeneration true
  validateSafeInteger "generation" generation false
  validateSafeInteger "walBytes" walBytes false
  validateSafeInteger "walRecordCount" walRecordCount false
  if h : isLowerHexText transactionNonce 32 = true ∧ isLowerHexText walSha256 32 = true ∧
      generation.toNat ≤ jsonSafeIntegerMax ∧ baseGeneration.toNat + 1 = generation.toNat ∧
      0 < walBytes.toNat ∧ walBytes.toNat ≤ jsonSafeIntegerMax ∧ 0 < walRecordCount.toNat ∧
      walRecordCount.toNat ≤ jsonSafeIntegerMax
  then .ok ⟨transactionNonce, baseGeneration, generation, walSha256, walBytes, walRecordCount,
    h.1, h.2.1, h.2.2.1, h.2.2.2.1, h.2.2.2.2.1, h.2.2.2.2.2.1, h.2.2.2.2.2.2.1, h.2.2.2.2.2.2.2⟩
  else .error "generation must equal baseGeneration + 1"

/-- The bytes the evidence is exchanged as, under the name of its schema. -/
def canonicalBytes (e : CommitEvidencePayload) (schema : String) : Bytes :=
  utf8 "\x7b\"schema\":\"" ++ utf8 schema ++ utf8 "\",\"transactionNonce\":\"" ++
    utf8 e.transactionNonce ++ utf8 "\",\"baseGeneration\":" ++ decimal e.baseGeneration.toNat ++
    utf8 ",\"generation\":" ++ decimal e.generation.toNat ++ utf8 ",\"walSha256\":\"" ++
    utf8 e.walSha256 ++ utf8 "\",\"walBytes\":" ++ decimal e.walBytes.toNat ++
    utf8 ",\"walRecordCount\":" ++ decimal e.walRecordCount.toNat ++ utf8 "\x7d"

end CommitEvidencePayload

/-! ### A payload passes its own checks -/

namespace CommitEvidencePayload

theorem validateLowerHex_ok {name value : String} {bytes : ℕ}
    (h : isLowerHexText value bytes = true) : validateLowerHex name value bytes = .ok () := by
  rw [validateLowerHex, if_pos h]

theorem validateSafeInteger_ok {name : String} {value : UInt64} {allowZero : Bool}
    (hle : value.toNat ≤ jsonSafeIntegerMax) (hz : allowZero = false → 0 < value.toNat) :
    validateSafeInteger name value allowZero = .ok () := by
  rw [validateSafeInteger, if_neg]
  rintro (h | ⟨ha, h⟩)
  · omega
  · have := hz ha
    omega

/-- The fields of a payload pass the checks they were built with. -/
theorem new_self (e : CommitEvidencePayload) :
    new e.transactionNonce e.baseGeneration e.generation e.walSha256 e.walBytes
      e.walRecordCount = .ok e := by
  have hb : e.baseGeneration.toNat ≤ jsonSafeIntegerMax := by
    have := e.generation_le
    have := e.generation_eq
    omega
  have hg : 0 < e.generation.toNat := by
    have := e.generation_eq
    omega
  rw [new, validateLowerHex_ok e.nonceHex, validateLowerHex_ok e.walHex,
    validateSafeInteger_ok hb (by simp), validateSafeInteger_ok e.generation_le (fun _ => hg),
    validateSafeInteger_ok e.walBytes_le (fun _ => e.walBytes_pos),
    validateSafeInteger_ok e.walRecordCount_le (fun _ => e.walRecordCount_pos)]
  have hall := And.intro e.nonceHex <| And.intro e.walHex <| And.intro e.generation_le <|
    And.intro e.generation_eq <| And.intro e.walBytes_pos <| And.intro e.walBytes_le <|
    And.intro e.walRecordCount_pos e.walRecordCount_le
  exact dif_pos hall

/-- Evidence with loose fields passes exactly when they are those of a payload. -/
theorem new_ok {transactionNonce walSha256 : String} {base gen bytes count : UInt64}
    {e : CommitEvidencePayload} (h : new transactionNonce base gen walSha256 bytes count = .ok e) :
    e.transactionNonce = transactionNonce ∧ e.baseGeneration = base ∧ e.generation = gen ∧
      e.walSha256 = walSha256 ∧ e.walBytes = bytes ∧ e.walRecordCount = count := by
  simp only [new, bind, Except.bind] at h
  repeat' split at h
  all_goals first
    | cases h; exact ⟨rfl, rfl, rfl, rfl, rfl, rfl⟩
    | cases h

end CommitEvidencePayload

/-- Lower-case digits need no escapes. -/
theorem escape_lowerHex {s : String} {bytes : ℕ} (h : isLowerHexText s bytes = true) :
    escape (utf8 s) = utf8 s := by
  rw [isLowerHexText, Bool.and_eq_true, List.all_eq_true] at h
  refine (List.flatMap_congr fun b hb => ?_).trans (List.flatMap_singleton' _)
  obtain ⟨v, hv, -, rfl⟩ := exists_hexValue (h.2 b hb)
  have key : ∀ n < 16, escapeByte (hexDigit n) = [hexDigit n] := by decide
  exact key v hv

/-! ### The two kinds of evidence -/

/-- Evidence of a transaction that is prepared. -/
structure PreparedCommitEvidence where
  payload : CommitEvidencePayload
  deriving DecidableEq

/-- Evidence of a transaction that is committed. -/
structure CommitEvidence where
  payload : CommitEvidencePayload
  deriving DecidableEq

def PreparedCommitEvidence.new (transactionNonce : String) (baseGeneration generation : UInt64)
    (walSha256 : String) (walBytes walRecordCount : UInt64) :
    Except String PreparedCommitEvidence :=
  (CommitEvidencePayload.new transactionNonce baseGeneration generation walSha256 walBytes
    walRecordCount).map .mk

def PreparedCommitEvidence.commitEvidence (e : PreparedCommitEvidence) : CommitEvidence :=
  ⟨e.payload⟩

variable [Externals]

namespace StoredCommitEvidence

def fromValidated (e : CommitEvidence) : StoredCommitEvidence where
  schema := commitEvidenceSchema
  transactionNonce := e.payload.transactionNonce
  baseGeneration := e.payload.baseGeneration
  generation := e.payload.generation
  walSha256 := e.payload.walSha256
  walBytes := e.payload.walBytes
  walRecordCount := e.payload.walRecordCount

def validate (e : StoredCommitEvidence) : Except String CommitEvidence := do
  if e.schema ≠ commitEvidenceSchema then throw ("expected schema " ++ commitEvidenceSchema)
  let prepared ← PreparedCommitEvidence.new e.transactionNonce e.baseGeneration e.generation
    e.walSha256 e.walBytes e.walRecordCount
  let evidence := prepared.commitEvidence
  if evidence.payload.canonicalBytes commitEvidenceSchema ≠ e.value.print floats then
    throw "stored commit evidence is not canonical JSON"
  return evidence

end StoredCommitEvidence

/-- The evidence a canonical state carries, checked against its generation. -/
def validateStateCommitEvidence (state : State) : Except String (Option CommitEvidence) :=
  match state.commitEvidence with
  | none => .ok none
  | some stored => do
    if state.generation = 0 then
      throw "legacy generation zero must not contain commit evidence"
    let evidence ← match stored.validate with
      | .ok evidence => .ok evidence
      | .error error => .error ("invalid commit evidence: " ++ error)
    if evidence.payload.generation ≠ state.generation then
      throw "commit evidence generation does not match canonical generation"
    return some evidence

/-- Evidence in the form in which a client hands it back. -/
def preparedEvidenceValue (e : PreparedCommitEvidence) : Value :=
  .obj [("baseGeneration", numU64 e.payload.baseGeneration),
    ("generation", numU64 e.payload.generation),
    ("schema", .str preparedCommitEvidenceSchema),
    ("transactionNonce", .str e.payload.transactionNonce),
    ("walBytes", numU64 e.payload.walBytes),
    ("walRecordCount", numU64 e.payload.walRecordCount),
    ("walSha256", .str e.payload.walSha256)]

/-! ### What a commit stores is what it validated -/

/-- The stored form of validated evidence is its canonical bytes. -/
theorem StoredCommitEvidence.print_fromValidated (e : CommitEvidence) :
    (fromValidated e).value.print floats = e.payload.canonicalBytes commitEvidenceSchema := by
  have k1 : escape (utf8 "schema") = utf8 "schema" := by decide
  have k2 : escape (utf8 "transactionNonce") = utf8 "transactionNonce" := by decide
  have k3 : escape (utf8 "baseGeneration") = utf8 "baseGeneration" := by decide
  have k4 : escape (utf8 "generation") = utf8 "generation" := by decide
  have k5 : escape (utf8 "walSha256") = utf8 "walSha256" := by decide
  have k6 : escape (utf8 "walBytes") = utf8 "walBytes" := by decide
  have k7 : escape (utf8 "walRecordCount") = utf8 "walRecordCount" := by decide
  have k8 : escape (utf8 commitEvidenceSchema) = utf8 commitEvidenceSchema := by decide
  have l1 : utf8 "\x7b\"schema\":\"" = [0x7B, 0x22] ++ utf8 "schema" ++ [0x22, 0x3A, 0x22] := by
    decide
  have l2 : utf8 "\",\"transactionNonce\":\"" =
      [0x22, 0x2C, 0x22] ++ utf8 "transactionNonce" ++ [0x22, 0x3A, 0x22] := by decide
  have l3 : utf8 "\",\"baseGeneration\":" =
      [0x22, 0x2C, 0x22] ++ utf8 "baseGeneration" ++ [0x22, 0x3A] := by decide
  have l4 : utf8 ",\"generation\":" = [0x2C, 0x22] ++ utf8 "generation" ++ [0x22, 0x3A] := by
    decide
  have l5 : utf8 ",\"walSha256\":\"" = [0x2C, 0x22] ++ utf8 "walSha256" ++ [0x22, 0x3A, 0x22] := by
    decide
  have l6 : utf8 "\",\"walBytes\":" = [0x22, 0x2C, 0x22] ++ utf8 "walBytes" ++ [0x22, 0x3A] := by
    decide
  have l7 : utf8 ",\"walRecordCount\":" =
      [0x2C, 0x22] ++ utf8 "walRecordCount" ++ [0x22, 0x3A] := by decide
  have l8 : utf8 "\x7d" = [0x7D] := by decide
  simp only [Value.print, StoredCommitEvidence.value, fromValidated, Value.raw, rawMembers,
    k1, k2, k3, k4, k5, k6, k7, k8, escape_lowerHex e.payload.nonceHex,
    escape_lowerHex e.payload.walHex, Raw.print, printMembers, Number.lexeme,
    CommitEvidencePayload.canonicalBytes, l1, l2, l3, l4, l5, l6, l7, l8]
  simp

/-- What a commit stores passes the check of the next start. -/
theorem StoredCommitEvidence.validate_fromValidated (e : PreparedCommitEvidence) :
    (fromValidated e.commitEvidence).validate = .ok e.commitEvidence := by
  have hnew : PreparedCommitEvidence.new e.payload.transactionNonce e.payload.baseGeneration
      e.payload.generation e.payload.walSha256 e.payload.walBytes e.payload.walRecordCount =
      .ok e := by
    rw [PreparedCommitEvidence.new, CommitEvidencePayload.new_self]
    rfl
  have hprint := print_fromValidated e.commitEvidence
  simp only [validate, bind, Except.bind, pure, Except.pure]
  rw [if_neg (by simp [fromValidated])]
  simp only [fromValidated, PreparedCommitEvidence.commitEvidence] at hprint ⊢
  simp only [hnew, hprint, ne_eq, not_true_eq_false, if_false]

end AiraGraphdb.Native
