import AiraGraphdb.Native.Reads
import AiraGraphdb.Schemes.Sha256

/-! # Runnable externals

What the native store takes from elsewhere, so that the model runs: SHA-256, the double nearest to
an integer, and a text of doubles that says their bits. -/

namespace AiraGraphdb.Native.Concrete

open Schemes Schemes.Json

/-! ### Texts of doubles -/

/-- The bits of a double as a decimal integer with an exponent of zero. -/
def printBits (x : Finite64) : Bytes := decimal x.1.bits.toNat ++ [0x65, 0x30]

def parseBits (bs : Bytes) : Option Finite64 :=
  let x : F64 := ⟨UInt64.ofNat (ofDecimal (bs.takeWhile isDigit))⟩
  if h : x.isFinite = true then some ⟨x, h⟩ else none

theorem takeWhile_decimal (n : ℕ) (r : Bytes) :
    (decimal n ++ 0x65 :: r).takeWhile isDigit = decimal n
      ∧ (decimal n ++ 0x65 :: r).dropWhile isDigit = 0x65 :: r := by
  obtain ⟨hd, -, -⟩ := decimal_spec n
  rw [List.takeWhile_append_of_pos hd, List.dropWhile_append_of_pos hd,
    List.takeWhile_cons_of_neg (by decide), List.dropWhile_cons_of_neg (by decide), List.append_nil]
  exact ⟨rfl, rfl⟩

theorem lexInteger_decimal_exponent (n : ℕ) (r : Bytes) :
    lexInteger (decimal n ++ 0x65 :: r) = some (decimal n, 0x65 :: r) := by
  obtain ⟨-, -, d, ds, he, hz⟩ := decimal_spec n
  obtain ⟨ht, hdr⟩ := takeWhile_decimal n r
  have hne : (decimal n).isEmpty = false := by rw [he]; rfl
  have hlead : ¬ ((decimal n).head? = some 48 ∧ decimal n ≠ [48]) := by
    rintro ⟨h48, hne⟩
    rw [he] at h48 hne
    simp only [List.head?_cons, Option.some.injEq] at h48
    obtain ⟨-, rfl⟩ := hz h48
    exact hne (by rw [h48])
  simp [lexInteger, lexDigits, ht, hdr, hne, hlead]

theorem lexNumber_printBits (x : Finite64) (r : Bytes) (hr : NumberEnds r) :
    lexNumber (printBits x ++ r) = some (printBits x, r) := by
  have hcat : printBits x ++ r = decimal x.1.bits.toNat ++ 0x65 :: (0x30 :: r) := by
    simp [printBits]
  obtain ⟨hd, -, d, ds, he, -⟩ := decimal_spec x.1.bits.toNat
  have hsign : lexSign (decimal x.1.bits.toNat ++ 0x65 :: (0x30 :: r))
      = ([], decimal x.1.bits.toNat ++ 0x65 :: (0x30 :: r)) := by
    have hb : d ≠ 0x2D := by
      rintro rfl
      exact absurd (hd 0x2D (by rw [he]; simp)) (by decide)
    rw [he, List.cons_append, lexSign, if_neg hb]
  have hexp : lexExponent (0x65 :: 0x30 :: r) = some ([0x65, 0x30], r) := by
    obtain ⟨ht, hdr⟩ := takeWhile_isDigit (decimal_spec 0).1 hr
    simp only [show decimal 0 = [0x30] from rfl, List.singleton_append] at ht hdr
    simp [lexExponent, lexExponentSign, lexDigits, ht, hdr]
  rw [hcat, lexNumber, hsign, lexInteger_decimal_exponent]
  simp [lexFraction, hexp, printBits]

theorem parseBits_printBits (x : Finite64) : parseBits (printBits x) = some x := by
  have hbits : ofDecimal ((printBits x).takeWhile isDigit) = x.1.bits.toNat := by
    rw [printBits, (takeWhile_decimal _ _).1, ofDecimal_decimal]
  simp only [parseBits, hbits, UInt64.ofNat_toNat]
  rw [dif_pos x.2]

/-- A text for every double. -/
def bitsText : FloatText where
  print := printBits
  parse := parseBits
  lexes := lexNumber_printBits
  marked x := by simp [printBits, isFloatMark]
  reads := parseBits_printBits

/-! ### Doubles of integers -/

/-- The bits of the double nearest to a positive integer, ties to even. -/
def nearestBits (m : ℕ) : ℕ :=
  let e := m.log2
  let scaled := if e ≤ 52 then m <<< (52 - e)
    else
      let q := m >>> (e - 52)
      let r := m % 2 ^ (e - 52)
      let half := 2 ^ (e - 53)
      if half < r ∨ (r = half ∧ q % 2 = 1) then q + 1 else q
  (e + 1022) * 2 ^ 52 + scaled

def ofInt (n : ℤ) : Finite64 :=
  let magnitude := if n = 0 then 0 else nearestBits n.natAbs
  let x : F64 := ⟨UInt64.ofNat (if n < 0 then 2 ^ 63 + magnitude else magnitude)⟩
  if h : x.isFinite = true then ⟨x, h⟩ else ⟨.zero, F64.isFinite_zero⟩

abbrev externals : Externals := ⟨bitsText, ofInt, sha256Digest⟩

/-- Tables in the order of their keys. The similarity is that of vectors without components. -/
abbrev runtime : Runtime where
  keyOrder m := m.keys
  keyOrder_perm _ := .rfl
  cosine _ _ := ⟨.zero, F64.isFinite_zero⟩
  ge _ _ := false
  tokenScore _ _ := 0

/-! ### A first commit -/

attribute [local instance] externals

/-- A host without faults and without files. -/
def host : Host := ⟨some ⟨List.replicate 32 0, by decide⟩, 7, fun _ => none, none⟩

/-- A new store with an open transaction. -/
def begun : Except String Server := do
  let s ← openResolved "a" .empty
  return { s with transaction := .active 0 (hex (List.replicate 32 0)) true }

/-- A mutation that changes nothing. -/
def idleMutation : RpcRequest :=
  ⟨1, "delete_nodes", .obj [("corpusId", .str "c"), ("nodeIds", .arr [])]⟩

/-- A new store whose log holds one record and is prepared. -/
def prepared : Except String (Dir × Server × PreparedCommitEvidence) := do
  let s ← begun
  let (dir, logged) := walAppend host .empty s idleMutation
  let s ← logged
  let (evidence, walIdentity) ← prepareCommit host dir s
  return (dir, { s with transaction := .prepared evidence walIdentity }, evidence)

/-- The request that opens a transaction, as a line. -/
def beginLine : Bytes :=
  (Value.obj [("id", numU64 1), ("method", .str "batch_begin")]).print bitsText

/-- The reads that are not modelled are answered with nothing. -/
def answer (_ : Memory) (_ : RpcRequest) : Result Value := .ok .null

end AiraGraphdb.Native.Concrete
