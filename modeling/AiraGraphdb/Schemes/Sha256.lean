import AiraGraphdb.Schemes.Hex

/-! # SHA-256

The digest of a byte string, with words as numbers below `2 ^ 32`. -/

namespace Schemes.Sha256

def word (n : ℕ) : ℕ := n % 2 ^ 32

def rotr (x k : ℕ) : ℕ := word (x >>> k ||| x <<< (32 - k))

/-- The constants of the rounds. -/
def constants : List ℕ :=
  [0x428a2f98, 0x71374491, 0xb5c0fbcf, 0xe9b5dba5, 0x3956c25b, 0x59f111f1, 0x923f82a4, 0xab1c5ed5,
   0xd807aa98, 0x12835b01, 0x243185be, 0x550c7dc3, 0x72be5d74, 0x80deb1fe, 0x9bdc06a7, 0xc19bf174,
   0xe49b69c1, 0xefbe4786, 0x0fc19dc6, 0x240ca1cc, 0x2de92c6f, 0x4a7484aa, 0x5cb0a9dc, 0x76f988da,
   0x983e5152, 0xa831c66d, 0xb00327c8, 0xbf597fc7, 0xc6e00bf3, 0xd5a79147, 0x06ca6351, 0x14292967,
   0x27b70a85, 0x2e1b2138, 0x4d2c6dfc, 0x53380d13, 0x650a7354, 0x766a0abb, 0x81c2c92e, 0x92722c85,
   0xa2bfe8a1, 0xa81a664b, 0xc24b8b70, 0xc76c51a3, 0xd192e819, 0xd6990624, 0xf40e3585, 0x106aa070,
   0x19a4c116, 0x1e376c08, 0x2748774c, 0x34b0bcb5, 0x391c0cb3, 0x4ed8aa4a, 0x5b9cca4f, 0x682e6ff3,
   0x748f82ee, 0x78a5636f, 0x84c87814, 0x8cc70208, 0x90befffa, 0xa4506ceb, 0xbef9a3f7, 0xc67178f2]

/-- The eight words of the state. -/
structure State where
  (a b c d e f g h : ℕ)

def initial : State :=
  ⟨0x6a09e667, 0xbb67ae85, 0x3c6ef372, 0xa54ff53a, 0x510e527f, 0x9b05688c, 0x1f83d9ab, 0x5be0cd19⟩

/-- The next word of the schedule from the last sixteen, the latest first. -/
def scheduleWord : List ℕ → ℕ
  | [_, w2, _, _, _, _, w7, _, _, _, _, _, _, _, w15, w16] =>
    word ((rotr w2 17 ^^^ rotr w2 19 ^^^ (w2 >>> 10)) + w7
      + (rotr w15 7 ^^^ rotr w15 18 ^^^ (w15 >>> 3)) + w16)
  | _ => 0

def round (s : State) (k w : ℕ) : State :=
  let s1 := rotr s.e 6 ^^^ rotr s.e 11 ^^^ rotr s.e 25
  let ch := (s.e &&& s.f) ^^^ ((0xffffffff ^^^ s.e) &&& s.g)
  let t1 := s.h + s1 + ch + k + w
  let s0 := rotr s.a 2 ^^^ rotr s.a 13 ^^^ rotr s.a 22
  let maj := (s.a &&& s.b) ^^^ (s.a &&& s.c) ^^^ (s.b &&& s.c)
  ⟨word (t1 + s0 + maj), s.a, s.b, s.c, word (s.d + t1), s.e, s.f, s.g⟩

/-- The rounds, with the words that are still to be used. -/
def rounds : List ℕ → List ℕ → State → State
  | k :: ks, w :: ws, s =>
    rounds ks (ws ++ [scheduleWord (ws.reverse ++ [w])]) (round s k w)
  | _, _, s => s

def State.add (s t : State) : State :=
  ⟨word (s.a + t.a), word (s.b + t.b), word (s.c + t.c), word (s.d + t.d), word (s.e + t.e),
    word (s.f + t.f), word (s.g + t.g), word (s.h + t.h)⟩

/-- A block as sixteen words, the high byte first. -/
def blockWords : Bytes → List ℕ
  | a :: b :: c :: d :: rest =>
    (((a.toNat * 256 + b.toNat) * 256 + c.toNat) * 256 + d.toNat) :: blockWords rest
  | _ => []

/-- The message with a one bit, zeros to the end of a block and its length in bits. -/
def padded (bs : Bytes) : Bytes :=
  bs ++ 0x80 :: (List.replicate ((119 - bs.length % 64) % 64) 0 ++ (leBytes 8 (8 * bs.length)).reverse)

def blocks : ℕ → Bytes → State → State
  | 0, _, s => s
  | n + 1, bs, s => blocks n (bs.drop 64) (s.add (rounds constants (blockWords (bs.take 64)) s))

def wordBytes (n : ℕ) : Bytes := (leBytes 4 n).reverse

end Schemes.Sha256

namespace Schemes

open Sha256 in
/-- The digest of a byte string. -/
def sha256Digest (bs : Bytes) : Digest :=
  let s := blocks ((padded bs).length / 64) (padded bs) initial
  ⟨wordBytes s.a ++ wordBytes s.b ++ wordBytes s.c ++ wordBytes s.d ++ wordBytes s.e
    ++ wordBytes s.f ++ wordBytes s.g ++ wordBytes s.h, by simp [wordBytes]⟩

end Schemes
