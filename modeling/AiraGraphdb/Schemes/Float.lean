import Mathlib

/-! # Doubles as bits

A double is carried by its bits: it is stored and compared, not computed with. -/

namespace Schemes

/-- An IEEE-754 double, as its bits. -/
structure F64 where
  bits : UInt64
  deriving DecidableEq, Repr

/-- Neither an infinity nor a NaN: the exponent is not all ones. -/
def F64.isFinite (x : F64) : Bool := x.bits.toNat / 2 ^ 52 % 2 ^ 11 != 2047

/-- A double that is a number. -/
abbrev Finite64 := { x : F64 // x.isFinite = true }

def F64.zero : F64 := ⟨0⟩

theorem F64.isFinite_zero : F64.zero.isFinite = true := by decide

def Finite64.negZero : Finite64 := ⟨⟨9223372036854775808⟩, by decide⟩

end Schemes
