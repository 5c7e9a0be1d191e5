import AiraGraphdb.Schemes.Ieee
import AiraGraphdb.Schemes.Json.Access
import AiraGraphdb.Native.Store

/-! # The numbers of a bounded operation

The operations compute with an `Arithmetic`, so that the same definitions run on doubles and on
exact rationals. `ieee` is the arithmetic of doubles, whose logarithm is left open; `exact` is the
one of rationals. -/

namespace AiraGraphdb.Native.Bounded

open Schemes Schemes.Json

class Arithmetic (R : Type) where
  ofF64 : F64 → R
  ofNat : ℕ → R
  add : R → R → R
  sub : R → R → R
  mul : R → R → R
  div : R → R → R
  max : R → R → R
  abs : R → R
  sqrt : R → R
  log2 : R → R
  isFinite : R → Bool
  lt : R → R → Bool
  le : R → R → Bool
  /-- Equality of numbers. -/
  eq : R → R → Bool
  totalCmp : R → R → Ordering
  /-- A number in JSON; what is not finite is `null`. -/
  toJson : R → Value

namespace Arithmetic

variable {R : Type} [Arithmetic R]

def zero : R := ofNat 0

def one : R := ofNat 1

def sum (xs : List R) : R := xs.foldl add zero

/-- `clamp(-1.0, 1.0)`. -/
def clampUnit (x : R) : R :=
  if lt x (sub zero one) then sub zero one else if lt one x then one else x

end Arithmetic

/-! ### Doubles -/

/-- The double as JSON. -/
def jsonOfF64 (x : F64) : Value :=
  if h : x.isFinite then .num (.float ⟨x, h⟩) else .null

/-- The square root to the nearest double: the integer root with a bit for what it leaves. -/
def sqrtF64 (x : F64) : F64 :=
  if x.isZero then x
  else if x.isNan || x.negative then F64.nan
  else if x.isInfinite then x
  else
    let n := F64.unitsOf x.magnitude * 2 ^ 1074
    let root := Nat.sqrt n
    F64.ofParts false (F64.roundMagnitude (2 * root + if root * root = n then 0 else 1) 2)

/-- `f64::max`: a NaN gives way to the other number. -/
def maxF64 (x y : F64) : F64 :=
  if x.isNan then y else if y.isNan then x else if F64.lt x y then y else x

@[reducible] def ieee (log2 : F64 → F64) : Arithmetic F64 where
  ofF64 := id
  ofNat n := F64.ofInt n
  add := F64.add
  sub := F64.sub
  mul := F64.mul
  div := F64.div
  max := maxF64
  abs := F64.abs
  sqrt := sqrtF64
  log2 := log2
  isFinite := F64.isFinite
  lt := F64.lt
  le := F64.le
  eq := F64.eq
  totalCmp := F64.totalCmp
  toJson := jsonOfF64

/-! ### Rationals -/

/-- The rational that a finite double stands for. -/
def ratOfF64 (x : F64) : ℚ := x.units / 2 ^ 1074

@[reducible] def exact (sqrt log2 : ℚ → ℚ) (toJson : ℚ → Value) : Arithmetic ℚ where
  ofF64 := ratOfF64
  ofNat n := n
  add := (· + ·)
  sub := (· - ·)
  mul := (· * ·)
  div := (· / ·)
  max := max
  abs x := |x|
  sqrt := sqrt
  log2 := log2
  isFinite _ := true
  lt x y := decide (x < y)
  le x y := decide (x ≤ y)
  eq x y := decide (x = y)
  totalCmp x y := compare x y
  toJson := toJson

example : sqrtF64 (F64.ofInt 2) = ⟨0x3FF6A09E667F3BCD⟩ := by decide +kernel

/-! ### The total order of doubles -/

theorem totalPlace_injective {x y : F64} (h : x.totalPlace = y.totalPlace) : x = y := by
  have hx := x.bits.toNat_lt
  have hy := y.bits.toNat_lt
  simp only [F64.totalPlace, F64.negative, F64.magnitude] at h
  have hbits : x.bits.toNat = y.bits.toNat := by
    by_cases h1 : 2 ^ 63 ≤ x.bits.toNat <;> by_cases h2 : 2 ^ 63 ≤ y.bits.toNat <;>
      simp only [h1, h2, decide_true, decide_false, if_true, if_false, Bool.false_eq_true] at h <;>
      omega
  cases x
  cases y
  exact congrArg F64.mk (UInt64.toNat_inj.mp hbits)

instance : Std.TransCmp F64.totalCmp where
  eq_swap := by
    intro x y
    exact Std.OrientedOrd.eq_swap
  isLE_trans := by
    intro x y z
    exact Std.TransOrd.isLE_trans

instance : Std.LawfulEqCmp F64.totalCmp where
  compare_self := by
    intro x
    exact Std.ReflOrd.compare_self
  eq_of_compare := by
    intro x y h
    exact totalPlace_injective (Std.LawfulEqOrd.eq_of_compare h)

end AiraGraphdb.Native.Bounded
