import AiraGraphdb.Schemes.Float
import AiraGraphdb.Schemes.Text

/-! # Arithmetic of doubles

A finite double is a whole number of units of 2⁻¹⁰⁷⁴. An operation computes its exact result and
rounds it to the nearest double, ties to the even one. The bits without the sign order the
magnitudes, with infinity above every number and the NaNs above infinity. -/

namespace Schemes.F64

/-- The sign bit. -/
def negative (x : F64) : Bool := 2 ^ 63 ≤ x.bits.toNat

/-- The bits of exponent and fraction. -/
def magnitude (x : F64) : ℕ := x.bits.toNat % 2 ^ 63

def infinite : ℕ := 2047 * 2 ^ 52

def ofParts (neg : Bool) (magnitude : ℕ) : F64 :=
  ⟨UInt64.ofNat ((if neg then 2 ^ 63 else 0) + magnitude)⟩

def nan : F64 := ofParts false (infinite + 2 ^ 51)

def infinity : F64 := ofParts false infinite

def negInfinity : F64 := ofParts true infinite

def negZero : F64 := ofParts true 0

def isNan (x : F64) : Bool := infinite < x.magnitude

def isInfinite (x : F64) : Bool := x.magnitude == infinite

def isZero (x : F64) : Bool := x.magnitude == 0

/-- The units of a finite magnitude: subnormal numbers have exponent 0 and no hidden bit. -/
def unitsOf (magnitude : ℕ) : ℕ :=
  if magnitude / 2 ^ 52 = 0 then magnitude
  else (2 ^ 52 + magnitude % 2 ^ 52) * 2 ^ (magnitude / 2 ^ 52 - 1)

/-- The value of a finite double, in units. -/
def units (x : F64) : ℤ := if x.negative then -(unitsOf x.magnitude) else unitsOf x.magnitude

/-! ### Rounding -/

/-- `num / den` to the nearest whole number, ties to the even one. -/
def roundHalfEven (num den : ℕ) : ℕ :=
  if 2 * (num % den) < den then num / den
  else if den < 2 * (num % den) then num / den + 1
  else num / den + num / den % 2

/-- The magnitude nearest to `num / den` units. -/
def roundMagnitude (num den : ℕ) : ℕ :=
  let shift := (num / den).log2 - 52
  min (shift * 2 ^ 52 + roundHalfEven num (den * 2 ^ shift)) infinite

/-- The double nearest to a whole number of units; zero has no sign of its own. -/
def ofUnits (n : ℤ) : F64 := ofParts (n < 0) (roundMagnitude n.natAbs 1)

/-- The double nearest to an integer. -/
def ofInt (n : ℤ) : F64 := ofUnits (n * 2 ^ 1074)

/-- The double nearest to a decimal number. -/
def ofDecimal (neg : Bool) (digits : ℕ) (exponent : ℤ) : F64 :=
  ofParts neg (roundMagnitude (digits * 10 ^ exponent.toNat * 2 ^ 1074) (10 ^ (-exponent).toNat))

/-! ### Operations -/

def neg (x : F64) : F64 := ofParts (!x.negative) x.magnitude

def abs (x : F64) : F64 := ofParts false x.magnitude

def add (x y : F64) : F64 :=
  if x.isNan || y.isNan then nan
  else if x.isInfinite then if y.isInfinite && x.negative != y.negative then nan else x
  else if y.isInfinite then y
  else if x.units + y.units = 0 then ofParts (x.negative && y.negative) 0
  else ofUnits (x.units + y.units)

def sub (x y : F64) : F64 := add x y.neg

def mul (x y : F64) : F64 :=
  let neg := x.negative != y.negative
  if x.isNan || y.isNan then nan
  else if x.isInfinite || y.isInfinite then
    if x.isZero || y.isZero then nan else ofParts neg infinite
  else ofParts neg (roundMagnitude (unitsOf x.magnitude * unitsOf y.magnitude) (2 ^ 1074))

def div (x y : F64) : F64 :=
  let neg := x.negative != y.negative
  if x.isNan || y.isNan then nan
  else if x.isInfinite then if y.isInfinite then nan else ofParts neg infinite
  else if y.isInfinite then ofParts neg 0
  else if y.isZero then if x.isZero then nan else ofParts neg infinite
  else ofParts neg (roundMagnitude (unitsOf x.magnitude * 2 ^ 1074) (unitsOf y.magnitude))

/-! ### Orders -/

/-- The place of a number; both zeros have the same. -/
def place (x : F64) : ℤ := if x.negative then -x.magnitude else x.magnitude

/-- The place of a double in the total order: the negative zero just before the positive one. -/
def totalPlace (x : F64) : ℤ := if x.negative then -x.magnitude - 1 else x.magnitude

def lt (x y : F64) : Bool := !x.isNan && !y.isNan && decide (x.place < y.place)

def le (x y : F64) : Bool := !x.isNan && !y.isNan && decide (x.place ≤ y.place)

/-- Equality of numbers: a NaN equals nothing, the zeros are equal. -/
def eq (x y : F64) : Bool := !x.isNan && !y.isNan && decide (x.place = y.place)

def totalCmp (x y : F64) : Ordering := compare x.totalPlace y.totalPlace

/-! ### Text -/

/-- The digits of a mantissa: before the point, and after it if there is one. -/
def mantissa? (s : Text) : Option (ℕ × ℕ) :=
  let parts := match Text.splitOnce ['.'] s with
    | some (whole, fraction) => (whole, fraction)
    | none => (s, [])
  (Text.digits? (parts.1 ++ parts.2)).map fun n => (n, parts.2.length)

def exponent? (s : Text) : Option ℤ :=
  (Text.digits? (Text.sign s).2).map fun n => if (Text.sign s).1 then -(n : ℤ) else n

/-- A decimal number with an optional fraction and an optional exponent, or a special value. -/
def ofText (s : Text) : Option F64 :=
  let (neg, r) := Text.sign s
  if Text.eqIgnoreAsciiCase r "inf".toList || Text.eqIgnoreAsciiCase r "infinity".toList then
    some (ofParts neg infinite)
  else if Text.eqIgnoreAsciiCase r "nan".toList then some (ofParts neg nan.magnitude)
  else match r.findIdx? fun c => c = 'e' || c = 'E' with
    | none => (mantissa? r).map fun m => ofDecimal neg m.1 (-m.2)
    | some i => do
      let m ← mantissa? (r.take i)
      let e ← exponent? (r.drop (i + 1))
      return ofDecimal neg m.1 (e - m.2)

example : ofText "0.1".toList = some ⟨0x3FB999999999999A⟩ := by decide +kernel
example : add ⟨0x3FB999999999999A⟩ ⟨0x3FC999999999999A⟩ = ⟨0x3FD3333333333334⟩ := by decide +kernel

end Schemes.F64
