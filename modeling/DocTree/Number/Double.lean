import DocTree.Number.Decimal

/-!
# Binary floating point

A double is its 64 bits. Decimals are rounded to the nearest member of a binary format by exact
arithmetic on natural numbers, ties to the member with the even significand. The smaller format
`single` serves to tell which decimals it cannot hold.
-/

namespace DocTree

/-! ## Binary formats -/

/-- A binary format. Its finite members are `± m * 2 ^ e` with `m < 2 ^ precision`, `e` at least
`minExponent`, and `m` at least half of that bound unless `e` is the least exponent. -/
structure BinaryFormat where
  /-- The number of significant bits. -/
  precision : Nat
  /-- The least exponent. -/
  minExponent : Int
  /-- The number of exponents. -/
  exponents : Nat

namespace BinaryFormat

/-- The format with 64 bits. -/
def double : BinaryFormat := ⟨53, -1074, 2047⟩

/-- The format with 32 bits. -/
def single : BinaryFormat := ⟨24, -149, 255⟩

/-- The quotient rounded to the nearest natural number, a half to the even neighbour. -/
def roundDiv (n d : Nat) : Nat :=
  let q := n / d
  let r := n % d
  if d < 2 * r || (2 * r == d && q % 2 == 1) then q + 1 else q

/-- The quotient `n / (d * 2 ^ e)` as a pair of natural numbers. -/
def scaled (n d : Nat) (e : Int) : Nat × Nat :=
  if 0 ≤ e then (n, d * Nat.pow 2 e.toNat) else (n * Nat.pow 2 (-e).toNat, d)

/-- The exponent at which `n / d` is rounded: the one that leaves `precision` bits, or the least. -/
def roundingExponent (f : BinaryFormat) (n d : Nat) : Int :=
  let e : Int := (n.log2 : Int) - d.log2 - f.precision
  let (a, b) := scaled n d e
  max f.minExponent (if a / b < Nat.pow 2 f.precision then e else e + 1)

/-- The member nearest to the quotient `n / d`, as the bits without the sign, or `none` when the
quotient is too large for the format. -/
def nearest? (f : BinaryFormat) (n d : Nat) : Option Nat :=
  if n = 0 then some 0
  else
    let e := f.roundingExponent n d
    let (a, b) := scaled n d e
    let bits := roundDiv a b + (e - f.minExponent).toNat * Nat.pow 2 (f.precision - 1)
    if bits < f.exponents * Nat.pow 2 (f.precision - 1) then some bits else none

end BinaryFormat

/-! ## Doubles -/

/-- A floating point number of 64 bits. -/
structure Double where
  /-- Sign, eleven bits of exponent and 52 bits of fraction. -/
  bits : UInt64
  deriving DecidableEq, Repr

namespace Double

/-- Is the sign bit set? -/
def isNegative (x : Double) : Bool := Nat.pow 2 63 ≤ x.bits.toNat

/-- The exponent field. -/
def exponentField (x : Double) : Nat := x.bits.toNat / Nat.pow 2 52 % 2048

/-- The fraction field. -/
def fractionField (x : Double) : Nat := x.bits.toNat % Nat.pow 2 52

/-- Is `x` neither an infinity nor a NaN? -/
def isFinite (x : Double) : Bool := x.exponentField != 2047

/-- Is `x` a NaN? -/
def isNaN (x : Double) : Bool := x.exponentField == 2047 && x.fractionField != 0

/-- The significand: a finite `x` is `± significand * 2 ^ exponent`. -/
def significand (x : Double) : Nat :=
  if x.exponentField = 0 then x.fractionField else x.fractionField + Nat.pow 2 52

/-- The exponent that belongs to the significand. -/
def exponent (x : Double) : Int := (max x.exponentField 1 : Nat) - 1075

/-- The double nearest to a decimal, or `none` when the decimal is too large. -/
def ofDecimal? (d : Decimal) : Option Double :=
  let (n, m) := d.ratio
  (BinaryFormat.double.nearest? n m).map fun b =>
    ⟨UInt64.ofNat (if d.negative then b + Nat.pow 2 63 else b)⟩

/-- `x` with the other sign. -/
def neg (x : Double) : Double :=
  ⟨UInt64.ofNat
    (if x.isNegative then x.bits.toNat - Nat.pow 2 63 else x.bits.toNat + Nat.pow 2 63)⟩

/-- The integer that a finite `x` equals, if it equals one. -/
def integer? (x : Double) : Option Int :=
  let size : Option Nat :=
    if 0 ≤ x.exponent then some (x.significand * Nat.pow 2 x.exponent.toNat)
    else
      let d := Nat.pow 2 (-x.exponent).toNat
      if x.significand % d = 0 then some (x.significand / d) else none
  size.map fun n => if x.isNegative then -(n : Int) else n

end Double

end DocTree
