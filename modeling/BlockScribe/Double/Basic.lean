/-!
# Double-precision numbers

Finite numbers of 64 bits: a sign, eleven bits of exponent and 52 of fraction.
All of them are multiples of `2 ^ -1074`, so each magnitude is a natural number
of such units, and arithmetic is exact arithmetic followed by one rounding to
the nearest number, a half going to the even neighbour.
-/

namespace BlockScribe

structure Double where
  bits : UInt64
  deriving DecidableEq, Repr

namespace Double

def signBit : Nat := 0x8000000000000000

/-- The first bit of a significand, which is not among the 52 of the fraction. -/
def leadingBit : Nat := 0x10000000000000

def isNegative (x : Double) : Bool :=
  signBit ≤ x.bits.toNat

def exponentField (x : Double) : Nat :=
  x.bits.toNat / leadingBit % 0x800

def fractionField (x : Double) : Nat :=
  x.bits.toNat % leadingBit

/-- The binary exponent over `2 ^ -1074`; numbers of the two lowest exponent fields share it. -/
def scale (x : Double) : Nat :=
  x.exponentField - 1

def significand (x : Double) : Nat :=
  if x.exponentField = 0 then x.fractionField else leadingBit + x.fractionField

def unitsPerOne : Nat := 1 <<< 1074

def units (x : Double) : Nat :=
  x.significand <<< x.scale

def isZero (x : Double) : Bool :=
  x.units = 0

/-- The quotient of two natural numbers to the nearest integer, a half to the even one. -/
def roundDiv (num den : Nat) : Nat :=
  let quotient := num / den
  let twice := 2 * (num % den)
  if twice < den then quotient
  else if den < twice then quotient + 1
  else quotient + quotient % 2

def magnitudeBits? (num den : Nat) : Option Nat :=
  let scaled := num * unitsPerOne
  let scale := (scaled / den).log2 - 52
  let bits := scale * leadingBit + roundDiv scaled (den <<< scale)
  if bits < 0x7FF * leadingBit then some bits else none

def ofMagnitude (negative : Bool) (bits : Nat) : Double :=
  ⟨UInt64.ofNat (if negative then signBit + bits else bits)⟩

def ofRatio? (negative : Bool) (num den : Nat) : Option Double :=
  ofMagnitude negative <$> magnitudeBits? num den

def zero : Double := ⟨0⟩

def ofNat (value : Nat) : Double :=
  (ofRatio? false value 1).getD zero

def ofInt (value : Int) : Double :=
  (ofRatio? (value < 0) value.natAbs 1).getD zero

def withSign (negative : Bool) (x : Double) : Double :=
  ofMagnitude negative (x.bits.toNat % signBit)

def mul? (x y : Double) : Option Double :=
  ofRatio? false (x.units * y.units) (unitsPerOne * unitsPerOne)

def div (x y : Double) : Double :=
  (ofRatio? false x.units y.units).getD zero

def powerOfTen (exponent : Nat) : Double :=
  ofNat (Nat.pow 10 exponent)

end Double

end BlockScribe
