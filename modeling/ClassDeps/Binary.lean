import ClassDeps.Power

/-!
# Binary floating-point numbers

The two interchange formats of binary floating point, as bit patterns over natural numbers. Values are
exact: a finite number is `m * 2 ^ q`, and rounding a quotient of two natural numbers is integer
arithmetic.

## Main definitions

* `Binary.Format` — widths of significand and exponent; `binary32` and `binary64`
* `Binary.Format.decode` — what a bit pattern stands for
* `Binary.Format.round` — the pattern nearest to a quotient, a tie going to the even pattern
* `Binary.Format.ofDecimal` — the pattern nearest to `digits * 10 ^ exponent`
-/

namespace ClassDeps.Binary

/-- Field widths of a floating-point format, without the sign bit. -/
structure Format where
  /-- Stored bits of the significand. -/
  fractionBits : Nat
  exponentBits : Nat

/-- Single precision. -/
def binary32 : Format := ⟨23, 8⟩

/-- Double precision. -/
def binary64 : Format := ⟨52, 11⟩

/-- What a bit pattern stands for; `finite` is `significand * 2 ^ exponent`. -/
inductive Value where
  | finite (negative : Bool) (significand : Nat) (exponent : Int)
  | infinite (negative : Bool)
  | nan
  deriving DecidableEq

/-- `numerator / denominator` to the nearest integer, a tie going to the even one. -/
def roundHalfEven (numerator denominator : Nat) : Nat :=
  let quotient := numerator / denominator
  let twice := 2 * (numerator % denominator)
  if twice < denominator then quotient
  else if denominator < twice then quotient + 1
  else quotient + quotient % 2

namespace Format

variable (f : Format)

/-- The bits that stand for a leading one of the significand. -/
def hiddenBit : Nat :=
  twoTo f.fractionBits

/-- The exponent of the smallest positive number. -/
def leastExponent : Int :=
  2 - (twoTo (f.exponentBits - 1) : Int) - f.fractionBits

/-- The magnitude bits of infinity. -/
def infinity : Nat :=
  (twoTo f.exponentBits - 1) * f.hiddenBit

def signBit : Nat :=
  twoTo (f.exponentBits + f.fractionBits)

/-- Puts the sign before magnitude bits. -/
def withSign (negative : Bool) (magnitude : Nat) : Nat :=
  if negative then f.signBit + magnitude else magnitude

/-- What the pattern `bits` stands for. -/
def decode (bits : Nat) : Value :=
  let negative := bits / f.signBit % 2 == 1
  let biased := bits / f.hiddenBit % twoTo f.exponentBits
  let fraction := bits % f.hiddenBit
  if biased = twoTo f.exponentBits - 1 then
    if fraction = 0 then .infinite negative else .nan
  else if biased = 0 then .finite negative fraction f.leastExponent
  else .finite negative (f.hiddenBit + fraction) (f.leastExponent + biased - 1)

/-- The magnitude bits nearest to `numerator / denominator`, or `none` where that is infinity. -/
def round (numerator denominator : Nat) : Option Nat :=
  if numerator = 0 then some 0
  else
    -- The quotient lies between `2 ^ (guess - 1)` and `2 ^ (guess + 1)`.
    let guess : Int := (numerator.log2 : Int) - denominator.log2
    let top : Int :=
      if denominator * twoTo guess.toNat ≤ numerator * twoTo (-guess).toNat then guess else guess - 1
    let exponent := max f.leastExponent (top - f.fractionBits)
    let significand :=
      roundHalfEven (numerator * twoTo (-exponent).toNat) (denominator * twoTo exponent.toNat)
    -- The leading one of the significand, and a carry of its rounding, go into the bits of the exponent.
    let bits := (exponent - f.leastExponent).toNat * f.hiddenBit + significand
    if bits < f.infinity then some bits else none

/-- Every double lies strictly between `10 ^ (-decimalRange)` and `10 ^ decimalRange`, zero apart. -/
def decimalRange : Nat := 400

/-- The magnitude bits nearest to `digits * 10 ^ exponent`, or `none` where that is infinity. -/
def ofDecimal (digits : Nat) (exponent : Int) : Option Nat :=
  let size : Int := exponent + (digits.log2 * 3 / 10 : Nat)
  if digits = 0 then some 0
  -- Powers of ten are computed within a range only, since exponents of any size can be written.
  else if size > decimalRange then none
  else if size < -(2 * decimalRange : Int) - (digits.log2 : Int) then some 0
  else f.round (digits * tenTo exponent.toNat) (tenTo (-exponent).toNat)

end Format

/-- A double as single-precision bits; what is too large becomes infinity. -/
def narrow (bits : Nat) : Nat :=
  match binary64.decode bits with
  | .nan => binary32.infinity + binary32.hiddenBit / 2
  | .infinite negative => binary32.withSign negative binary32.infinity
  | .finite negative significand exponent =>
    binary32.withSign negative <|
      (binary32.round (significand * twoTo exponent.toNat) (twoTo (-exponent).toNat)).getD
        binary32.infinity

end ClassDeps.Binary
