import ClassDeps.Decimal.Numeral

/-!
# Decimal layout

How a decimal is written down: with a point among its digits while its size is moderate, with a power of
ten otherwise; and how a quotient is written with a fixed number of places.

## Main definitions

* `Decimal.Layout` — the sizes that are written with a point only
* `Decimal.numeral` — the written form of a decimal
* `Decimal.fixed` — a quotient with a fixed number of places, a tie going to the even digit
-/

namespace ClassDeps.Decimal

/-- Decimals `0.d₁d₂… * 10 ^ p` with `least ≤ p ≤ greatest` are written with a point only. -/
structure Layout where
  least : Int
  greatest : Int

/-- Constants in listings have a power of ten from `1e16` on and below `1e-4`. -/
def Layout.listing : Layout := ⟨-3, 16⟩

/-- Double-precision numbers in documents have a power of ten from `1e16` on and below `1e-5`. -/
def Layout.document64 : Layout := ⟨-4, 16⟩

/-- Single-precision numbers in documents have a power of ten from `1e13` on and below `1e-6`. -/
def Layout.document32 : Layout := ⟨-5, 13⟩

/-- Digits with a point, at least one place after it. -/
def pointed (x : Decimal) (digits : Digits) (point : Int) : Numeral :=
  if point ≤ 0 then ⟨x.negative, 0, List.replicate (-point).toNat Digits.zero ++ digits, none⟩
  else if 0 ≤ x.exponent then ⟨x.negative, x.digits * tenTo x.exponent.toNat, [Digits.zero], none⟩
  else ⟨x.negative, Digits.toNat (digits.take point.toNat), digits.drop point.toNat, none⟩

/-- One digit, the others after a point, and the power of ten. -/
def scientific (x : Decimal) (digits : Digits) (point : Int) : Numeral :=
  ⟨x.negative, Digits.toNat (digits.take 1), digits.drop 1, some (point - 1)⟩

/-- The written form of a decimal whose last digit is not zero. -/
def numeral (layout : Layout) (x : Decimal) : Numeral :=
  if x.digits = 0 then ⟨x.negative, 0, [Digits.zero], none⟩
  else
    let digits := Digits.ofNat x.digits
    let point := x.exponent + digits.length
    if layout.least ≤ point ∧ point ≤ layout.greatest then pointed x digits point
    else scientific x digits point

/-- `numerator / denominator` with `places` digits after the point, a tie going to the even digit. -/
def fixed (places numerator denominator : Nat) : Numeral :=
  let scaled := Binary.roundHalfEven (numerator * tenTo places) denominator
  let fraction := Digits.ofNat (scaled % tenTo places)
  ⟨false, scaled / tenTo places,
    List.replicate (places - fraction.length) Digits.zero ++ fraction, none⟩

end ClassDeps.Decimal
