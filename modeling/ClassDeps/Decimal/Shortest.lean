import ClassDeps.Binary

/-!
# Shortest decimals

The decimal with the fewest digits that rounds to a given binary number, and among those the nearest
to it. The reals that round to `m * 2 ^ q` form an interval, whose ends belong to it exactly when `m` is
even; the search goes from coarse to fine powers of ten and takes the first that has a multiple in the
interval.

## Main definitions

* `Decimal` — a sign, digits and a power of ten
* `Decimal.Tie` — which of two equally near decimals is taken
* `Decimal.shortest` — the shortest decimal of a finite binary number
-/

namespace ClassDeps

/-- The number `± digits * 10 ^ exponent`. -/
structure Decimal where
  negative : Bool
  digits : Nat
  exponent : Int
  deriving DecidableEq

namespace Decimal

/-- Which of two equally near neighbours is taken. -/
inductive Tie where
  | up
  | even
  deriving DecidableEq

/-- Reals between `low / scale` and `high / scale` that round to `value / scale`. -/
structure Interval where
  low : Nat
  value : Nat
  high : Nat
  scale : Nat
  /-- Whether the two ends round to the value, too. -/
  closed : Bool

namespace Interval

/-- Whether `d * 10 ^ k` lies in the interval. -/
def holds (i : Interval) (d : Nat) (k : Int) : Bool :=
  let point := d * tenTo k.toNat * i.scale
  let shift := tenTo (-k).toNat
  if i.closed then i.low * shift ≤ point && point ≤ i.high * shift
  else i.low * shift < point && point < i.high * shift

/-- The multiple of `10 ^ k` in the interval that is nearest to its value, if there is one. Only the two
neighbours of the value have to be tried: if any multiple lies in the interval, one of them does. -/
def multiple? (i : Interval) (tie : Tie) (k : Int) : Option Nat :=
  let numerator := i.value * tenTo (-k).toNat
  let denominator := i.scale * tenTo k.toNat
  let below := numerator / denominator
  let twice := 2 * (numerator % denominator)
  let nearer :=
    if twice < denominator then below
    else if denominator < twice then below + 1
    else match tie with
      | .up => below + 1
      | .even => below + below % 2
  let farther := if nearer = below then below + 1 else below
  if i.holds nearer k then some nearer
  else if i.holds farther k then some farther
  else none

/-- The first hit on the grids `10 ^ k`, `10 ^ (k - 1)`, … -/
def search (i : Interval) (tie : Tie) : (steps : Nat) → (k : Int) → Nat × Int
  | 0, k => (i.value * tenTo (-k).toNat / (i.scale * tenTo k.toNat), k)
  | steps + 1, k =>
    match i.multiple? tie k with
    | some d => (d, k)
    | none => i.search tie steps (k - 1)

/-- The number of decimal digits of `n`. -/
def digitCount (n : Nat) : Nat :=
  (Nat.toDigits 10 n).length

/-- An exponent with `value / scale ≤ 10 ^ k` and no smaller than needed. -/
def topExponent (i : Interval) : Int :=
  if i.scale ≤ i.value then digitCount (i.value / i.scale)
  else 1 - (digitCount (i.scale / i.value) : Int)

end Interval

/-- The reals that round to `significand * 2 ^ exponent`. -/
def interval (f : Binary.Format) (significand : Nat) (exponent : Int) : Interval :=
  -- Below a power of two the gap is half as wide, except next to the smallest numbers.
  let below := if significand = f.hiddenBit ∧ f.leastExponent < exponent then 1 else 2
  let unit := twoTo (exponent - 2).toNat
  { low := (4 * significand - below) * unit
    value := 4 * significand * unit
    high := (4 * significand + 2) * unit
    scale := twoTo (2 - exponent).toNat
    closed := significand % 2 = 0 }

/-- Seventeen digits tell all doubles apart, so that many grids below the first suffice. -/
def gridCount : Nat := 20

/-- The shortest decimal that rounds to `significand * 2 ^ exponent`, the nearest of those. -/
def shortest (f : Binary.Format) (tie : Tie) (negative : Bool) (significand : Nat) (exponent : Int) :
    Decimal :=
  if significand = 0 then ⟨negative, 0, 0⟩
  else
    let i := interval f significand exponent
    let (digits, k) := i.search tie gridCount i.topExponent
    ⟨negative, digits, k⟩

end Decimal

end ClassDeps
