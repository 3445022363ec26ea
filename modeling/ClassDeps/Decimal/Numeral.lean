import ClassDeps.Decimal.Digits
import ClassDeps.Decimal.Shortest

/-!
# Decimal numerals

The written form of a decimal number: a sign, a whole part, digits after a point and a power of ten.
Numerals are what documents contain; several numerals can have the same value.

## Main definitions

* `Numeral` — the parts of a written number
* `Numeral.ofInt`, `Numeral.integer?` — integers, which have neither point nor power of ten
* `Numeral.value` — the decimal that a numeral stands for
* `Numeral.toBytes`, `Numeral.span?` — writing a numeral and reading one off the front of a byte string
-/

namespace ClassDeps

open Decimal

/-- A written number such as `-12.50e-3`. -/
structure Numeral where
  negative : Bool
  /-- The part before the point. -/
  whole : Nat
  /-- The digits after the point; there is no point if there are none. -/
  fraction : Digits
  /-- The power of ten, if one is written. -/
  exponent : Option Int
  deriving DecidableEq

namespace Numeral

def ofNat (n : Nat) : Numeral :=
  ⟨false, n, [], none⟩

def ofInt (n : Int) : Numeral :=
  ⟨n < 0, n.natAbs, [], none⟩

/-- The integer that the numeral writes. A point or a power of ten makes it no integer, whatever its value,
and neither is minus zero. -/
def integer? (x : Numeral) : Option Int :=
  if x.fraction ≠ [] ∨ x.exponent.isSome then none
  else if x.negative then
    if x.whole = 0 then none else some (-(x.whole : Int))
  else some x.whole

@[simp] theorem integer?_ofInt (n : Int) : (ofInt n).integer? = some n := by
  have absent : ¬((ofInt n).fraction ≠ [] ∨ (ofInt n).exponent.isSome) := by simp [ofInt]
  rw [integer?, if_neg absent]
  by_cases h : n < 0
  · have negative : (ofInt n).negative = true := decide_eq_true h
    have whole : (ofInt n).whole ≠ 0 := Int.natAbs_ne_zero.2 (by omega)
    rw [if_pos negative, if_neg whole]
    have size : ((n.natAbs : Nat) : Int) = -n := Int.ofNat_natAbs_of_nonpos (by omega)
    exact congrArg some ((congrArg (- ·) size).trans (Int.neg_neg n))
  · have negative : ¬(ofInt n).negative = true := by simp [ofInt, h]
    rw [if_neg negative]
    exact congrArg some (Int.natAbs_of_nonneg (by omega))

/-- The decimal that the numeral stands for. -/
def value (x : Numeral) : Decimal :=
  ⟨x.negative, x.whole * tenTo x.fraction.length + Digits.toNat x.fraction,
    x.exponent.getD 0 - x.fraction.length⟩

/-- The sign of a negative number. -/
def signBytes (negative : Bool) : Bytes :=
  if negative then [45] else []

/-- The numeral as ASCII bytes; a power of ten that is not negative gets the given sign. -/
def bytesWith (plus : Bytes) (x : Numeral) : Bytes :=
  signBytes x.negative ++ Digits.toBytes (Digits.ofNat x.whole) ++
    (if x.fraction = [] then [] else 46 :: Digits.toBytes x.fraction) ++
    (match x.exponent with
    | none => []
    | some e =>
      101 :: (if e < 0 then [45] else plus) ++ Digits.toBytes (Digits.ofNat e.natAbs))

/-- The numeral as documents write it, with the sign of every power of ten. -/
def toBytes : Numeral → Bytes :=
  bytesWith [43]

/-- The numeral as listings show it, with the sign of negative powers of ten only. -/
def toText (x : Numeral) : String :=
  String.ofList ((x.bytesWith []).map fun b => Char.ofNat b.toNat)

/-- Reads the whole part: digits without a leading zero, unless zero is all of it. -/
def spanWhole? (s : Bytes) : Option (Nat × Bytes) :=
  match Digits.span s with
  | ([], _) => none
  | ([digit], rest) => some (digit.val, rest)
  | (digit :: digits, rest) =>
    if digit = Digits.zero then none else some (Digits.toNat (digit :: digits), rest)

/-- Reads a point and at least one digit, if there is a point. -/
def spanFraction? (s : Bytes) : Option (Digits × Bytes) :=
  match s with
  | 46 :: rest =>
    match Digits.span rest with
    | ([], _) => none
    | (digits, rest) => some (digits, rest)
  | _ => some ([], s)

/-- Reads a sign that may be left out. -/
def spanSign (s : Bytes) : Bool × Bytes :=
  match s with
  | 45 :: rest => (true, rest)
  | 43 :: rest => (false, rest)
  | _ => (false, s)

/-- Reads the letter of a power of ten, a sign and at least one digit, if there is the letter. -/
def spanExponent? (s : Bytes) : Option (Option Int × Bytes) :=
  let power (rest : Bytes) :=
    let (negative, rest) := spanSign rest
    match Digits.span rest with
    | ([], _) => none
    | (digits, rest) =>
      let e : Int := Digits.toNat digits
      some (some (if negative then -e else e), rest)
  match s with
  | 101 :: rest => power rest
  | 69 :: rest => power rest
  | _ => some (none, s)

/-- Reads a numeral off the front of a byte string. -/
def span? (s : Bytes) : Option (Numeral × Bytes) := do
  let (negative, s) := match s with
    | 45 :: rest => (true, rest)
    | _ => (false, s)
  let (whole, s) ← spanWhole? s
  let (fraction, s) ← spanFraction? s
  let (exponent, s) ← spanExponent? s
  return (⟨negative, whole, fraction, exponent⟩, s)

end Numeral

end ClassDeps
