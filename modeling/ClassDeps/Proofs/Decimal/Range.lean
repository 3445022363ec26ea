import ClassDeps.Json.Form
import Mathlib.Algebra.Group.Nat.Defs

/-!
# Integers in the range of double precision

An integer of at most 64 bits is far from the largest double, so that a numeral that writes it is in range.

## Main statements

* `Binary.round_isSome` — a natural number below `2 ^ 64` is rounded to a finite double
* `Json.isFinite_ofInt` — the numeral of an integer below `2 ^ 64` in magnitude is in range
-/

namespace ClassDeps

namespace Binary

/-- Rounding adds at most one. -/
theorem roundHalfEven_le (numerator denominator : Nat) :
    roundHalfEven numerator denominator ≤ numerator / denominator + 1 := by
  unfold roundHalfEven
  simp only
  split
  · omega
  · split <;> omega

/-- The significand of a number with leading bit `top` has at most two bits more than are stored, be the number
scaled up or divided. -/
theorem significand_le {n top : Nat} {exponent : Int} (hn : n < 2 ^ (top + 1))
    (hexponent : (top : Int) ≤ 53 + exponent) :
    roundHalfEven (n * twoTo (-exponent).toNat) (twoTo exponent.toNat) ≤ 2 ^ 54 := by
  refine Nat.le_trans (roundHalfEven_le _ _) ?_
  rw [Nat.add_one_le_iff, Nat.div_lt_iff_lt_mul (twoTo_pos _)]
  calc n * twoTo (-exponent).toNat < 2 ^ (top + 1) * twoTo (-exponent).toNat :=
        Nat.mul_lt_mul_of_pos_right hn (twoTo_pos _)
    _ = 2 ^ (top + 1 + (-exponent).toNat) := (Nat.pow_add 2 (top + 1) _).symm
    _ ≤ 2 ^ (54 + exponent.toNat) := Nat.pow_le_pow_right (by decide) (by omega)
    _ = 2 ^ 54 * twoTo exponent.toNat := Nat.pow_add 2 54 _

theorem round_isSome {n : Nat} (h : n < 2 ^ 64) : (binary64.round n 1).isSome := by
  by_cases hzero : n = 0
  · rw [Format.round, if_pos hzero]
    rfl
  have hlog : n.log2 < 64 := (Nat.log2_lt hzero).2 h
  have hleast : binary64.leastExponent = -1074 := by decide
  have hone : Nat.log2 1 = 0 := by decide
  simp only [Format.round, if_neg hzero, hleast, hone, Nat.one_mul]
  -- The leading bit is known up to one, and the exponent with it.
  generalize htop : (if twoTo ((n.log2 : Int) - (0 : Nat)).toNat ≤ n * twoTo (-((n.log2 : Int) - (0 : Nat))).toNat
    then (n.log2 : Int) - (0 : Nat) else (n.log2 : Int) - (0 : Nat) - 1) = top
  have hbounds : (n.log2 : Int) - 1 ≤ top ∧ top ≤ n.log2 := by
    rw [← htop]
    split <;> omega
  generalize hexponent : max (-1074) (top - (binary64.fractionBits : Int)) = exponent
  have hrange : (n.log2 : Int) ≤ 53 + exponent ∧ exponent ≤ 11 := by
    have hbits : (binary64.fractionBits : Int) = 52 := rfl
    omega
  have hsignificand := significand_le (Nat.lt_log2_self : n < 2 ^ (n.log2 + 1)) hrange.1
  have hhidden : binary64.hiddenBit = 2 ^ 52 := by decide
  have hinfinity : binary64.infinity = 2047 * 2 ^ 52 := by decide
  rw [hhidden, hinfinity, if_pos]
  · rfl
  · omega

end Binary

namespace Json

theorem isFinite_ofInt {n : Int} (h : n.natAbs < 2 ^ 64) : isFinite (.ofInt n) := by
  have hdigits : (Numeral.ofInt n).value.digits = n.natAbs := by simp [Numeral.ofInt, Numeral.value]
  have hexponent : (Numeral.ofInt n).value.exponent = 0 := by simp [Numeral.ofInt, Numeral.value]
  rw [isFinite, hdigits, hexponent, Binary.Format.ofDecimal]
  split
  · rfl
  · rename_i hzero
    have hlog : n.natAbs.log2 < 64 := (Nat.log2_lt hzero).2 h
    have hrange : Binary.Format.decimalRange = 400 := rfl
    rw [if_neg (by omega), if_neg (by omega)]
    simpa using Binary.round_isSome h

end Json

end ClassDeps
