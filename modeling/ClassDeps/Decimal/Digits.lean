import ClassDeps.Bytes

/-!
# Decimal digits

Natural numbers as lists of decimal digits, the most significant digit first, and digits as ASCII bytes.

## Main definitions

* `Decimal.Digits` — a list of decimal digits
* `Digits.ofNat`, `Digits.toNat` — the digits of a number and the number of a list of digits
* `Digits.toBytes`, `Digits.span` — writing digits and reading them off the front of a byte string
-/

namespace ClassDeps.Decimal

/-- Decimal digits, the most significant one first. -/
abbrev Digits := List (Fin 10)

namespace Digits

def zero : Fin 10 :=
  ⟨0, Nat.zero_lt_succ 9⟩

/-- The digits of `n` without leading zeros; zero has one digit. -/
def ofNat (n : Nat) : Digits :=
  if h : n < 10 then [⟨n, h⟩] else ofNat (n / 10) ++ [⟨n % 10, Nat.mod_lt n (by decide)⟩]

/-- The number that the digits stand for. -/
def toNat (digits : Digits) : Nat :=
  digits.foldl (fun value digit => 10 * value + digit.val) 0

@[simp] theorem toNat_nil : toNat [] = 0 := rfl

theorem toNat_concat (digits : Digits) (digit : Fin 10) :
    toNat (digits ++ [digit]) = 10 * toNat digits + digit.val := by
  simp [toNat]

@[simp] theorem toNat_ofNat (n : Nat) : toNat (ofNat n) = n := by
  induction n using Nat.strongRecOn with
  | ind n ih =>
    rw [ofNat]
    split
    · simp [toNat]
    · rw [toNat_concat, ih (n / 10) (by omega)]
      simp only
      omega

theorem ofNat_ne_nil (n : Nat) : ofNat n ≠ [] := by
  rw [ofNat]; split <;> simp

/-- Only zero has a leading zero digit. -/
theorem head_ofNat {n : Nat} {digits : Digits} (h : ofNat n = zero :: digits) : n = 0 ∧ digits = [] := by
  induction n using Nat.strongRecOn generalizing digits with
  | ind n ih =>
    rw [ofNat] at h
    split at h
    · simp_all [zero, Fin.ext_iff]
    · rename_i hn
      obtain ⟨first, rest, hfirst⟩ := List.exists_cons_of_ne_nil (ofNat_ne_nil (n / 10))
      rw [hfirst, List.cons_append, List.cons.injEq] at h
      have := ih (n / 10) (by omega) (h.1 ▸ hfirst)
      omega

/-- The ASCII byte of a digit. -/
def byte (digit : Fin 10) : UInt8 :=
  48 + digit.val.toUInt8

/-- The digit that an ASCII byte stands for. -/
def ofByte? (b : UInt8) : Option (Fin 10) :=
  if h : 48 ≤ b.toNat ∧ b.toNat < 58 then some ⟨b.toNat - 48, by omega⟩ else none

@[simp] theorem ofByte?_byte (digit : Fin 10) : ofByte? (byte digit) = some digit := by
  revert digit; decide

/-- The digits as ASCII bytes. -/
def toBytes (digits : Digits) : Bytes :=
  digits.map byte

/-- The digits at the front of a byte string, and what follows them. -/
def span : Bytes → Digits × Bytes
  | [] => ([], [])
  | b :: rest =>
    match ofByte? b with
    | some digit => ((digit :: (span rest).1), (span rest).2)
    | none => ([], b :: rest)

/-- Written digits are read back if no digit follows them. -/
theorem span_toBytes (digits : Digits) {rest : Bytes} (h : rest.head?.bind ofByte? = none) :
    span (toBytes digits ++ rest) = (digits, rest) := by
  induction digits with
  | nil =>
    cases rest with
    | nil => rfl
    | cons b rest => simp_all [toBytes, span]
  | cons digit digits ih =>
    simp only [toBytes, List.map_cons, List.cons_append, span, ofByte?_byte]
    simp only [toBytes] at ih
    rw [ih]

end Digits

end ClassDeps.Decimal
