import ClassDeps.Decimal.Numeral

/-!
# Numerals read back

Reading a written numeral gives the numeral, part by part, if nothing follows that would go on with it.

## Main definitions

* `Numeral.Ends` — what may follow a numeral

## Main statements

* `Numeral.span?_toBytes` — what is written is read
-/

namespace ClassDeps

open Decimal

namespace Numeral

/-- What follows a numeral: nothing, or a comma, a closing bracket or brace, or a new line. -/
def Ends (rest : Bytes) : Prop :=
  ∀ b ∈ rest.head?, b ∈ [(44 : UInt8), 93, 125, 10]

theorem ends_nil : Ends [] := by
  simp [Ends]

theorem ends_cons {b : UInt8} (h : b ∈ [(44 : UInt8), 93, 125, 10]) (rest : Bytes) : Ends (b :: rest) := by
  intro c hc
  obtain rfl : b = c := by simpa using hc
  exact h

/-- A byte that ends a numeral goes on with none of its parts. -/
theorem Ends.cases {rest : Bytes} (h : Ends rest) :
    rest = [] ∨ ∃ b tail, rest = b :: tail ∧ (b = 44 ∨ b = 93 ∨ b = 125 ∨ b = 10) := by
  cases rest with
  | nil => exact .inl rfl
  | cons b tail => exact .inr ⟨b, tail, rfl, by simpa using h b rfl⟩

theorem Ends.no_digit {rest : Bytes} (h : Ends rest) : rest.head?.bind Digits.ofByte? = none := by
  obtain rfl | ⟨b, tail, rfl, hb⟩ := h.cases
  · rfl
  · obtain rfl | rfl | rfl | rfl := hb <;> simp [Digits.ofByte?]

/-! ## The whole part -/

theorem toBytes_eq_cons {digits : Digits} (h : digits ≠ []) :
    ∃ digit tail, Digits.toBytes digits = Digits.byte digit :: tail := by
  cases digits with
  | nil => exact absurd rfl h
  | cons digit digits => exact ⟨digit, Digits.toBytes digits, rfl⟩

theorem byte_ne_minus : ∀ digit : Fin 10, Digits.byte digit ≠ 45 := by
  decide

theorem spanWhole?_toBytes (n : Nat) {rest : Bytes} (h : rest.head?.bind Digits.ofByte? = none) :
    spanWhole? (Digits.toBytes (Digits.ofNat n) ++ rest) = some (n, rest) := by
  have hvalue := Digits.toNat_ofNat n
  rw [spanWhole?, Digits.span_toBytes _ h]
  split
  · rename_i heq
    exact absurd (Prod.mk.inj heq).1 (Digits.ofNat_ne_nil n)
  · rename_i digit rest' heq
    obtain ⟨hdigits, rfl⟩ := Prod.mk.inj heq
    rw [hdigits] at hvalue
    have hdigit : digit.val = n := by simpa [Digits.toNat] using hvalue
    rw [hdigit]
  · rename_i digit digits rest' hmany heq
    obtain ⟨hdigits, rfl⟩ := Prod.mk.inj heq
    -- Only zero itself is written with a zero in front.
    have hlead : digit ≠ Digits.zero := by
      rintro rfl
      obtain ⟨-, rfl⟩ := Digits.head_ofNat hdigits
      exact hmany rfl
    rw [if_neg hlead, ← hdigits, hvalue]

/-! ## The fraction and the power of ten -/

/-- The bytes of the fraction. -/
def fractionBytes (fraction : Digits) : Bytes :=
  if fraction = [] then [] else 46 :: Digits.toBytes fraction

/-- The bytes of the power of ten, with a sign. -/
def exponentBytes : Option Int → Bytes
  | none => []
  | some e => 101 :: (if e < 0 then [45] else [43]) ++ Digits.toBytes (Digits.ofNat e.natAbs)

theorem toBytes_eq (x : Numeral) (rest : Bytes) :
    x.toBytes ++ rest = signBytes x.negative ++ (Digits.toBytes (Digits.ofNat x.whole) ++
      (fractionBytes x.fraction ++ (exponentBytes x.exponent ++ rest))) := by
  rw [toBytes, bytesWith]
  cases x.exponent <;> simp [fractionBytes, exponentBytes]

theorem exponentBytes_no_digit (exponent : Option Int) {rest : Bytes} (h : Ends rest) :
    (exponentBytes exponent ++ rest).head?.bind Digits.ofByte? = none := by
  cases exponent with
  | none => exact h.no_digit
  | some e => simp [exponentBytes, Digits.ofByte?]

theorem fractionBytes_no_digit (fraction : Digits) (exponent : Option Int) {rest : Bytes}
    (h : Ends rest) :
    (fractionBytes fraction ++ (exponentBytes exponent ++ rest)).head?.bind Digits.ofByte? = none := by
  rw [fractionBytes]
  split
  · exact exponentBytes_no_digit exponent h
  · simp [Digits.ofByte?]

theorem spanFraction?_bytes (fraction : Digits) (exponent : Option Int) {rest : Bytes}
    (h : Ends rest) :
    spanFraction? (fractionBytes fraction ++ (exponentBytes exponent ++ rest)) =
      some (fraction, exponentBytes exponent ++ rest) := by
  rw [fractionBytes]
  split
  · rename_i hnone
    subst hnone
    -- Without a fraction no point follows: an exponent begins with a letter, and no point ends a numeral.
    have hpoint : ∀ tail, exponentBytes exponent ++ rest ≠ 46 :: tail := by
      intro tail htail
      cases exponent with
      | none =>
        obtain rfl | ⟨b, tail', rfl, hb⟩ := h.cases
        · cases htail
        · obtain rfl | rfl | rfl | rfl := hb <;> simp [exponentBytes] at htail
      | some e => simp [exponentBytes] at htail
    rw [List.nil_append, spanFraction?.eq_def]
    split
    · rename_i tail heq
      exact absurd heq (hpoint tail)
    · rfl
  · rename_i hsome
    have hspan := Digits.span_toBytes fraction (exponentBytes_no_digit exponent h)
    simp only [List.cons_append, spanFraction?, hspan]

theorem spanSign_bytes (e : Int) (rest : Bytes) :
    spanSign ((if e < 0 then [45] else [43]) ++ rest) = (decide (e < 0), rest) := by
  by_cases h : e < 0 <;> simp [h, spanSign]

theorem spanExponent?_bytes (exponent : Option Int) {rest : Bytes} (h : Ends rest) :
    spanExponent? (exponentBytes exponent ++ rest) = some (exponent, rest) := by
  cases exponent with
  | none =>
    rw [exponentBytes, List.nil_append]
    obtain rfl | ⟨b, tail, rfl, hb⟩ := h.cases
    · rfl
    · obtain rfl | rfl | rfl | rfl := hb <;> rfl
  | some e =>
    have hdigits := Digits.span_toBytes (Digits.ofNat e.natAbs) h.no_digit
    have hsign := spanSign_bytes e (Digits.toBytes (Digits.ofNat e.natAbs) ++ rest)
    rw [exponentBytes, List.append_assoc, List.cons_append, spanExponent?]
    simp only [hsign, hdigits]
    obtain ⟨digit, digits, hne⟩ := List.exists_cons_of_ne_nil (Digits.ofNat_ne_nil e.natAbs)
    have hvalue := Digits.toNat_ofNat e.natAbs
    rw [hne] at hvalue ⊢
    simp only [hvalue, Option.some.injEq, Prod.mk.injEq, and_true, decide_eq_true_eq]
    split <;> omega

/-! ## The numeral -/

/-- A numeral is read back, and reading stops where it ends. -/
theorem span?_toBytes (x : Numeral) {rest : Bytes} (h : Ends rest) :
    span? (x.toBytes ++ rest) = some (x, rest) := by
  have hwhole := spanWhole?_toBytes x.whole (fractionBytes_no_digit x.fraction x.exponent h)
  have hfraction := spanFraction?_bytes x.fraction x.exponent h
  have hexponent := spanExponent?_bytes x.exponent h
  obtain ⟨negative, whole, fraction, exponent⟩ := x
  rw [toBytes_eq, span?.eq_def]
  cases negative with
  | true =>
    simp only [signBytes, if_true, List.cons_append, List.nil_append, hwhole, hfraction, hexponent,
      Option.bind_eq_bind, Option.bind_some, Option.pure_def]
  | false =>
    -- A digit in front is not taken for a sign.
    obtain ⟨digit, tail, hhead⟩ := toBytes_eq_cons (Digits.ofNat_ne_nil whole)
    simp only [signBytes, Bool.false_eq_true, if_false, List.nil_append]
    split
    · rename_i rest' heq
      rw [hhead] at heq
      exact absurd (List.cons.inj heq).1 (byte_ne_minus digit)
    · simp only [hwhole, hfraction, hexponent, Option.bind_eq_bind, Option.bind_some, Option.pure_def]

end Numeral

end ClassDeps
