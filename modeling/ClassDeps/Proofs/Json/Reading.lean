import ClassDeps.Json.Parser
import ClassDeps.Json.Printer
import ClassDeps.Proofs.Decimal.Numeral
import ClassDeps.Proofs.Json.Quoted

/-!
# Documents read back

The reader inverts the compact writer on every document, so that the bytes of a document determine it. How much
fuel the reader needs is bounded by the number of bytes.

## Main statements

* `Json.ofBytes?_toBytes` — the compact form of a document is read as the document
* `Json.toBytes_injective` — documents with the same compact form are equal
-/

namespace ClassDeps.Json

open Numeral (Ends)

/-! ## First bytes -/

/-- The bytes that a written document can begin with. -/
def IsFirst (b : UInt8) : Prop :=
  b ∈ [(34 : UInt8), 91, 123, 110, 116, 102, 45] ∨ ∃ digit, b = Decimal.Digits.byte digit

theorem IsFirst.not_blank {b : UInt8} (h : IsFirst b) : isBlank b = false := by
  obtain h | ⟨digit, rfl⟩ := h
  · simp only [List.mem_cons, List.not_mem_nil, or_false] at h
    obtain rfl | rfl | rfl | rfl | rfl | rfl | rfl := h <;> rfl
  · revert digit; decide

theorem IsFirst.ne_closing {b : UInt8} (h : IsFirst b) : b ≠ 93 ∧ b ≠ 125 := by
  obtain h | ⟨digit, rfl⟩ := h
  · simp only [List.mem_cons, List.not_mem_nil, or_false] at h
    obtain rfl | rfl | rfl | rfl | rfl | rfl | rfl := h <;> decide
  · revert digit; decide

theorem skipBlanks_cons {b : UInt8} (h : isBlank b = false) (rest : Bytes) :
    skipBlanks (b :: rest) = b :: rest := by
  simp [skipBlanks, h]

/-- A numeral begins with its sign or a digit. -/
theorem toBytes_numeral (x : Numeral) :
    ∃ b tail, x.toBytes = b :: tail ∧ (b = 45 ∨ ∃ digit, b = Decimal.Digits.byte digit) := by
  have hbytes := x.toBytes_eq []
  rw [List.append_nil] at hbytes
  rw [hbytes]
  cases x.negative with
  | true => exact ⟨45, _, rfl, .inl rfl⟩
  | false =>
    obtain ⟨digit, tail, hhead⟩ := Numeral.toBytes_eq_cons (Decimal.Digits.ofNat_ne_nil x.whole)
    rw [hhead]
    exact ⟨_, _, rfl, .inr ⟨digit, rfl⟩⟩

theorem toBytes_eq_cons (j : Json) : ∃ b tail, j.toBytes = b :: tail ∧ IsFirst b := by
  match j with
  | .null => exact ⟨110, _, rfl, by simp [IsFirst]⟩
  | .bool true => exact ⟨116, _, rfl, by simp [IsFirst]⟩
  | .bool false => exact ⟨102, _, rfl, by simp [IsFirst]⟩
  | .string bytes => exact ⟨34, _, rfl, by simp [IsFirst]⟩
  | .array items => exact ⟨91, _, by rw [toBytes]; rfl, by simp [IsFirst]⟩
  | .object members => exact ⟨123, _, by rw [toBytes]; rfl, by simp [IsFirst]⟩
  | .number numeral =>
    obtain ⟨b, tail, hbytes, hb⟩ := toBytes_numeral numeral
    refine ⟨b, tail, by rw [toBytes, hbytes], ?_⟩
    obtain rfl | hdigit := hb
    · simp [IsFirst]
    · exact .inr hdigit

/-! ## Leaves -/

theorem isPrefixOf?_append (word rest : Bytes) : word.isPrefixOf? (word ++ rest) = some rest := by
  induction word with
  | nil => rfl
  | cons b word ih =>
    change (if b == b then word.isPrefixOf? (word ++ rest) else none) = some rest
    rw [if_pos (beq_self_eq_true b), ih]

theorem afterWord?_append (word : String) (rest : Bytes) :
    afterWord? word (Bytes.ofText word ++ rest) = some rest :=
  isPrefixOf?_append _ rest

theorem spanValue?_number (numeral : Numeral) (fuel : Nat) {rest : Bytes} (h : Ends rest) :
    spanValue? (fuel + 1) (numeral.toBytes ++ rest) = some (.number numeral, rest) := by
  have hread := numeral.span?_toBytes h
  -- No other kind of document begins with a sign or a digit, so the last branch is taken.
  obtain ⟨b, tail, hbytes, hb⟩ := toBytes_numeral numeral
  have hne : b ∉ [(34 : UInt8), 91, 123, 110, 116, 102] ∧ isBlank b = false := by
    obtain rfl | ⟨digit, rfl⟩ := hb
    · decide
    · clear hbytes
      revert digit
      decide
  simp only [List.mem_cons, List.not_mem_nil, or_false, not_or] at hne
  obtain ⟨⟨h34, h91, h123, h110, h116, h102⟩, hblank⟩ := hne
  rw [hbytes, List.cons_append] at hread ⊢
  rw [spanValue?, skipBlanks_cons hblank]
  split <;> simp_all

theorem spanValue?_null (fuel : Nat) (rest : Bytes) :
    spanValue? (fuel + 1) (toBytes .null ++ rest) = some (.null, rest) := by
  have hword := afterWord?_append "ull" rest
  have hbytes : toBytes .null ++ rest = 110 :: (Bytes.ofText "ull" ++ rest) := rfl
  rw [hbytes, spanValue?, skipBlanks_cons rfl]
  simp [hword]

theorem spanValue?_bool (b : Bool) (fuel : Nat) (rest : Bytes) :
    spanValue? (fuel + 1) (toBytes (.bool b) ++ rest) = some (.bool b, rest) := by
  cases b with
  | true =>
    have hword := afterWord?_append "rue" rest
    have hbytes : toBytes (.bool true) ++ rest = 116 :: (Bytes.ofText "rue" ++ rest) := rfl
    rw [hbytes, spanValue?, skipBlanks_cons rfl]
    simp [hword]
  | false =>
    have hword := afterWord?_append "alse" rest
    have hbytes : toBytes (.bool false) ++ rest = 102 :: (Bytes.ofText "alse" ++ rest) := rfl
    rw [hbytes, spanValue?, skipBlanks_cons rfl]
    simp [hword]

theorem spanValue?_string (bytes : Bytes) (fuel : Nat) (rest : Bytes) :
    spanValue? (fuel + 1) (toBytes (.string bytes) ++ rest) = some (.string bytes, rest) := by
  have hbytes : toBytes (.string bytes) ++ rest = 34 :: (Quoted.encodeTail bytes ++ rest) := by
    rw [toBytes, Quoted.encode, List.cons_append]
  rw [hbytes, spanValue?, skipBlanks_cons rfl]
  simp [Quoted.span?_encodeTail]

/-! ## Arrays and objects -/

/-- The items of an array with its closing bracket. -/
def itemsTail (items : List Json) : Bytes :=
  separated [44] (itemsToBytes items) ++ [93]

/-- The members of an object with its closing brace. -/
def membersTail (members : List (Bytes × Json)) : Bytes :=
  separated [44] (membersToBytes members) ++ [125]

theorem itemsTail_singleton (item : Json) : itemsTail [item] = item.toBytes ++ [93] := rfl

theorem itemsTail_cons (item next : Json) (items : List Json) :
    itemsTail (item :: next :: items) = item.toBytes ++ 44 :: itemsTail (next :: items) := by
  simp [itemsTail, itemsToBytes, separated]

theorem membersTail_singleton (name : Bytes) (value : Json) :
    membersTail [(name, value)] = 34 :: Quoted.encodeTail name ++ 58 :: (value.toBytes ++ [125]) := by
  simp [membersTail, membersToBytes, separated, Quoted.encode]

theorem membersTail_cons (name : Bytes) (value : Json) (next : Bytes × Json)
    (members : List (Bytes × Json)) :
    membersTail ((name, value) :: next :: members) =
      34 :: Quoted.encodeTail name ++ 58 :: (value.toBytes ++ 44 :: membersTail (next :: members)) := by
  simp [membersTail, membersToBytes, separated, Quoted.encode]

theorem spanValue?_array_cons {item : Json} {items read : List Json} {fuel : Nat} {rest after : Bytes}
    (h : spanItems? fuel (itemsTail (item :: items) ++ rest) = some (read, after)) :
    spanValue? (fuel + 1) (toBytes (.array (item :: items)) ++ rest) = some (.array read, after) := by
  have hbytes : toBytes (.array (item :: items)) ++ rest = 91 :: (itemsTail (item :: items) ++ rest) := by
    simp [toBytes, itemsTail]
  obtain ⟨b, tail, hfirst, hb⟩ := item.toBytes_eq_cons
  have htail : ∃ tail, itemsTail (item :: items) ++ rest = b :: tail := by
    cases items <;> simp [itemsTail_singleton, itemsTail_cons, hfirst]
  obtain ⟨tail, htail⟩ := htail
  rw [htail] at h
  rw [hbytes, spanValue?, skipBlanks_cons rfl]
  simp only [htail, skipBlanks_cons hb.not_blank]
  split
  -- The branch of the empty array begins with the closing bracket.
  · rename_i heq
    exact absurd (List.cons.inj heq).1 hb.ne_closing.1
  · simp [h]

theorem spanValue?_object_cons {member : Bytes × Json} {members read : List (Bytes × Json)} {fuel : Nat}
    {rest after : Bytes}
    (h : spanMembers? fuel (membersTail (member :: members) ++ rest) = some (read, after)) :
    spanValue? (fuel + 1) (toBytes (.object (member :: members)) ++ rest) =
      some (.object read, after) := by
  have hbytes : toBytes (.object (member :: members)) ++ rest =
      123 :: (membersTail (member :: members) ++ rest) := by
    simp [toBytes, membersTail]
  have htail : ∃ tail, membersTail (member :: members) ++ rest = 34 :: tail := by
    obtain ⟨name, value⟩ := member
    cases members <;> simp [membersTail_singleton, membersTail_cons]
  obtain ⟨tail, htail⟩ := htail
  rw [htail] at h
  rw [hbytes, spanValue?, skipBlanks_cons rfl]
  simp only [htail, skipBlanks_cons (show isBlank 34 = false from rfl)]
  simp [h]

theorem ends_comma (rest : Bytes) : Ends (44 :: rest) :=
  Numeral.ends_cons (by decide) rest

theorem ends_bracket (rest : Bytes) : Ends (93 :: rest) :=
  Numeral.ends_cons (by decide) rest

theorem ends_brace (rest : Bytes) : Ends (125 :: rest) :=
  Numeral.ends_cons (by decide) rest

theorem exists_fuel {need fuel : Nat} (h : 2 * (need + 1) ≤ fuel) :
    ∃ left, fuel = left + 1 ∧ 2 * need + 1 ≤ left :=
  ⟨fuel - 1, by omega, by omega⟩

mutual

/-- Two steps of fuel for each byte suffice. -/
theorem spanValue?_toBytes : (j : Json) → {fuel : Nat} → {rest : Bytes} →
    2 * j.toBytes.length ≤ fuel → Ends rest → spanValue? fuel (j.toBytes ++ rest) = some (j, rest)
  | .null, fuel, rest, hfuel, _ => by
    obtain ⟨fuel, rfl, -⟩ := exists_fuel hfuel
    exact spanValue?_null fuel rest
  | .bool b, fuel, rest, hfuel, _ => by
    -- `exists_fuel` needs the written length as a successor, which the two words do not show.
    have hlength : 4 ≤ (toBytes (.bool b)).length := by cases b <;> decide
    obtain ⟨fuel, rfl⟩ : ∃ left, fuel = left + 1 := ⟨fuel - 1, by omega⟩
    exact spanValue?_bool b fuel rest
  | .number numeral, fuel, rest, hfuel, hrest => by
    obtain ⟨b, tail, hbytes, -⟩ := toBytes_numeral numeral
    rw [toBytes, hbytes] at hfuel
    obtain ⟨fuel, rfl, -⟩ := exists_fuel hfuel
    exact spanValue?_number numeral fuel hrest
  | .string bytes, fuel, rest, hfuel, _ => by
    rw [toBytes, Quoted.encode] at hfuel
    obtain ⟨fuel, rfl, -⟩ := exists_fuel hfuel
    exact spanValue?_string bytes fuel rest
  | .array [], fuel, rest, hfuel, _ => by
    obtain ⟨fuel, rfl, -⟩ := exists_fuel hfuel
    have hbytes : toBytes (.array []) ++ rest = 91 :: 93 :: rest := rfl
    rw [hbytes, spanValue?, skipBlanks_cons rfl]
    simp [skipBlanks_cons (show isBlank 93 = false from rfl)]
  | .array (item :: items), fuel, rest, hfuel, _ => by
    have hlength : (toBytes (.array (item :: items))).length = (itemsTail (item :: items)).length + 1 := by
      simp [toBytes, itemsTail]
    rw [hlength] at hfuel
    obtain ⟨fuel, rfl, hleft⟩ := exists_fuel hfuel
    exact spanValue?_array_cons (spanItems?_itemsTail item items (by omega))
  | .object [], fuel, rest, hfuel, _ => by
    obtain ⟨fuel, rfl, -⟩ := exists_fuel hfuel
    have hbytes : toBytes (.object []) ++ rest = 123 :: 125 :: rest := rfl
    rw [hbytes, spanValue?, skipBlanks_cons rfl]
    simp [skipBlanks_cons (show isBlank 125 = false from rfl)]
  | .object (member :: members), fuel, rest, hfuel, _ => by
    have hlength : (toBytes (.object (member :: members))).length =
        (membersTail (member :: members)).length + 1 := by
      simp [toBytes, membersTail]
    rw [hlength] at hfuel
    obtain ⟨fuel, rfl, hleft⟩ := exists_fuel hfuel
    exact spanValue?_object_cons (spanMembers?_membersTail member members (by omega))

theorem spanItems?_itemsTail : (item : Json) → (items : List Json) → {fuel : Nat} → {rest : Bytes} →
    2 * (itemsTail (item :: items)).length ≤ fuel →
    spanItems? fuel (itemsTail (item :: items) ++ rest) = some (item :: items, rest)
  | item, [], fuel, rest, hfuel => by
    rw [itemsTail_singleton, List.length_append] at hfuel
    obtain ⟨fuel, rfl, hleft⟩ := exists_fuel hfuel
    -- The separator behind an item is what ends it, should it be a numeral.
    have hitem := spanValue?_toBytes item (by omega : 2 * item.toBytes.length ≤ fuel) (ends_bracket rest)
    rw [itemsTail_singleton, List.append_assoc, spanItems?]
    simp [hitem, skipBlanks_cons (show isBlank 93 = false from rfl)]
  | item, next :: items, fuel, rest, hfuel => by
    rw [itemsTail_cons, List.length_append, List.length_cons, ← Nat.add_assoc] at hfuel
    obtain ⟨fuel, rfl, hleft⟩ := exists_fuel hfuel
    have hitem := spanValue?_toBytes item (by omega : 2 * item.toBytes.length ≤ fuel)
      (ends_comma (itemsTail (next :: items) ++ rest))
    have hitems := @spanItems?_itemsTail next items fuel rest
      (by omega : 2 * (itemsTail (next :: items)).length ≤ fuel)
    rw [itemsTail_cons, List.append_assoc, List.cons_append, spanItems?]
    simp [hitem, hitems, skipBlanks_cons (show isBlank 44 = false from rfl)]

theorem spanMembers?_membersTail : (member : Bytes × Json) → (members : List (Bytes × Json)) →
    {fuel : Nat} → {rest : Bytes} → 2 * (membersTail (member :: members)).length ≤ fuel →
    spanMembers? fuel (membersTail (member :: members) ++ rest) = some (member :: members, rest)
  | (name, value), [], fuel, rest, hfuel => by
    simp only [membersTail_singleton, List.length_append, List.length_cons] at hfuel
    obtain ⟨fuel, rfl⟩ : ∃ left, fuel = left + 1 := ⟨fuel - 1, by omega⟩
    have hname := Quoted.span?_encodeTail name (58 :: (value.toBytes ++ 125 :: rest))
    have hvalue := spanValue?_toBytes value (by omega : 2 * value.toBytes.length ≤ fuel)
      (ends_brace rest)
    have hbytes : membersTail [(name, value)] ++ rest =
        34 :: (Quoted.encodeTail name ++ 58 :: (value.toBytes ++ 125 :: rest)) := by
      simp [membersTail_singleton]
    rw [hbytes, spanMembers?, skipBlanks_cons (show isBlank 34 = false from rfl)]
    simp [hname, skipBlanks_cons (show isBlank 58 = false from rfl), hvalue,
      skipBlanks_cons (show isBlank 125 = false from rfl)]
  | (name, value), next :: members, fuel, rest, hfuel => by
    simp only [membersTail_cons, List.length_append, List.length_cons] at hfuel
    obtain ⟨fuel, rfl⟩ : ∃ left, fuel = left + 1 := ⟨fuel - 1, by omega⟩
    have hname := Quoted.span?_encodeTail name
      (58 :: (value.toBytes ++ 44 :: (membersTail (next :: members) ++ rest)))
    have hvalue := spanValue?_toBytes value (by omega : 2 * value.toBytes.length ≤ fuel)
      (ends_comma (membersTail (next :: members) ++ rest))
    have hmembers := @spanMembers?_membersTail next members fuel rest
      (by omega : 2 * (membersTail (next :: members)).length ≤ fuel)
    have hbytes : membersTail ((name, value) :: next :: members) ++ rest =
        34 :: (Quoted.encodeTail name ++
          58 :: (value.toBytes ++ 44 :: (membersTail (next :: members) ++ rest))) := by
      simp [membersTail_cons]
    rw [hbytes, spanMembers?, skipBlanks_cons (show isBlank 34 = false from rfl)]
    simp [hname, skipBlanks_cons (show isBlank 58 = false from rfl), hvalue, hmembers,
      skipBlanks_cons (show isBlank 44 = false from rfl)]

end

/-- The compact form of a document is read as the document. -/
theorem ofBytes?_toBytes (j : Json) : ofBytes? j.toBytes = some j := by
  have hread := spanValue?_toBytes j (by omega : 2 * j.toBytes.length ≤ 2 * j.toBytes.length + 2)
    Numeral.ends_nil
  rw [List.append_nil] at hread
  simp [ofBytes?, hread, skipBlanks, guard]

/-- Documents with the same compact form are equal. -/
theorem toBytes_injective {j k : Json} (h : j.toBytes = k.toBytes) : j = k := by
  have hread := congrArg ofBytes? h
  rw [ofBytes?_toBytes, ofBytes?_toBytes] at hread
  exact Option.some.inj hread

end ClassDeps.Json
