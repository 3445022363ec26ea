import ClassDeps.Proofs.Json.Reading

/-!
# Indented documents read back

The reader inverts the indented writer, too: what it adds to the compact form are blanks between tokens, which the
reader skips.

## Main statements

* `Json.spanValue?_append`, `spanItems?_append` — blanks in front do not matter
* `Json.ofBytes?_toIndented` — the indented form of a document is read as the document
-/

namespace ClassDeps.Json

open Numeral (Ends)

/-! ## Blanks -/

section Blanks

variable {blanks : Bytes} (h : ∀ b ∈ blanks, isBlank b = true)

include h

theorem skipBlanks_append (rest : Bytes) : skipBlanks (blanks ++ rest) = skipBlanks rest := by
  rw [skipBlanks, List.dropWhile_append_of_pos h]
  rfl

theorem spanValue?_append (fuel : Nat) (rest : Bytes) :
    spanValue? fuel (blanks ++ rest) = spanValue? fuel rest := by
  cases fuel with
  | zero => rfl
  | succ fuel => rw [spanValue?, spanValue?, skipBlanks_append h]

theorem spanItems?_append (fuel : Nat) (rest : Bytes) :
    spanItems? fuel (blanks ++ rest) = spanItems? fuel rest := by
  cases fuel with
  | zero => rfl
  | succ fuel => rw [spanItems?, spanItems?, spanValue?_append h]

theorem spanMembers?_append (fuel : Nat) (rest : Bytes) :
    spanMembers? fuel (blanks ++ rest) = spanMembers? fuel rest := by
  cases fuel with
  | zero => rfl
  | succ fuel => rw [spanMembers?, spanMembers?, skipBlanks_append h]

end Blanks

/-- A colon is written with a blank behind it. -/
theorem spanValue?_blank (fuel : Nat) (rest : Bytes) : spanValue? fuel (32 :: rest) = spanValue? fuel rest :=
  spanValue?_append (List.forall_mem_singleton.2 rfl : ∀ b ∈ [(32 : UInt8)], isBlank b = true) fuel rest

theorem isBlank_of_mem_lineBreak {level : Nat} : ∀ b ∈ lineBreak level, isBlank b = true := by
  intro b hb
  obtain rfl | hb := List.mem_cons.1 hb
  · rfl
  · rw [List.eq_of_mem_replicate hb]
    rfl

theorem ends_lineBreak (level : Nat) (rest : Bytes) : Ends (lineBreak level ++ rest) :=
  Numeral.ends_cons (by decide) _

/-! ## Lines -/

/-- The items of an array with its closing bracket, from the first item on. -/
def itemsLines (level : Nat) (items : List Json) : Bytes :=
  separated (44 :: lineBreak (level + 1)) (indentedItems (level + 1) items) ++ lineBreak level ++ [93]

/-- The members of an object with its closing brace, from the first member on. -/
def membersLines (level : Nat) (members : List (Bytes × Json)) : Bytes :=
  separated (44 :: lineBreak (level + 1)) (indentedMembers (level + 1) members) ++ lineBreak level ++ [125]

theorem indented_array_cons (level : Nat) (item : Json) (items : List Json) :
    indented level (.array (item :: items)) = 91 :: (lineBreak (level + 1) ++ itemsLines level (item :: items)) := by
  simp [indented, block, indentedItems, itemsLines]

theorem indented_object_cons (level : Nat) (member : Bytes × Json) (members : List (Bytes × Json)) :
    indented level (.object (member :: members)) =
      123 :: (lineBreak (level + 1) ++ membersLines level (member :: members)) := by
  obtain ⟨name, value⟩ := member
  simp [indented, block, indentedMembers, membersLines]

theorem itemsLines_singleton (level : Nat) (item : Json) :
    itemsLines level [item] = item.indented (level + 1) ++ (lineBreak level ++ [93]) := by
  simp [itemsLines, indentedItems, separated]

theorem itemsLines_cons (level : Nat) (item next : Json) (items : List Json) :
    itemsLines level (item :: next :: items) =
      item.indented (level + 1) ++ 44 :: (lineBreak (level + 1) ++ itemsLines level (next :: items)) := by
  simp [itemsLines, indentedItems, separated]

theorem membersLines_singleton (level : Nat) (name : Bytes) (value : Json) :
    membersLines level [(name, value)] =
      34 :: (Quoted.encodeTail name ++ 58 :: 32 :: (value.indented (level + 1) ++ (lineBreak level ++ [125]))) := by
  simp [membersLines, indentedMembers, separated, Quoted.encode]

theorem membersLines_cons (level : Nat) (name : Bytes) (value : Json) (next : Bytes × Json)
    (members : List (Bytes × Json)) :
    membersLines level ((name, value) :: next :: members) =
      34 :: (Quoted.encodeTail name ++ 58 :: 32 :: (value.indented (level + 1) ++
        44 :: (lineBreak (level + 1) ++ membersLines level (next :: members)))) := by
  simp [membersLines, indentedMembers, separated, Quoted.encode]

theorem block_eq_cons (left right : UInt8) (level : Nat) (parts : List Bytes) :
    ∃ tail, block left right level parts = left :: tail := by
  rw [block]
  split
  · exact ⟨[right], rfl⟩
  · exact ⟨_, rfl⟩

theorem indented_eq_cons (level : Nat) (j : Json) : ∃ b tail, j.indented level = b :: tail ∧ IsFirst b := by
  cases j with
  | array items =>
    obtain ⟨tail, htail⟩ := block_eq_cons 91 93 level (indentedItems (level + 1) items)
    exact ⟨91, tail, htail, by simp [IsFirst]⟩
  | object members =>
    obtain ⟨tail, htail⟩ := block_eq_cons 123 125 level (indentedMembers (level + 1) members)
    exact ⟨123, tail, htail, by simp [IsFirst]⟩
  | _ => exact toBytes_eq_cons _

/-! ## Arrays and objects -/

theorem spanValue?_indented_array {level fuel : Nat} {item : Json} {items read : List Json} {rest after : Bytes}
    (h : spanItems? fuel (itemsLines level (item :: items) ++ rest) = some (read, after)) :
    spanValue? (fuel + 1) (indented level (.array (item :: items)) ++ rest) = some (.array read, after) := by
  obtain ⟨b, tail, hfirst, hb⟩ := item.indented_eq_cons (level + 1)
  have htail : ∃ tail, itemsLines level (item :: items) ++ rest = b :: tail := by
    cases items <;> simp [itemsLines_singleton, itemsLines_cons, hfirst]
  obtain ⟨tail, htail⟩ := htail
  rw [htail] at h
  rw [indented_array_cons, List.cons_append, List.append_assoc, htail, spanValue?, skipBlanks_cons rfl]
  simp only [skipBlanks_append isBlank_of_mem_lineBreak, skipBlanks_cons hb.not_blank]
  split
  -- The branch of the empty array begins with the closing bracket.
  · rename_i heq
    exact absurd (List.cons.inj heq).1 hb.ne_closing.1
  · simp [h]

theorem spanValue?_indented_object {level fuel : Nat} {member : Bytes × Json} {members read : List (Bytes × Json)}
    {rest after : Bytes}
    (h : spanMembers? fuel (membersLines level (member :: members) ++ rest) = some (read, after)) :
    spanValue? (fuel + 1) (indented level (.object (member :: members)) ++ rest) = some (.object read, after) := by
  have htail : ∃ tail, membersLines level (member :: members) ++ rest = 34 :: tail := by
    obtain ⟨name, value⟩ := member
    cases members <;> simp [membersLines_singleton, membersLines_cons]
  obtain ⟨tail, htail⟩ := htail
  rw [htail] at h
  rw [indented_object_cons, List.cons_append, List.append_assoc, htail, spanValue?, skipBlanks_cons rfl]
  simp only [skipBlanks_append isBlank_of_mem_lineBreak, skipBlanks_cons (show isBlank 34 = false from rfl)]
  simp [h]

mutual

/-- By induction on the document, as for the compact form; two steps of fuel for each byte suffice. -/
theorem spanValue?_indented : (j : Json) → {level fuel : Nat} → {rest : Bytes} →
    2 * (j.indented level).length ≤ fuel → Ends rest →
      spanValue? fuel (j.indented level ++ rest) = some (j, rest)
  | .null, _, _, _, hfuel, hrest | .bool _, _, _, _, hfuel, hrest | .number _, _, _, _, hfuel, hrest
  | .string _, _, _, _, hfuel, hrest => spanValue?_toBytes _ hfuel hrest
  | .array [], level, fuel, rest, hfuel, _ => by
    obtain ⟨fuel, rfl, -⟩ := exists_fuel hfuel
    have hbytes : indented level (.array []) ++ rest = 91 :: 93 :: rest := rfl
    rw [hbytes, spanValue?, skipBlanks_cons rfl]
    simp [skipBlanks_cons (show isBlank 93 = false from rfl)]
  | .array (item :: items), level, fuel, rest, hfuel, _ => by
    rw [indented_array_cons] at hfuel
    obtain ⟨fuel, rfl, hleft⟩ := exists_fuel hfuel
    rw [List.length_append] at hleft
    exact spanValue?_indented_array (spanItems?_itemsLines item items (by omega))
  | .object [], level, fuel, rest, hfuel, _ => by
    obtain ⟨fuel, rfl, -⟩ := exists_fuel hfuel
    have hbytes : indented level (.object []) ++ rest = 123 :: 125 :: rest := rfl
    rw [hbytes, spanValue?, skipBlanks_cons rfl]
    simp [skipBlanks_cons (show isBlank 125 = false from rfl)]
  | .object (member :: members), level, fuel, rest, hfuel, _ => by
    rw [indented_object_cons] at hfuel
    obtain ⟨fuel, rfl, hleft⟩ := exists_fuel hfuel
    rw [List.length_append] at hleft
    exact spanValue?_indented_object (spanMembers?_membersLines member members (by omega))
termination_by j => sizeOf j

theorem spanItems?_itemsLines : (item : Json) → (items : List Json) → {level fuel : Nat} → {rest : Bytes} →
    2 * (itemsLines level (item :: items)).length ≤ fuel →
      spanItems? fuel (itemsLines level (item :: items) ++ rest) = some (item :: items, rest)
  | item, [], level, fuel, rest, hfuel => by
    simp only [itemsLines_singleton, List.length_append, List.length_cons] at hfuel
    obtain ⟨fuel, rfl⟩ : ∃ left, fuel = left + 1 := ⟨fuel - 1, by omega⟩
    -- The new line behind an item is what ends it, should it be a numeral.
    have hitem := spanValue?_indented item (by omega : 2 * (item.indented (level + 1)).length ≤ fuel)
      (ends_lineBreak level (93 :: rest))
    have hbytes : itemsLines level [item] ++ rest =
        item.indented (level + 1) ++ (lineBreak level ++ 93 :: rest) := by
      simp [itemsLines_singleton]
    rw [hbytes, spanItems?]
    simp [hitem, skipBlanks_append isBlank_of_mem_lineBreak, skipBlanks_cons (show isBlank 93 = false from rfl)]
  | item, next :: items, level, fuel, rest, hfuel => by
    simp only [itemsLines_cons, List.length_append, List.length_cons] at hfuel
    obtain ⟨fuel, rfl⟩ : ∃ left, fuel = left + 1 := ⟨fuel - 1, by omega⟩
    have hitem := spanValue?_indented item (by omega : 2 * (item.indented (level + 1)).length ≤ fuel)
      (ends_comma (lineBreak (level + 1) ++ (itemsLines level (next :: items) ++ rest)))
    have hitems := @spanItems?_itemsLines next items level fuel rest (by omega)
    have hbytes : itemsLines level (item :: next :: items) ++ rest = item.indented (level + 1) ++
        44 :: (lineBreak (level + 1) ++ (itemsLines level (next :: items) ++ rest)) := by
      simp [itemsLines_cons]
    rw [hbytes, spanItems?]
    simp [hitem, spanItems?_append isBlank_of_mem_lineBreak, hitems,
      skipBlanks_cons (show isBlank 44 = false from rfl)]
termination_by item items => sizeOf item + sizeOf items

theorem spanMembers?_membersLines : (member : Bytes × Json) → (members : List (Bytes × Json)) →
    {level fuel : Nat} → {rest : Bytes} → 2 * (membersLines level (member :: members)).length ≤ fuel →
      spanMembers? fuel (membersLines level (member :: members) ++ rest) = some (member :: members, rest)
  | (name, value), [], level, fuel, rest, hfuel => by
    simp only [membersLines_singleton, List.length_append, List.length_cons] at hfuel
    obtain ⟨fuel, rfl⟩ : ∃ left, fuel = left + 1 := ⟨fuel - 1, by omega⟩
    have hname := Quoted.span?_encodeTail name
      (58 :: 32 :: (value.indented (level + 1) ++ (lineBreak level ++ 125 :: rest)))
    have hvalue := spanValue?_indented value (by omega : 2 * (value.indented (level + 1)).length ≤ fuel)
      (ends_lineBreak level (125 :: rest))
    have hbytes : membersLines level [(name, value)] ++ rest = 34 :: (Quoted.encodeTail name ++
        58 :: 32 :: (value.indented (level + 1) ++ (lineBreak level ++ 125 :: rest))) := by
      simp [membersLines_singleton]
    rw [hbytes, spanMembers?, skipBlanks_cons (show isBlank 34 = false from rfl)]
    simp [hname, skipBlanks_cons (show isBlank 58 = false from rfl), spanValue?_blank, hvalue,
      skipBlanks_append isBlank_of_mem_lineBreak, skipBlanks_cons (show isBlank 125 = false from rfl)]
  | (name, value), next :: members, level, fuel, rest, hfuel => by
    simp only [membersLines_cons, List.length_append, List.length_cons] at hfuel
    obtain ⟨fuel, rfl⟩ : ∃ left, fuel = left + 1 := ⟨fuel - 1, by omega⟩
    have hname := Quoted.span?_encodeTail name (58 :: 32 :: (value.indented (level + 1) ++
      44 :: (lineBreak (level + 1) ++ (membersLines level (next :: members) ++ rest))))
    have hvalue := spanValue?_indented value (by omega : 2 * (value.indented (level + 1)).length ≤ fuel)
      (ends_comma (lineBreak (level + 1) ++ (membersLines level (next :: members) ++ rest)))
    have hmembers := @spanMembers?_membersLines next members level fuel rest (by omega)
    have hbytes : membersLines level ((name, value) :: next :: members) ++ rest =
        34 :: (Quoted.encodeTail name ++ 58 :: 32 :: (value.indented (level + 1) ++
          44 :: (lineBreak (level + 1) ++ (membersLines level (next :: members) ++ rest)))) := by
      simp [membersLines_cons]
    rw [hbytes, spanMembers?, skipBlanks_cons (show isBlank 34 = false from rfl)]
    simp [hname, skipBlanks_cons (show isBlank 58 = false from rfl), spanValue?_blank, hvalue,
      spanMembers?_append isBlank_of_mem_lineBreak, hmembers, skipBlanks_cons (show isBlank 44 = false from rfl)]
termination_by member members => sizeOf member + sizeOf members

end

/-- The indented form of a document is read as the document. -/
theorem ofBytes?_toIndented (j : Json) : ofBytes? j.toIndented = some j := by
  have hread := spanValue?_indented j
    (Nat.le_add_right _ _ : 2 * (j.indented 0).length ≤ 2 * (j.indented 0).length + 2) Numeral.ends_nil
  rw [List.append_nil] at hread
  simp [ofBytes?, toIndented, hread, skipBlanks, guard]

end ClassDeps.Json
