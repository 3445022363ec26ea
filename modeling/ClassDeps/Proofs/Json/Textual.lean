import ClassDeps.Json.Printer
import ClassDeps.Proofs.Json.Intact

/-!
# Written documents are texts

What is written of a document is well-formed UTF-8 if its strings are, since escaping changes no character outside
of ASCII and everything else that is written is ASCII.

## Main definitions

* `Bytes.IsText` — byte strings that are well-formed UTF-8

## Main statements

* `Bytes.isText_iff` — these are the byte strings that are read as a text
* `Json.isText_toIndented` — the indented form of an intact document is a text
-/

namespace ClassDeps

namespace Bytes

/-- A byte string that is the encoding of characters. -/
def IsText (b : Bytes) : Prop :=
  ∃ characters : List Char, b = characters.flatMap String.utf8EncodeChar

theorem ofText_eq_flatMap (s : String) : ofText s = s.toList.flatMap String.utf8EncodeChar := by
  have hbytes : s.toByteArray = s.toList.utf8Encode := by
    rw [← String.toByteArray_ofList, String.ofList_toList]
  rw [ofText, hbytes]
  simp [List.utf8Encode]

theorem isText_iff {b : Bytes} : b.IsText ↔ (toText? b).isSome := by
  rw [Option.isSome_iff_exists]
  constructor
  · rintro ⟨characters, rfl⟩
    refine ⟨String.ofList characters, ?_⟩
    have hbytes := ofText_eq_flatMap (String.ofList characters)
    rw [String.toList_ofList] at hbytes
    rw [← hbytes, toText?_ofText]
  · rintro ⟨s, hs⟩
    exact ⟨s.toList, by rw [← ofText_of_toText? hs, ofText_eq_flatMap]⟩

namespace IsText

variable {b b' : Bytes}

theorem nil : IsText [] :=
  ⟨[], rfl⟩

theorem append (h : b.IsText) (h' : b'.IsText) : IsText (b ++ b') := by
  obtain ⟨characters, rfl⟩ := h
  obtain ⟨characters', rfl⟩ := h'
  exact ⟨characters ++ characters', List.flatMap_append.symm⟩

theorem toNat_ofNat : ∀ n < 128, (Char.ofNat n).val.toNat = n := by
  decide

theorem singleton {x : UInt8} (h : x < 128) : IsText [x] := by
  have hlt : x.toNat < 128 := UInt8.lt_iff_toNat_lt.1 h
  refine ⟨[Char.ofNat x.toNat], ?_⟩
  have hval := toNat_ofNat x.toNat hlt
  have hle : x.toNat ≤ 127 := by omega
  simp [String.utf8EncodeChar, hval, hle]

theorem cons {x : UInt8} (h : x < 128) (h' : b.IsText) : IsText (x :: b) :=
  (singleton h).append h'

theorem of_ascii (h : ∀ x ∈ b, x < 128) : b.IsText := by
  induction b with
  | nil => exact .nil
  | cons x b ih =>
    rw [List.forall_mem_cons] at h
    exact .cons h.1 (ih h.2)

theorem flatMap {α : Type} {xs : List α} {f : α → Bytes} (h : ∀ x ∈ xs, (f x).IsText) : IsText (xs.flatMap f) := by
  induction xs with
  | nil => exact .nil
  | cons x xs ih =>
    rw [List.forall_mem_cons] at h
    exact h.1.append (ih h.2)

end IsText

end Bytes

/-! ## Literals -/

namespace Json.Quoted

open Bytes (IsText)

/-- A byte outside of ASCII stands for itself. -/
theorem escape_of_le {b : UInt8} (h : 128 ≤ b) : escape b = [b] := by
  have hle : 128 ≤ b.toNat := UInt8.le_iff_toNat_le.1 h
  unfold escape
  split
  case h_8 =>
    refine if_neg fun hlow => ?_
    have hlt : b.toNat < 32 := UInt8.lt_iff_toNat_lt.1 hlow
    omega
  all_goals exact absurd h (by decide)

theorem hexByte_lt : ∀ n < 16, hexByte n < 128 := by
  decide

theorem escape_lt {b : UInt8} (h : b < 128) : ∀ x ∈ escape b, x < 128 := by
  unfold escape
  split
  case h_8 =>
    split
    · have hhigh := hexByte_lt (b.toNat / 16) (by have hlt := b.toNat_lt; omega)
      have hlow := hexByte_lt (b.toNat % 16) (by omega)
      simp only [List.forall_mem_cons]
      exact ⟨by decide, by decide, by decide, by decide, hhigh, hlow, List.forall_mem_nil _⟩
    · rwa [List.forall_mem_singleton]
  all_goals exact List.forall_mem_cons.2 ⟨by decide, List.forall_mem_singleton.2 (by decide)⟩

theorem flatMap_escape_of_le {b : Bytes} (h : ∀ x ∈ b, 128 ≤ x) : b.flatMap escape = b := by
  induction b with
  | nil => rfl
  | cons x b ih =>
    rw [List.forall_mem_cons] at h
    rw [List.flatMap_cons, escape_of_le h.1, ih h.2, List.singleton_append]

/-- A lead byte or a byte that follows one. -/
theorem le_ofNat_add {n bits lead : Nat} (hlead : 128 ≤ lead) (hsum : bits + lead ≤ 256) (hn : n < bits) :
    128 ≤ UInt8.ofNat (n + lead) := by
  have hvalue : (UInt8.ofNat (n + lead)).toNat = n + lead := by
    rw [UInt8.toNat_ofNat']
    exact Nat.mod_eq_of_lt (by omega)
  rw [UInt8.le_iff_toNat_le, hvalue]
  exact Nat.le_trans hlead (Nat.le_add_left _ _)

theorem le_of_mem_utf8EncodeChar {c : Char} (h : ¬c.val.toNat ≤ 127) :
    ∀ b ∈ String.utf8EncodeChar c, 128 ≤ b := by
  have hnext (n : Nat) : 128 ≤ UInt8.ofNat (n % 64 + 128) :=
    le_ofNat_add (Nat.le_refl _) (by decide) (Nat.mod_lt n (by decide))
  simp only [String.utf8EncodeChar, if_neg h]
  split
  · simp only [List.forall_mem_cons]
    exact ⟨le_ofNat_add (by decide) (by decide) (Nat.mod_lt _ (by decide : 0 < 32)), hnext _,
      List.forall_mem_nil _⟩
  · split
    · simp only [List.forall_mem_cons]
      exact ⟨le_ofNat_add (by decide) (by decide) (Nat.mod_lt _ (by decide : 0 < 16)), hnext _, hnext _,
        List.forall_mem_nil _⟩
    · simp only [List.forall_mem_cons]
      exact ⟨le_ofNat_add (by decide) (by decide) (Nat.mod_lt _ (by decide : 0 < 8)), hnext _, hnext _, hnext _,
        List.forall_mem_nil _⟩

/-- A character is escaped as a whole: one of ASCII to some of ASCII, any other to itself. -/
theorem isText_escape_char (c : Char) : IsText ((String.utf8EncodeChar c).flatMap escape) := by
  by_cases hascii : c.val.toNat ≤ 127
  · have hbyte : UInt8.ofNat c.val.toNat < 128 := by
      rw [UInt8.lt_iff_toNat_lt, UInt8.toNat_ofNat']
      exact Nat.lt_of_le_of_lt (Nat.mod_le _ _) (Nat.lt_succ_of_le hascii)
    have hbytes : String.utf8EncodeChar c = [UInt8.ofNat c.val.toNat] := by
      simp only [String.utf8EncodeChar, if_pos hascii]
    rw [hbytes, List.flatMap_cons, List.flatMap_nil, List.append_nil]
    exact .of_ascii (escape_lt hbyte)
  · rw [flatMap_escape_of_le (le_of_mem_utf8EncodeChar hascii)]
    exact ⟨[c], List.append_nil _ |>.symm⟩

theorem isText_encode {b : Bytes} (h : b.IsText) : IsText (encode b) := by
  obtain ⟨characters, rfl⟩ := h
  rw [encode, encodeTail, List.flatMap_assoc]
  exact .cons (by decide) (.append (.flatMap fun c _ => isText_escape_char c) (.singleton (by decide)))

end Json.Quoted

/-! ## Documents -/

namespace Json

open Bytes (IsText)

theorem byte_lt : ∀ digit : Fin 10, Decimal.Digits.byte digit < 128 := by
  decide

theorem isText_digits (digits : Decimal.Digits) : IsText (Decimal.Digits.toBytes digits) := by
  refine .of_ascii ?_
  rw [Decimal.Digits.toBytes, List.forall_mem_map]
  exact fun digit _ => byte_lt digit

theorem isText_numeral (x : Numeral) : IsText x.toBytes := by
  have hminus : IsText [45] := .singleton (by decide)
  have hsign : IsText (Numeral.signBytes x.negative) := by
    rw [Numeral.signBytes]
    split
    · exact hminus
    · exact .nil
  refine ((hsign.append (isText_digits _)).append ?_).append ?_
  · split
    · exact .nil
    · exact .cons (by decide) (isText_digits _)
  · split
    · exact .nil
    · refine IsText.append (.cons (by decide) ?_) (isText_digits _)
      split
      · exact hminus
      · exact .singleton (by decide)

theorem isText_lineBreak (level : Nat) : IsText (lineBreak level) := by
  refine .of_ascii fun b hb => ?_
  obtain rfl | hb := List.mem_cons.1 hb
  · decide
  · rw [List.eq_of_mem_replicate hb]
    decide

theorem isText_separated {separator : Bytes} (h : separator.IsText) {parts : List Bytes}
    (hparts : ∀ part ∈ parts, part.IsText) : IsText (separated separator parts) := by
  induction parts with
  | nil => exact .nil
  | cons part parts ih =>
    rw [List.forall_mem_cons] at hparts
    cases parts with
    | nil => exact hparts.1
    | cons next parts => exact (hparts.1.append h).append (ih hparts.2)

theorem isText_block {left right : UInt8} (hleft : left < 128) (hright : right < 128) (level : Nat)
    {parts : List Bytes} (hparts : ∀ part ∈ parts, part.IsText) : IsText (block left right level parts) := by
  rw [block]
  split
  · exact .cons hleft (.singleton hright)
  · refine .append (.append (.append (.cons hleft (isText_lineBreak _)) ?_) (isText_lineBreak _)) (.singleton hright)
    exact isText_separated (.cons (by decide) (isText_lineBreak _)) hparts

mutual

theorem isText_indented : (j : Json) → (level : Nat) → j.isIntact = true → IsText (j.indented level)
  | .null, _, _ => ⟨"null".toList, rfl⟩
  | .bool true, _, _ => ⟨"true".toList, rfl⟩
  | .bool false, _, _ => ⟨"false".toList, rfl⟩
  | .number numeral, _, _ => isText_numeral numeral
  | .string _, _, h => Quoted.isText_encode (Bytes.isText_iff.2 h)
  | .array items, level, h => isText_block (by decide) (by decide) level (isText_indentedItems items (level + 1) h)
  | .object members, level, h =>
    isText_block (by decide) (by decide) level (isText_indentedMembers members (level + 1) h)

theorem isText_indentedItems : (items : List Json) → (level : Nat) → intactItems items = true →
    ∀ part ∈ indentedItems level items, IsText part
  | [], _, _ => List.forall_mem_nil _
  | item :: rest, level, h => by
    rw [intactItems, Bool.and_eq_true] at h
    rw [indentedItems, List.forall_mem_cons]
    exact ⟨isText_indented item level h.1, isText_indentedItems rest level h.2⟩

theorem isText_indentedMembers : (members : List (Bytes × Json)) → (level : Nat) → intactMembers members = true →
    ∀ part ∈ indentedMembers level members, IsText part
  | [], _, _ => List.forall_mem_nil _
  | (name, value) :: rest, level, h => by
    rw [intactMembers, Bool.and_eq_true, Bool.and_eq_true] at h
    rw [indentedMembers, List.forall_mem_cons]
    refine ⟨?_, isText_indentedMembers rest level h.2⟩
    exact (Quoted.isText_encode (Bytes.isText_iff.2 h.1.1)).append
      (.cons (by decide) (.cons (by decide) (isText_indented value level h.1.2)))

end

/-- The indented form of an intact document is a text. -/
theorem isText_toIndented {j : Json} (h : j.isIntact = true) : (j.toIndented.toText?).isSome :=
  Bytes.isText_iff.1 (isText_indented j 0 h)

end Json

end ClassDeps
