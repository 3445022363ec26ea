import ClassDeps.Listing
import ClassDeps.Proofs.Json.Textual
import Mathlib.Tactic.SplitIfs

/-!
# Listings of names

Classes are listed by their names, in the order of the characters. This is the order of the encoded names as well,
compared byte by byte: a character that comes later has a greater first byte, or as many bytes with later digits.

## Main definitions

* `Listing.ofNames` — the text that lists some names

## Main statements

* `Bytes.ofText_lt` — texts and their encodings are in the same order
* `Listing.exists_classNames` — the listing of some classes is that of their names in ascending order
-/

namespace ClassDeps

/-! ## The order of texts -/

namespace Bytes

theorem ofNat_lt_iff {n m : Nat} (hn : n < 256) (hm : m < 256) : UInt8.ofNat n < UInt8.ofNat m ↔ n < m := by
  rw [UInt8.lt_iff_toNat_lt, UInt8.toNat_ofNat', UInt8.toNat_ofNat', Nat.mod_eq_of_lt hn, Nat.mod_eq_of_lt hm]

theorem ofNat_inj {n m : Nat} (hn : n < 256) (hm : m < 256) : UInt8.ofNat n = UInt8.ofNat m ↔ n = m := by
  rw [← UInt8.toNat_inj, UInt8.toNat_ofNat', UInt8.toNat_ofNat', Nat.mod_eq_of_lt hn, Nat.mod_eq_of_lt hm]

theorem toNat_char_lt (c : Char) : c.val.toNat < 0x110000 := by
  obtain hlow | ⟨-, hhigh⟩ := c.valid
  · exact Nat.lt_trans hlow (by decide)
  · exact hhigh

/-- Encodings of different characters differ in a byte that both have, whatever comes after them. -/
theorem utf8EncodeChar_append_lt {c d : Char} (h : c < d) (s t : Bytes) :
    String.utf8EncodeChar c ++ s < String.utf8EncodeChar d ++ t := by
  have hlt : c.val.toNat < d.val.toNat := UInt32.lt_iff_toNat_lt.1 h
  have hlimit := toNat_char_lt d
  -- Digits are taken off one after the other, so that those of both characters can be compared one by one.
  have hthird (n : Nat) : n / 4096 = n / 64 / 64 := (Nat.div_div_eq_div_mul n 64 64).symm
  have hfourth (n : Nat) : n / 262144 = n / 64 / 64 / 64 := by
    rw [Nat.div_div_eq_div_mul, Nat.div_div_eq_div_mul]
  simp only [String.utf8EncodeChar, hthird, hfourth]
  generalize c.val.toNat = n at *
  generalize d.val.toNat = m at *
  split_ifs
  all_goals
    simp (disch := omega) only [List.cons_append, List.nil_append, List.cons_lt_cons_iff, ofNat_lt_iff, ofNat_inj]
    omega

theorem append_lt_append {a s t : Bytes} (h : s < t) : a ++ s < a ++ t := by
  induction a with
  | nil => exact h
  | cons x a ih => exact List.cons_lt_cons_iff.2 (.inr ⟨rfl, ih⟩)

/-- Texts are in the order of their encodings. -/
theorem ofText_lt {s t : String} (h : s < t) : ofText s < ofText t := by
  rw [ofText_eq_flatMap, ofText_eq_flatMap]
  rw [String.lt_iff] at h
  generalize s.toList = s at h
  generalize t.toList = t at h
  induction s generalizing t with
  | nil =>
    cases t with
    | nil => exact absurd h (List.lt_irrefl _)
    | cons d t =>
      obtain ⟨byte, bytes, hbytes⟩ := List.exists_cons_of_ne_nil (String.utf8EncodeChar_ne_nil (c := d))
      rw [List.flatMap_cons, hbytes, List.cons_append]
      exact List.nil_lt_cons _ _
  | cons c s ih =>
    cases t with
    | nil => exact absurd h (List.not_lt_nil _)
    | cons d t =>
      rw [List.flatMap_cons, List.flatMap_cons]
      obtain hlt | ⟨rfl, hrest⟩ := List.cons_lt_cons_iff.1 h
      · exact utf8EncodeChar_append_lt hlt _ _
      · exact append_lt_append (ih t hrest)

end Bytes

/-! ## Listings -/

namespace Listing

/-- The text that lists some names, one a line, and their number. -/
def ofNames (names : List String) : String :=
  String.join (names.map line) ++ "\n" ++ line s!"{names.length} classes"

/-- Names in ascending order are determined by which they are. -/
theorem eq_of_ascending {names others : List String} (h : names.Pairwise fun a b => Bytes.ofText a < Bytes.ofText b)
    (h' : others.Pairwise fun a b => Bytes.ofText a < Bytes.ofText b) (hsame : ∀ name, name ∈ names ↔ name ∈ others) :
    names = others := by
  have hnodup {names : List String} (h : names.Pairwise fun a b => Bytes.ofText a < Bytes.ofText b) : names.Nodup := by
    refine h.imp fun {a b} hlt heq => ?_
    rw [heq] at hlt
    exact List.lt_irrefl _ hlt
  refine ((List.perm_ext_iff_of_nodup (hnodup h) (hnodup h')).2 hsame).eq_of_pairwise ?_ h h'
  exact fun a b _ _ hab hba => absurd hab (List.lt_asymm hba)

/-- Classes with different names are listed by these in the order of their bytes. -/
theorem exists_classNames {symbols : SymbolTable} {ids : List SymbolId} (h : (ids.map symbols.resolve).Nodup) :
    ∃ names, classNames symbols ids = ofNames names ∧ names.length = ids.length ∧
      (names.Pairwise fun a b => Bytes.ofText a < Bytes.ofText b) ∧
      ∀ name, name ∈ names ↔ ∃ id ∈ ids, symbols.resolve id = name := by
  let names := (ids.map symbols.resolve).mergeSort fun a b => decide (a ≤ b)
  have hperm : names.Perm (ids.map symbols.resolve) := List.mergeSort_perm _ _
  have hsorted : names.Pairwise fun a b => decide (a ≤ b) = true := by
    refine List.pairwise_mergeSort (fun a b c hab hbc => ?_) (fun a b => ?_) _
    · exact decide_eq_true (String.le_trans (of_decide_eq_true hab) (of_decide_eq_true hbc))
    · rw [Bool.or_eq_true, decide_eq_true_iff, decide_eq_true_iff]
      exact String.le_total a b
  have hnodup : names.Nodup := hperm.nodup_iff.2 h
  refine ⟨names, rfl, hperm.length_eq.trans (List.length_map _), ?_, fun name => ?_⟩
  · refine (hsorted.and hnodup).imp fun {a b} hboth => ?_
    obtain ⟨hle, hne⟩ := hboth
    refine Bytes.ofText_lt (String.not_le.1 fun hge => hne ?_)
    exact String.le_antisymm (of_decide_eq_true hle) hge
  · rw [hperm.mem_iff, List.mem_map]

end Listing

end ClassDeps
