import ClassDeps.Proofs.Key.Decoding

/-!
# The order of encoded keys

Rows are in the order of their encoded keys. Bytes are compared from the most significant one on, so this order is
that of the keys with all integers taken as unsigned; below the sign boundary it is the order of the keys themselves.

## Main statements

* `Bytes.compare_eq_lt_iff` — byte strings are compared lexicographically
* `Bytes.compare_ofInt32_append` — integers at the front decide first, as unsigned ones
* `Int32.compare_toUInt32` — unsigned comparison is by sign first
* `Declaration.compare_eq` — declarations are compared by their variants, and then by their names
* `Declaration.compare_encode` — encodings are compared as declarations of unsigned numbers
-/

namespace ClassDeps

/-! ## Bytes of integers -/

theorem compareOfLessAndEq_eq {α : Type} [LT α] [DecidableLT α] [DecidableEq α] {f : α → Nat}
    (hlt : ∀ {a b : α}, a < b ↔ f a < f b) (hinj : ∀ {a b : α}, f a = f b ↔ a = b) (a b : α) :
    compareOfLessAndEq a b = compare (f a) (f b) := by
  by_cases heq : f a = f b
  · rw [hinj.1 heq, Std.ReflOrd.compare_self]
    simp only [compareOfLessAndEq, hlt, Nat.lt_irrefl, if_false, if_true]
  · have hne : a ≠ b := fun h => heq (congrArg f h)
    simp only [compareOfLessAndEq, Nat.compare_eq_ite_lt, hlt, if_neg hne]
    split
    · rfl
    · rw [if_pos (by omega)]

namespace Bytes

theorem compare_toUInt8 (n m : Nat) : compare n.toUInt8 m.toUInt8 = compare (n % 256) (m % 256) :=
  compareOfLessAndEq_eq UInt8.lt_iff_toNat_lt UInt8.toNat_inj _ _

theorem compare_toNat (x y : UInt32) : compare x y = compare x.toNat y.toNat :=
  compareOfLessAndEq_eq UInt32.lt_iff_toNat_lt UInt32.toNat_inj _ _

/-- The comparison of byte strings is lexicographic. -/
theorem compare_eq_lt_iff {a b : Bytes} : compare a b = .lt ↔ a < b := by
  induction a generalizing b with
  | nil => cases b <;> simp
  | cons x a ih =>
    cases b with
    | nil => simp
    | cons y b =>
      rw [List.compare_cons_cons, Ordering.then_eq_lt, Std.compare_eq_lt, Std.compare_eq_iff_eq, ih,
        List.cons_lt_cons_iff]

/-- The last digit decides last. -/
theorem compare_digits (n m : Nat) :
    compare n m = (compare (n / 256) (m / 256)).then (compare (n % 256) (m % 256)) := by
  obtain hlt | heq | hgt := Nat.lt_trichotomy (n / 256) (m / 256)
  · rw [Nat.compare_eq_lt.2 hlt, Nat.compare_eq_lt.2 (by omega)]
    rfl
  · have hlt : n < m ↔ n % 256 < m % 256 := by omega
    have hgt : m < n ↔ m % 256 < n % 256 := by omega
    rw [Nat.compare_eq_eq.2 heq]
    simp only [Nat.compare_eq_ite_lt, hlt, hgt, Ordering.then]
  · rw [Nat.compare_eq_gt.2 hgt, Nat.compare_eq_gt.2 (by omega)]
    rfl

/-- Integers at the front of byte strings are compared first, as unsigned ones. -/
theorem compare_ofInt32_append (x y : Int32) (s t : Bytes) :
    compare (ofInt32 x ++ s) (ofInt32 y ++ t) = (compare x.toUInt32 y.toUInt32).then (compare s t) := by
  have hfirst (z : Int32) : z.toUInt32.toNat / 16777216 % 256 = z.toUInt32.toNat / 16777216 := by
    have hz := z.toUInt32.toNat_lt
    exact Nat.mod_eq_of_lt (by omega)
  rw [compare_toNat, compare_digits, compare_digits (_ / 256), compare_digits (_ / 256 / 256)]
  simp only [ofInt32, List.cons_append, List.nil_append, List.compare_cons_cons, compare_toUInt8, Ordering.then_assoc,
    Nat.div_div_eq_div_mul, Nat.reduceMul, hfirst]

theorem compare_flatMap_ofInt32 (xs ys : List Int32) :
    compare (xs.flatMap ofInt32) (ys.flatMap ofInt32) =
      compare (xs.map Int32.toUInt32) (ys.map Int32.toUInt32) := by
  induction xs generalizing ys with
  | nil => cases ys <;> rfl
  | cons x xs ih =>
    cases ys with
    | nil => rfl
    | cons y ys =>
      rw [List.flatMap_cons, List.flatMap_cons, compare_ofInt32_append, ih, List.map_cons, List.map_cons,
        List.compare_cons_cons]

end Bytes

/-! ## The sign boundary -/

namespace Int32

theorem toInt_eq (x : Int32) :
    x.toInt = if 2147483648 ≤ x.toUInt32.toNat then (x.toUInt32.toNat : Int) - 4294967296 else x.toUInt32.toNat := by
  have h := BitVec.toInt_eq_toNat_cond x.toBitVec
  change x.toInt = if 2 * x.toUInt32.toNat < 4294967296 then (x.toUInt32.toNat : Int)
    else x.toUInt32.toNat - 4294967296 at h
  rw [h]
  split <;> split <;> omega

/-- The sign of an integer is the first bit of its unsigned form. -/
theorem neg_iff (x : Int32) : x < 0 ↔ 2147483648 ≤ x.toUInt32.toNat := by
  have hx := x.toUInt32.toNat_lt
  rw [Int32.lt_iff_toInt_lt, toInt_eq, Int32.toInt_zero]
  split <;> omega

/-- Integers of the same sign are in the order of their unsigned forms. -/
theorem toUInt32_lt_iff {x y : Int32} (hsign : x < 0 ↔ y < 0) : x.toUInt32 < y.toUInt32 ↔ x < y := by
  rw [neg_iff, neg_iff] at hsign
  rw [UInt32.lt_iff_toNat_lt, Int32.lt_iff_toInt_lt, toInt_eq, toInt_eq]
  split <;> split <;> omega

/-- The unsigned form of a negative integer is above that of every other one. -/
theorem toUInt32_lt_of_neg {x y : Int32} (hx : ¬x < 0) (hy : y < 0) : x.toUInt32 < y.toUInt32 := by
  rw [neg_iff] at hx hy
  rw [UInt32.lt_iff_toNat_lt]
  omega

/-- Unsigned forms are compared by sign first. -/
theorem compare_toUInt32 (x y : Int32) :
    compare x.toUInt32 y.toUInt32 = (compare (decide (x < 0)) (decide (y < 0))).then (compare x y) := by
  by_cases hsign : x < 0 ↔ y < 0
  · have hinj : x.toUInt32 = y.toUInt32 ↔ x = y :=
      ⟨fun h => by simpa using congrArg UInt32.toInt32 h, congrArg _⟩
    rw [decide_eq_decide.2 hsign, Std.ReflOrd.compare_self]
    simp only [compare, compareOfLessAndEq, toUInt32_lt_iff hsign, hinj, Ordering.then]
  · by_cases hx : x < 0
    · have hy : ¬y < 0 := fun hy => hsign (iff_of_true hx hy)
      rw [decide_eq_true hx, decide_eq_false hy, Std.compare_eq_gt.2 (toUInt32_lt_of_neg hy hx)]
      rfl
    · have hy : y < 0 := Decidable.not_not.1 fun hy => hsign (iff_of_false hx hy)
      rw [decide_eq_false hx, decide_eq_true hy, Std.compare_eq_lt.2 (toUInt32_lt_of_neg hx hy)]
      rfl

theorem compare_map_toUInt32 {xs ys : List Int32} (hxs : ∀ x ∈ xs, 0 ≤ x) (hys : ∀ y ∈ ys, 0 ≤ y) :
    compare (xs.map Int32.toUInt32) (ys.map Int32.toUInt32) = compare xs ys := by
  induction xs generalizing ys with
  | nil => cases ys <;> rfl
  | cons x xs ih =>
    cases ys with
    | nil => rfl
    | cons y ys =>
      rw [List.forall_mem_cons] at hxs hys
      have hx : decide (x < 0) = false := decide_eq_false (Int32.not_lt.2 hxs.1)
      have hy : decide (y < 0) = false := decide_eq_false (Int32.not_lt.2 hys.1)
      rw [List.map_cons, List.map_cons, List.compare_cons_cons, List.compare_cons_cons, ih hxs.2 hys.2,
        compare_toUInt32, hx, hy]
      rfl

/-- Integers in the order of their unsigned forms ascend twice, once on either side of the sign boundary. -/
theorem exists_signs {xs : List Int32} (h : xs.Pairwise fun x y => compare x.toUInt32 y.toUInt32 = .lt) :
    ∃ nonneg neg, xs = nonneg ++ neg ∧ (∀ x ∈ nonneg, 0 ≤ x) ∧ nonneg.Pairwise (· < ·) ∧
      (∀ x ∈ neg, x < 0) ∧ neg.Pairwise (· < ·) := by
  induction h with
  | nil => exact ⟨[], [], rfl, nofun, .nil, nofun, .nil⟩
  | @cons x xs hx _ ih =>
    obtain ⟨nonneg, neg, rfl, hnonneg, hfirst, hneg, hsecond⟩ := ih
    have hlt {y : Int32} (hy : y ∈ nonneg ++ neg) : x.toUInt32 < y.toUInt32 := Std.compare_eq_lt.1 (hx y hy)
    by_cases hsign : x < 0
    -- Nothing comes after a negative integer but negative ones.
    · obtain rfl : nonneg = [] := List.eq_nil_iff_forall_not_mem.2 fun y hy => by
        have hy' := toUInt32_lt_of_neg (Int32.not_lt.2 (hnonneg y hy)) hsign
        exact UInt32.lt_asymm hy' (hlt (List.mem_append_left _ hy))
      refine ⟨[], x :: neg, rfl, nofun, .nil, List.forall_mem_cons.2 ⟨hsign, hneg⟩, hsecond.cons fun y hy => ?_⟩
      exact (toUInt32_lt_iff (iff_of_true hsign (hneg y hy))).1 (hlt hy)
    · refine ⟨x :: nonneg, neg, rfl, List.forall_mem_cons.2 ⟨Int32.not_lt.1 hsign, hnonneg⟩,
        hfirst.cons fun y hy => ?_, hneg, hsecond⟩
      have hsame := iff_of_false hsign (Int32.not_lt.2 (hnonneg y hy))
      exact (toUInt32_lt_iff hsame).1 (hlt (List.mem_append_left _ hy))

end Int32

/-! ## Declarations -/

namespace Declaration

variable {ν ν' : Type}

theorem names_map (f : ν → ν') (k : Declaration ν) : (k.map f).names = k.names.map f := by
  cases k <;> rfl

theorem tag_map (f : ν → ν') (k : Declaration ν) : (k.map f).tag = k.tag := by
  cases k <;> rfl

/-- Declarations are compared by their variants, and then name by name. -/
theorem compare_eq [Ord ν] (a b : Declaration ν) :
    compare a b = (compare a.tag b.tag).then (compare a.names b.names) := by
  cases a <;> cases b
  case type.type | field.field | method.method =>
    simp only [names, List.compare_cons_cons]
    rfl
  all_goals rfl

/-- Encodings are compared as declarations whose names are taken as unsigned. -/
theorem compare_encode (a b : Declaration Int32) :
    compare (StoreKey.encode a) (StoreKey.encode b) = compare (a.map Int32.toUInt32) (b.map Int32.toUInt32) := by
  rw [encode_eq, encode_eq, List.compare_cons_cons, Bytes.compare_flatMap_ofInt32, compare_eq, tag_map, tag_map,
    names_map, names_map]

example : compare (StoreKey.encode (Declaration.type (-1 : Int32))) (StoreKey.encode (Declaration.type (1 : Int32))) =
    .gt := by decide

/-- Without negative names the order of the encodings is that of the declarations. -/
theorem compare_encode_of_nonneg {a b : Declaration Int32} (ha : ∀ x ∈ a.names, 0 ≤ x) (hb : ∀ x ∈ b.names, 0 ≤ x) :
    compare (StoreKey.encode a) (StoreKey.encode b) = compare a b := by
  rw [encode_eq, encode_eq, List.compare_cons_cons, Bytes.compare_flatMap_ofInt32, Int32.compare_map_toUInt32 ha hb,
    compare_eq a b]

end Declaration

end ClassDeps
