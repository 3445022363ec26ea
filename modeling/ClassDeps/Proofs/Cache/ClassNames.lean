import ClassDeps.Proofs.Cache.Closure
import ClassDeps.Proofs.Key.Order
import ClassDeps.Proofs.Store.Keys

/-!
# Names of all classes

Classes are listed in the order of their encoded names. So the names that are not negative come first, and each
part of the list ascends.

## Main definitions

* `Cache.Listed` — the list of the stored classes, in two ascending parts

## Main statements

* `Reachable.keyed`, `Reachable.stored_iff` — rows of a reachable cache are those of stored classes
* `Reachable.exists_listed` — every reachable cache lists its classes so
* `encoded_order` — what the order of encodings is, of declarations and of the names of a cache
-/

namespace ClassDeps.Cache

variable {c : Cache}

/-- The stored classes, each once: those with names that are not negative in ascending order, and then the others in
ascending order. -/
structure Listed (c : Cache) (nonneg neg : List SymbolId) : Prop where
  answer_classNames : c.answer classNames = .ok (nonneg ++ neg)
  nonneg_of_mem : ∀ q ∈ nonneg, 0 ≤ q
  pairwise_nonneg : nonneg.Pairwise (· < ·)
  neg_of_mem : ∀ q ∈ neg, q < 0
  pairwise_neg : neg.Pairwise (· < ·)
  nodup : (nonneg ++ neg).Nodup
  mem_iff : ∀ q, q ∈ nonneg ++ neg ↔ c.Stored q
  answer_containsClass : ∀ q, c.answer (containsClass q) = .ok (decide (q ∈ nonneg ++ neg))

theorem Reachable.keyed (h : c.Reachable) : KeyValueStore.Keyed SymbolId c.classes.rows := by
  induction h with
  | fresh root capacity => exact nofun
  | @step c _ operation ih => exact (steps_apply operation c).classes.keyed ih

theorem Coherent.stored_iff (h : c.Coherent) (q : SymbolId) :
    c.Stored q ↔ c.classes.rows.contains (StoreKey.encode q) = true := by
  rw [Ordered.Map.contains, Option.isSome_iff_exists]
  constructor
  · rintro ⟨record, hrow⟩
    exact ⟨_, hrow⟩
  · rintro ⟨bytes, hrow⟩
    obtain ⟨record, rfl⟩ := h.classes.written hrow
    exact ⟨record, hrow⟩

/-- What is in memory is in the rows, so that these alone say which classes there are. -/
theorem Coherent.contains_eq (h : c.Coherent) (q : SymbolId) :
    c.classes.contains q = c.classes.rows.contains (StoreKey.encode q) := by
  rw [KeyValueStore.contains, Lru.contains_eq]
  cases hmemory : c.classes.memory.value? (StoreKey.encode q) with
  | none => rfl
  | some record =>
    rw [Ordered.Map.contains, h.classes.row_of_memory hmemory]
    rfl

theorem Reachable.exists_listed (h : c.Reachable) : ∃ nonneg neg, c.Listed nonneg neg := by
  have hdecode (q : SymbolId) : StoreKey.decode (StoreKey.encode q) = .ok q :=
    (canonical_int32.decode_eq_ok_iff _ q).2 rfl
  obtain ⟨names, -, hnames, hascending, hmem⟩ := h.keyed.exists_keys hdecode
  have hunsigned : names.Pairwise fun x y => compare x.toUInt32 y.toUInt32 = .lt := by
    refine hascending.imp fun {x y} hlt => ?_
    have hcompare := Bytes.compare_ofInt32_append x y [] []
    rw [List.append_nil, List.append_nil, List.compare_nil_nil, Ordering.then_eq] at hcompare
    exact hcompare.symm.trans hlt
  obtain ⟨nonneg, neg, rfl, hnonneg, hfirst, hneg, hsecond⟩ := Int32.exists_signs hunsigned
  refine ⟨nonneg, neg, ?_, hnonneg, hfirst, hneg, hsecond, ?_, fun q => ?_, fun q => ?_⟩
  · rw [answer, perform_classNames, KeyValueStore.keys, hnames]
    rfl
  · refine hunsigned.imp fun {x y} hlt heq => ?_
    rw [heq, Std.ReflOrd.compare_self] at hlt
    cases hlt
  · rw [h.coherent.stored_iff, hmem]
  · have hcontains : c.answer (containsClass q) = .ok (c.classes.contains q) := rfl
    rw [hcontains, h.coherent.contains_eq, Bool.eq_iff_iff.2 ((hmem q).symm.trans decide_eq_true_iff.symm)]

/-- Without negative names declarations are in the order of their encodings, as compared byte by byte. In general the
order of the encodings is by variants, and then by names that are taken as unsigned. So every reachable cache lists
its classes with the negative names last. -/
theorem encoded_order :
    (∀ a b : Declaration Int32, (∀ x ∈ a.names, 0 ≤ x) → (∀ x ∈ b.names, 0 ≤ x) →
      (compare a b = .lt ↔ StoreKey.encode a < StoreKey.encode b)) ∧
    (∀ a b : Declaration Int32,
      (StoreKey.encode a < StoreKey.encode b ↔ compare (a.map Int32.toUInt32) (b.map Int32.toUInt32) = .lt) ∧
      compare (a.map Int32.toUInt32) (b.map Int32.toUInt32) =
        (compare a.tag b.tag).then (compare (a.names.map Int32.toUInt32) (b.names.map Int32.toUInt32))) ∧
    ∀ c : Cache, c.Reachable → ∃ nonneg neg, c.Listed nonneg neg := by
  refine ⟨fun a b ha hb => ?_, fun a b => ⟨?_, ?_⟩, fun c hc => hc.exists_listed⟩
  · rw [← Declaration.compare_encode_of_nonneg ha hb, Bytes.compare_eq_lt_iff]
  · rw [← Declaration.compare_encode, Bytes.compare_eq_lt_iff]
  · rw [Declaration.compare_eq, Declaration.tag_map, Declaration.tag_map, Declaration.names_map, Declaration.names_map]

end ClassDeps.Cache
