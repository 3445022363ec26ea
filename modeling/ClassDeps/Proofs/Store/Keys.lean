import ClassDeps.Proofs.Store.KeyValue
import Mathlib.Data.Set.List

/-!
# Keys of key-value stores

Operations make rows under encodings of keys only. So all keys of a store can be listed, if keys are read back from
their encodings.

## Main definitions

* `KeyValueStore.Keyed` — rows under encodings of keys

## Main statements

* `Steps.keyed` — operations keep rows under encodings of keys
* `Keyed.exists_keys` — the list of all keys, each once and in the order of their encodings
-/

namespace ClassDeps

variable {κ α : Type} [StoreKey κ]

/-- Lists of keys are read back, one key after the other. -/
theorem StoreKey.mapM_decode (hdecode : ∀ k : κ, decode (encode k) = .ok k) (ks : List κ) :
    (ks.map encode).mapM decode = .ok ks := by
  induction ks with
  | nil => rfl
  | cons k ks ih =>
    rw [List.map_cons, List.mapM_cons, hdecode, ih]
    rfl

namespace KeyValueStore

/-- Every row is under the encoding of a key. -/
def Keyed (κ : Type) [StoreKey κ] (rows : Ordered.Map Bytes Bytes) : Prop :=
  ∀ ⦃key bytes : Bytes⦄, rows.get? key = some bytes → ∃ k : κ, key = StoreKey.encode k

variable {rows : Ordered.Map Bytes Bytes}

theorem Keyed.insert (h : Keyed κ rows) (k : κ) (bytes : Bytes) : Keyed κ (rows.insert (StoreKey.encode k) bytes) := by
  intro key found hrow
  rw [Ordered.Map.get?_insert] at hrow
  split at hrow
  · rename_i hkey
    exact ⟨k, hkey⟩
  · exact h hrow

theorem Keyed.erase (h : Keyed κ rows) (key : Bytes) : Keyed κ (rows.erase key) := by
  intro other found hrow
  rw [Ordered.Map.get?_erase] at hrow
  split at hrow
  · cases hrow
  · exact h hrow

theorem Steps.keyed [Storable α] {may : κ → Prop} {s t : KeyValueStore κ α} (h : Steps may s t)
    (hs : Keyed κ s.rows) : Keyed κ t.rows := by
  induction h with
  | refl => exact hs
  | get k _ ih =>
    rw [rows_get]
    exact ih
  | put k value _ _ ih => exact ih.insert k _
  | remove k _ _ ih => exact ih.erase _
  | reopen _ _ ih => exact ih

/-- The keys of all rows, each once and in the order of their encodings. -/
theorem Keyed.exists_keys (h : Keyed κ rows) (hdecode : ∀ k : κ, StoreKey.decode (StoreKey.encode k) = .ok k) :
    ∃ ks : List κ, ks.map StoreKey.encode = rows.keys ∧ rows.keys.mapM StoreKey.decode = .ok ks ∧
      (ks.Pairwise fun a b => compare (StoreKey.encode a) (StoreKey.encode b) = .lt) ∧
      ∀ k, k ∈ ks ↔ rows.contains (StoreKey.encode k) := by
  have hencoded : rows.keys ∈ Set.range (List.map (StoreKey.encode (κ := κ))) := by
    rw [Set.range_list_map]
    intro key hkey
    obtain ⟨bytes, hrow⟩ := Option.isSome_iff_exists.1 (Ordered.Map.mem_keys.1 hkey)
    obtain ⟨k, hk⟩ := h hrow
    exact ⟨k, hk.symm⟩
  obtain ⟨ks, hks⟩ := hencoded
  refine ⟨ks, hks, by rw [← hks, StoreKey.mapM_decode hdecode], ?_, fun k => ?_⟩
  · have hascending : rows.keys.Pairwise fun a b => compare a b = .lt := List.pairwise_map.2 rows.ascending
    rwa [← hks, List.pairwise_map] at hascending
  · rw [← Ordered.Map.mem_keys, ← hks, List.mem_map]
    constructor
    · intro hk
      exact ⟨k, hk, rfl⟩
    · rintro ⟨k', hk', heq⟩
      have hself := hdecode k
      rw [← heq, hdecode k'] at hself
      exact Except.ok.inj hself ▸ hk'

end KeyValueStore

end ClassDeps
