import ClassDeps.Proofs.Store.KeyValue

/-!
# What all values of a store have in common

A property of all rows and of all that is in memory is kept by every operation, if what is put has it. Memory and
rows are not compared, so that this also holds of stores whose files were changed by others.

## Main definitions

* `KeyValueStore.Rows` — a property of the values that rows hold
* `KeyValueStore.Every` — a property of rows and memory

## Main statements

* `Every.of_get` — what is looked up has the property
* `Every.get`, `Every.put`, `Every.remove` — operations keep it
-/

namespace ClassDeps.KeyValueStore

variable {κ α : Type} [Storable α]

/-- All rows hold written values that have a property together with their key. -/
def Rows (p : Bytes → α → Prop) (rows : Ordered.Map Bytes Bytes) : Prop :=
  ∀ key bytes, rows.get? key = some bytes → ∃ value : α, bytes = Storable.form.toBytes value ∧ p key value

/-- All rows and all that is in memory have a property. -/
structure Every (p : Bytes → α → Prop) (s : KeyValueStore κ α) : Prop where
  rows : Rows p s.rows
  memory : ∀ key value, s.memory.value? key = some value → p key value

variable {p q : Bytes → α → Prop} {rows : Ordered.Map Bytes Bytes}

namespace Rows

theorem empty : Rows p .empty :=
  fun _ _ h => nomatch h

theorem mono (h : Rows p rows) (hpq : ∀ key value, p key value → q key value) : Rows q rows := by
  intro key bytes hrow
  obtain ⟨value, hbytes, hp⟩ := h key bytes hrow
  exact ⟨value, hbytes, hpq key value hp⟩

theorem insert (h : Rows p rows) {key : Bytes} {value : α} (hp : p key value) :
    Rows p (rows.insert key (Storable.form.toBytes value)) := by
  intro other bytes hrow
  rw [Ordered.Map.get?_insert] at hrow
  split at hrow
  · rename_i heq
    exact ⟨value, (Option.some.inj hrow).symm, heq ▸ hp⟩
  · exact h other bytes hrow

theorem erase (h : Rows p rows) (key : Bytes) : Rows p (rows.erase key) := by
  intro other bytes hrow
  rw [Ordered.Map.get?_erase] at hrow
  split at hrow
  · cases hrow
  · exact h other bytes hrow

end Rows

namespace Every

variable [StoreKey κ] {s : KeyValueStore κ α}

omit [StoreKey κ] in
theorem mono (h : s.Every p) (hpq : ∀ key value, p key value → q key value) : s.Every q :=
  ⟨h.rows.mono hpq, fun key value hvalue => hpq key value (h.memory key value hvalue)⟩

omit [StoreKey κ] in
theorem of_readRow (h : s.Every p) (hform : (Storable.form (α := α)).Exact) {key : Bytes} {value : α}
    (hread : s.readRow key = .ok (some value)) : p key value := by
  match hrow : s.rows.get? key with
  | none =>
    rw [readRow_eq_none hrow] at hread
    cases hread
  | some bytes =>
    obtain ⟨written, rfl, hp⟩ := h.rows key bytes hrow
    rw [readRow_of_row hform hrow] at hread
    split at hread
    · cases hread
      exact hp
    · cases hread

/-- What is looked up has the property. -/
theorem of_get (h : s.Every p) (hform : (Storable.form (α := α)).Exact) {k : κ} {value : α}
    (hget : (s.get k).1 = .ok (some value)) : p (StoreKey.encode k) value := by
  match hmemory : s.memory.value? (StoreKey.encode k) with
  | some held =>
    rw [get_of_memory hmemory] at hget
    cases hget
    exact h.memory _ _ hmemory
  | none =>
    rw [get_of_memory_eq_none hmemory] at hget
    exact h.of_readRow hform hget

omit [Storable α] in
theorem of_insert {c : Lru Bytes α} (h : ∀ key value, c.value? key = some value → p key value) {k : Bytes}
    {v : α} (hp : p k v) : ∀ key value, (c.insert k v).2.value? key = some value → p key value := by
  intro key value hvalue
  obtain ⟨rfl, rfl⟩ | hbefore := Lru.value?_of_insert hvalue
  · exact hp
  · exact h key value hbefore

theorem get (h : s.Every p) (hform : (Storable.form (α := α)).Exact) (k : κ) : (s.get k).2.Every p := by
  have hused : ∀ key value, (s.memory.get (StoreKey.encode k)).2.value? key = some value → p key value := by
    intro key value hvalue
    rw [Lru.value?_get] at hvalue
    exact h.memory key value hvalue
  obtain ⟨_, _, hget⟩ | ⟨value, _, hread, hget⟩ | ⟨_, _, hget⟩ := s.get_cases k
  · rw [hget]
    exact ⟨h.rows, hused⟩
  · rw [hget]
    exact ⟨h.rows, of_insert hused (h.of_readRow hform hread)⟩
  · rw [hget]
    exact ⟨h.rows, hused⟩

theorem put (h : s.Every p) {k : κ} {value : α} (hp : p (StoreKey.encode k) value) : (s.put k value).Every p :=
  ⟨h.rows.insert hp, of_insert h.memory hp⟩

theorem remove (h : s.Every p) (k : κ) : (s.remove k).2.Every p where
  rows := h.rows.erase _
  memory key value hvalue := by
    rw [KeyValueStore.remove, Lru.value?_remove] at hvalue
    split at hvalue
    · cases hvalue
    · exact h.memory key value hvalue

end Every

end ClassDeps.KeyValueStore
