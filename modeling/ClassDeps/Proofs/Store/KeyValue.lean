import ClassDeps.Proofs.Json.Exact
import ClassDeps.Proofs.Key.Injective
import ClassDeps.Proofs.Lru.Values
import ClassDeps.Store.KeyValue

/-!
# What key-value stores keep

A store that is coherent holds nothing in memory that its rows do not hold, and its rows hold written values only.
All operations keep stores coherent. A value that was written is found as long as its document can be read or it
is still in memory.

## Main definitions

* `KeyValueStore.Coherent` — memory and rows agree
* `KeyValueStore.Holds` — what is stored under a key
* `KeyValueStore.Steps` — stores that come from each other by operations

## Main statements

* `Coherent.get`, `put`, `remove`, `ofRows` — operations keep stores coherent
* `Coherent.get_of_readRow` — a look-up gives what a readable row says
* `Holds.get_fst` — a look-up of a value that is stored
* `Steps.coherent`, `Steps.holds` — what sequences of operations keep
-/

namespace ClassDeps.KeyValueStore

variable {κ α : Type} [StoreKey κ] [Storable α]

/-- Whatever is in memory is also in the row of its key, rows hold written values, and a memory without capacity
holds nothing. -/
structure Coherent (s : KeyValueStore κ α) : Prop where
  row_of_memory : ∀ {key : Bytes} {value : α}, s.memory.value? key = some value →
    s.rows.get? key = some (Storable.form.toBytes value)
  written : ∀ {key bytes : Bytes}, s.rows.get? key = some bytes →
    ∃ value : α, bytes = Storable.form.toBytes value
  fits : s.memory.Fits

/-- What is stored under a key, and memory holds nothing else under it. -/
structure Holds (s : KeyValueStore κ α) (k : κ) (stored : Option α) : Prop where
  row : s.rows.get? (StoreKey.encode k) = stored.map Storable.form.toBytes
  eq_of_memory : ∀ {held : α}, s.memory.value? (StoreKey.encode k) = some held → stored = some held

/-! ## Rows -/

omit [StoreKey κ] in
theorem readRow_eq_none {s : KeyValueStore κ α} {key : Bytes} (h : s.rows.get? key = none) :
    s.readRow key = .ok none := by
  rw [readRow, h]

omit [StoreKey κ] in
theorem eq_none_of_readRow {s : KeyValueStore κ α} {key : Bytes} (h : s.readRow key = .ok none) :
    s.rows.get? key = none := by
  unfold readRow at h
  split at h
  · assumption
  · split at h <;> cases h

omit [StoreKey κ] in
/-- A row that can be read in one store can be so in every other one that has it. -/
theorem readRow_congr {s t : KeyValueStore κ α} {key : Bytes} {found : Option α}
    (hrow : t.rows.get? key = s.rows.get? key) (h : s.readRow key = .ok found) : t.readRow key = .ok found := by
  rw [readRow] at h ⊢
  rw [hrow]
  split at h
  · exact h
  · split at h
    · cases h
    · exact h

omit [StoreKey κ] in
theorem readRow_of_row {s : KeyValueStore κ α} (hform : (Storable.form (α := α)).Exact) {key : Bytes}
    {value : α} (h : s.rows.get? key = some (Storable.form.toBytes value)) :
    s.readRow key =
      if (Storable.form.write value).depth ≤ Json.depthLimit then .ok (some value)
      else .error (.value s.path) := by
  rw [readRow, h]
  simp only [hform.ofBytes?_toBytes]
  by_cases hdepth : (Storable.form.write value).depth ≤ Json.depthLimit
  · rw [if_pos hdepth, if_pos hdepth]
  · rw [if_neg hdepth, if_neg hdepth]

/-! ## Look-ups -/

/-- A look-up is answered from memory, or by the row, which is then kept in memory if it has a value. -/
theorem get_cases (s : KeyValueStore κ α) (k : κ) :
    (∃ value, s.memory.value? (StoreKey.encode k) = some value ∧
      s.get k = (.ok (some value), { s with memory := (s.memory.get (StoreKey.encode k)).2 })) ∨
    (∃ value, s.memory.value? (StoreKey.encode k) = none ∧
      s.readRow (StoreKey.encode k) = .ok (some value) ∧
      s.get k = (.ok (some value), { s with
        memory := ((s.memory.get (StoreKey.encode k)).2.insert (StoreKey.encode k) value).2 })) ∨
    (s.memory.value? (StoreKey.encode k) = none ∧
      (∀ value, s.readRow (StoreKey.encode k) ≠ .ok (some value)) ∧
      s.get k = (s.readRow (StoreKey.encode k),
        { s with memory := (s.memory.get (StoreKey.encode k)).2 })) := by
  have hfst := s.memory.get_fst (StoreKey.encode k)
  unfold get
  cases hmemory : s.memory.get (StoreKey.encode k) with
  | mk found memory =>
    rw [hmemory] at hfst
    rw [← hfst]
    cases found with
    | some value => exact .inl ⟨value, rfl, by simp [hmemory]⟩
    | none =>
      cases hread : s.readRow (StoreKey.encode k) with
      | error fault => exact .inr (.inr ⟨rfl, by simp, by simp [hmemory, hread]⟩)
      | ok found =>
        cases found with
        | none => exact .inr (.inr ⟨rfl, by simp, by simp [hmemory, hread]⟩)
        | some value => exact .inr (.inl ⟨value, rfl, rfl, by simp [hmemory, hread]⟩)

theorem rows_get (s : KeyValueStore κ α) (k : κ) : (s.get k).2.rows = s.rows := by
  obtain ⟨_, _, h⟩ | ⟨_, _, _, h⟩ | ⟨_, _, h⟩ := s.get_cases k <;> rw [h]

theorem path_get (s : KeyValueStore κ α) (k : κ) : (s.get k).2.path = s.path := by
  obtain ⟨_, _, h⟩ | ⟨_, _, _, h⟩ | ⟨_, _, h⟩ := s.get_cases k <;> rw [h]

/-- A value in memory is the answer, whatever the row. -/
theorem get_of_memory {s : KeyValueStore κ α} {k : κ} {value : α}
    (h : s.memory.value? (StoreKey.encode k) = some value) : (s.get k).1 = .ok (some value) := by
  obtain ⟨_, hmemory, hget⟩ | ⟨_, hmemory, _, _⟩ | ⟨hmemory, _, _⟩ := s.get_cases k
  · rw [hget, Option.some.inj (h.symm.trans hmemory)]
  · cases h.symm.trans hmemory
  · cases h.symm.trans hmemory

/-- Without a value in memory the row is the answer. -/
theorem get_of_memory_eq_none {s : KeyValueStore κ α} {k : κ}
    (h : s.memory.value? (StoreKey.encode k) = none) :
    (s.get k).1 = s.readRow (StoreKey.encode k) := by
  obtain ⟨_, hmemory, _⟩ | ⟨_, _, hread, hget⟩ | ⟨_, _, hget⟩ := s.get_cases k
  · cases h.symm.trans hmemory
  · rw [hget, hread]
  · rw [hget]

/-- A second look-up answers as the first one did. -/
theorem get_fst_again (s : KeyValueStore κ α) (k : κ) : ((s.get k).2.get k).1 = (s.get k).1 := by
  have hread : (s.get k).2.readRow (StoreKey.encode k) = s.readRow (StoreKey.encode k) := by
    rw [readRow, readRow, rows_get, path_get]
  obtain ⟨value, hmemory, hget⟩ | ⟨value, hmemory, hrow, hget⟩ | ⟨hmemory, -, hget⟩ := s.get_cases k
  · rw [hget]
    exact get_of_memory ((s.memory.value?_get _ _).trans hmemory)
  -- The value that was read is in memory now, or there is no room for it and the row is read again.
  · cases hagain : (s.get k).2.memory.value? (StoreKey.encode k) with
    | none => rw [get_of_memory_eq_none hagain, hread, hrow, hget]
    | some held =>
      rw [get_of_memory hagain, hget]
      rw [hget] at hagain
      rw [Lru.eq_of_insert (fun _ => (s.memory.value?_get _ _).trans hmemory) hagain]
  · have hagain : (s.get k).2.memory.value? (StoreKey.encode k) = none := by
      rw [hget]
      exact (s.memory.value?_get _ _).trans hmemory
    rw [get_of_memory_eq_none hagain, hread, hget]

omit [Storable α] in
theorem contains_eq_false_iff {s : KeyValueStore κ α} {k : κ} :
    s.contains k = false ↔
      s.memory.value? (StoreKey.encode k) = none ∧ s.rows.get? (StoreKey.encode k) = none := by
  simp [contains, Lru.contains_eq, Ordered.Map.contains]

/-- After a look-up that finds nothing the store contains nothing under the key. -/
theorem contains_of_get_eq_none {s : KeyValueStore κ α} {k : κ} (h : (s.get k).1 = .ok none) :
    (s.get k).2.contains k = false := by
  obtain ⟨_, _, hget⟩ | ⟨_, _, _, hget⟩ | ⟨hmemory, _, hget⟩ := s.get_cases k
  · rw [hget] at h
    cases h
  · rw [hget] at h
    cases h
  · rw [hget] at h ⊢
    refine contains_eq_false_iff.2 ⟨(s.memory.value?_get _ _).trans hmemory, ?_⟩
    exact eq_none_of_readRow h

omit [Storable α] in
theorem contains_remove (s : KeyValueStore κ α) (k : κ) : (s.remove k).2.contains k = false := by
  rw [contains_eq_false_iff, remove, Lru.value?_remove, Ordered.Map.get?_erase]
  simp

theorem get_remove (s : KeyValueStore κ α) (k : κ) : ((s.remove k).2.get k).1 = .ok none := by
  obtain ⟨hmemory, hrow⟩ := contains_eq_false_iff.1 (s.contains_remove k)
  rw [get_of_memory_eq_none hmemory, readRow_eq_none hrow]

/-- Removing a value leaves the others. -/
theorem get_remove_of_ne {s : KeyValueStore κ α} {k k' : κ} (hk : StoreKey.encode k ≠ StoreKey.encode k') :
    ((s.remove k').2.get k).1 = (s.get k).1 := by
  have hmemory : (s.remove k').2.memory.value? (StoreKey.encode k) = s.memory.value? (StoreKey.encode k) := by
    rw [remove, Lru.value?_remove, if_neg hk]
  have hread : (s.remove k').2.readRow (StoreKey.encode k) = s.readRow (StoreKey.encode k) := by
    rw [readRow, readRow, remove, Ordered.Map.get?_erase, if_neg hk]
  cases hvalue : s.memory.value? (StoreKey.encode k) with
  | none => rw [get_of_memory_eq_none (hmemory.trans hvalue), get_of_memory_eq_none hvalue, hread]
  | some value => rw [get_of_memory (hmemory.trans hvalue), get_of_memory hvalue]

theorem fits_get {s : KeyValueStore κ α} (h : s.memory.Fits) (k : κ) : (s.get k).2.memory.Fits := by
  have hused := h.get (StoreKey.encode k)
  obtain ⟨_, _, hget⟩ | ⟨value, _, _, hget⟩ | ⟨_, _, hget⟩ := s.get_cases k
  · rw [hget]
    exact hused
  · rw [hget]
    exact hused.insert (StoreKey.encode k) value
  · rw [hget]
    exact hused

theorem capacity_get (s : KeyValueStore κ α) (k : κ) :
    (s.get k).2.memory.capacity = s.memory.capacity := by
  obtain ⟨_, _, hget⟩ | ⟨value, _, _, hget⟩ | ⟨_, _, hget⟩ := s.get_cases k
  · rw [hget, Lru.capacity_get]
  · rw [hget, Lru.capacity_insert, Lru.capacity_get]
  · rw [hget, Lru.capacity_get]

/-- A value that was just stored is in memory if there is room for any. -/
theorem memory_contains_put {s : KeyValueStore κ α} (h : s.memory.capacity ≠ 0) (k : κ) (value : α) :
    (s.put k value).memory.contains (StoreKey.encode k) := by
  rw [Lru.contains_eq, put, Lru.value?_insert_self h]
  rfl

/-! ## Coherence -/

omit [StoreKey κ] in
theorem Coherent.ofRows {path : String} {capacity : Nat} {rows : Ordered.Map Bytes Bytes}
    (hwritten : ∀ {key bytes : Bytes}, rows.get? key = some bytes →
      ∃ value : α, bytes = Storable.form.toBytes value) :
    (KeyValueStore.ofRows path capacity rows : KeyValueStore κ α).Coherent where
  row_of_memory h := by simp [KeyValueStore.ofRows] at h
  written := hwritten
  fits := Lru.fits_new capacity

namespace Coherent

variable {s : KeyValueStore κ α}

omit [StoreKey κ] in
theorem useMemory (h : s.Coherent) (key : Bytes) :
    ({ s with memory := (s.memory.get key).2 } : KeyValueStore κ α).Coherent where
  row_of_memory hmemory := h.row_of_memory ((s.memory.value?_get key _).symm.trans hmemory)
  written := h.written
  fits := h.fits.get key

omit [StoreKey κ] in
/-- Storing a row and keeping its value in memory. -/
theorem insert (h : s.Coherent) (key : Bytes) (value : α) :
    ({ s with
      rows := s.rows.insert key (Storable.form.toBytes value)
      memory := (s.memory.insert key value).2 } : KeyValueStore κ α).Coherent where
  row_of_memory := by
    intro key' value' hmemory
    rw [Ordered.Map.get?_insert]
    by_cases hkey : key' = key
    · rw [hkey] at hmemory
      rw [if_pos hkey, Lru.eq_of_insert (h.fits · key) hmemory]
    · rw [if_neg hkey]
      exact h.row_of_memory (Lru.value?_of_insert_of_ne hkey hmemory)
  written := by
    intro key' bytes hrow
    rw [Ordered.Map.get?_insert] at hrow
    by_cases hkey : key' = key
    · rw [if_pos hkey] at hrow
      exact ⟨value, (Option.some.inj hrow).symm⟩
    · rw [if_neg hkey] at hrow
      exact h.written hrow
  fits := h.fits.insert key value

theorem put (h : s.Coherent) (k : κ) (value : α) : (s.put k value).Coherent :=
  h.insert (StoreKey.encode k) value

theorem remove (h : s.Coherent) (k : κ) : (s.remove k).2.Coherent where
  row_of_memory := by
    intro key value hmemory
    have hvalue := s.memory.value?_remove (StoreKey.encode k) key
    rw [KeyValueStore.remove, hvalue] at hmemory
    rw [KeyValueStore.remove, Ordered.Map.get?_erase]
    by_cases hkey : key = StoreKey.encode k
    · rw [if_pos hkey] at hmemory
      cases hmemory
    · rw [if_neg hkey] at hmemory ⊢
      exact h.row_of_memory hmemory
  written := by
    intro key bytes hrow
    rw [KeyValueStore.remove, Ordered.Map.get?_erase] at hrow
    by_cases hkey : key = StoreKey.encode k
    · rw [if_pos hkey] at hrow
      cases hrow
    · rw [if_neg hkey] at hrow
      exact h.written hrow
  fits := h.fits.remove (StoreKey.encode k)

/-- A look-up keeps a store coherent if a row that is read as a value is what is written of that value. -/
theorem get_of_row (h : s.Coherent) {k : κ}
    (hrow : ∀ {value : α}, s.readRow (StoreKey.encode k) = .ok (some value) →
      s.rows.get? (StoreKey.encode k) = some (Storable.form.toBytes value)) : (s.get k).2.Coherent := by
  obtain ⟨value, -, hget⟩ | ⟨value, -, hread, hget⟩ | ⟨-, -, hget⟩ := s.get_cases k
  · rw [hget]
    exact h.useMemory (StoreKey.encode k)
  · rw [hget]
    have hused := h.useMemory (StoreKey.encode k)
    -- Taking a row into memory is storing what is stored already, which `insert` covers.
    have hrows := Ordered.Map.insert_eq_self (hrow hread)
    have hinserted := hused.insert (StoreKey.encode k) value
    simp only [hrows] at hinserted
    exact hinserted
  · rw [hget]
    exact h.useMemory (StoreKey.encode k)

variable (hform : (Storable.form (α := α)).Exact)

include hform

omit [StoreKey κ] in
/-- A row that is read as a value is what is written of that value. -/
theorem row_of_readRow (h : s.Coherent) {key : Bytes} {value : α}
    (hread : s.readRow key = .ok (some value)) :
    s.rows.get? key = some (Storable.form.toBytes value) := by
  cases hrow : s.rows.get? key with
  | none =>
    rw [readRow_eq_none hrow] at hread
    cases hread
  | some bytes =>
    obtain ⟨original, rfl⟩ := h.written hrow
    rw [readRow_of_row hform hrow] at hread
    split at hread
    · cases hread
      rfl
    · cases hread

/-- What a look-up answers is what the row holds. -/
theorem row_of_get (h : s.Coherent) {k : κ} {found : Option α} (hget : (s.get k).1 = .ok found) :
    s.rows.get? (StoreKey.encode k) = found.map Storable.form.toBytes := by
  obtain ⟨value, hmemory, heq⟩ | ⟨value, -, hread, heq⟩ | ⟨-, hread, heq⟩ := s.get_cases k
  · rw [heq] at hget
    cases hget
    exact h.row_of_memory hmemory
  · rw [heq] at hget
    cases hget
    exact h.row_of_readRow hform hread
  · rw [heq] at hget
    cases found with
    | none => exact eq_none_of_readRow hget
    | some value => exact absurd hget (hread value)

/-- What a look-up answers is what is stored. -/
theorem holds_of_get (h : s.Coherent) {k : κ} {found : Option α} (hget : (s.get k).1 = .ok found) :
    s.Holds k found where
  row := h.row_of_get hform hget
  eq_of_memory hmemory := by
    rw [get_of_memory hmemory] at hget
    exact (Except.ok.inj hget).symm

/-- A row that can be read is the answer, be it in memory or not. -/
theorem get_of_readRow (h : s.Coherent) {k : κ} {found : Option α}
    (hread : s.readRow (StoreKey.encode k) = .ok found) : (s.get k).1 = .ok found := by
  cases hmemory : s.memory.value? (StoreKey.encode k) with
  | none => rw [get_of_memory_eq_none hmemory, hread]
  | some value =>
    rw [readRow_of_row hform (h.row_of_memory hmemory)] at hread
    rw [get_of_memory hmemory]
    split at hread
    · exact hread
    · cases hread

theorem get (h : s.Coherent) (k : κ) : (s.get k).2.Coherent :=
  h.get_of_row fun hread => h.row_of_readRow hform hread

end Coherent

/-! ## Stored values -/

namespace Holds

variable {s : KeyValueStore κ α} {k : κ} {value : α} {stored : Option α}

theorem get_fst_none (h : s.Holds k none) : (s.get k).1 = .ok none := by
  cases hmemory : s.memory.value? (StoreKey.encode k) with
  | none => rw [get_of_memory_eq_none hmemory, readRow_eq_none h.row]
  | some held => cases h.eq_of_memory hmemory

/-- A stored value is the answer if it is still in memory or its document keeps to the limit of readers. -/
theorem get_fst (h : s.Holds k (some value)) (hform : (Storable.form (α := α)).Exact) :
    (s.get k).1 =
      if (Storable.form.write value).depth ≤ Json.depthLimit ∨ s.memory.contains (StoreKey.encode k)
      then .ok (some value) else .error (.value s.path) := by
  rw [Lru.contains_eq]
  cases hmemory : s.memory.value? (StoreKey.encode k) with
  | none =>
    rw [get_of_memory_eq_none hmemory, readRow_of_row hform h.row]
    simp
  | some held =>
    rw [get_of_memory hmemory, h.eq_of_memory hmemory]
    simp

theorem ofRows_empty (path : String) (capacity : Nat) (k : κ) :
    (KeyValueStore.ofRows path capacity .empty : KeyValueStore κ α).Holds k none where
  row := rfl
  eq_of_memory hmemory := by simp [KeyValueStore.ofRows] at hmemory

theorem put (hfits : s.memory.Fits) (k : κ) (value : α) : (s.put k value).Holds k (some value) where
  row := by rw [KeyValueStore.put, Ordered.Map.get?_insert, if_pos rfl, Option.map_some]
  eq_of_memory hmemory := congrArg some (Lru.eq_of_insert (hfits · _) hmemory).symm

theorem put_of_ne (h : s.Holds k stored) {k' : κ} (hk : StoreKey.encode k ≠ StoreKey.encode k')
    (value' : α) : (s.put k' value').Holds k stored where
  row := by
    rw [KeyValueStore.put, Ordered.Map.get?_insert, if_neg hk]
    exact h.row
  eq_of_memory hmemory := h.eq_of_memory (Lru.value?_of_insert_of_ne hk hmemory)

theorem remove_of_ne (h : s.Holds k stored) {k' : κ} (hk : StoreKey.encode k ≠ StoreKey.encode k') :
    (s.remove k').2.Holds k stored where
  row := by
    rw [KeyValueStore.remove, Ordered.Map.get?_erase, if_neg hk]
    exact h.row
  eq_of_memory hmemory := by
    rw [KeyValueStore.remove, Lru.value?_remove, if_neg hk] at hmemory
    exact h.eq_of_memory hmemory

theorem reopen (h : s.Holds k stored) (capacity : Nat) :
    (KeyValueStore.ofRows s.path capacity s.rows : KeyValueStore κ α).Holds k stored where
  row := h.row
  eq_of_memory hmemory := by simp [KeyValueStore.ofRows] at hmemory

variable (hform : (Storable.form (α := α)).Exact)

include hform

theorem eq_of_readRow (h : s.Holds k stored) {value : α}
    (hread : s.readRow (StoreKey.encode k) = .ok (some value)) : stored = some value := by
  cases stored with
  | none =>
    rw [readRow_eq_none h.row] at hread
    cases hread
  | some stored =>
    rw [readRow_of_row hform h.row] at hread
    split at hread
    · exact Except.ok.inj hread
    · cases hread

/-- Values that look-ups take from rows into memory are the stored ones. -/
theorem get (h : s.Holds k stored) (k' : κ) : (s.get k').2.Holds k stored := by
  have hused {key : Bytes} {held : α}
      (hmemory : (s.memory.get key).2.value? (StoreKey.encode k) = some held) : stored = some held := by
    rw [Lru.value?_get] at hmemory
    exact h.eq_of_memory hmemory
  obtain ⟨_, -, hget⟩ | ⟨found, hnone, hread, hget⟩ | ⟨-, -, hget⟩ := s.get_cases k'
  · rw [hget]
    exact ⟨h.row, hused⟩
  · rw [hget]
    refine ⟨h.row, fun hmemory => ?_⟩
    by_cases hk : StoreKey.encode k = StoreKey.encode k'
    -- What was read from the row is what `stored` says, by the row.
    · rw [← hk] at hnone hread hmemory
      rw [Lru.eq_of_insert (fun _ => by rw [Lru.value?_get, hnone]) hmemory]
      exact h.eq_of_readRow hform hread
    · exact hused (Lru.value?_of_insert_of_ne hk hmemory)
  · rw [hget]
    exact ⟨h.row, hused⟩

end Holds

/-! ## Sequences of operations -/

/-- A store comes from another one by operations that write and remove values under some keys only. -/
inductive Steps (may : κ → Prop) : KeyValueStore κ α → KeyValueStore κ α → Prop where
  | refl (s : KeyValueStore κ α) : Steps may s s
  | get {s t : KeyValueStore κ α} (k : κ) : Steps may s t → Steps may s (t.get k).2
  | put {s t : KeyValueStore κ α} (k : κ) (value : α) : may k → Steps may s t → Steps may s (t.put k value)
  | remove {s t : KeyValueStore κ α} (k : κ) : may k → Steps may s t → Steps may s (t.remove k).2
  | reopen {s t : KeyValueStore κ α} (capacity : Nat) : Steps may s t →
    Steps may s (.ofRows t.path capacity t.rows)

namespace Steps

variable {may : κ → Prop} {s t : KeyValueStore κ α}

theorem coherent (hform : (Storable.form (α := α)).Exact) (h : Steps may s t) (hs : s.Coherent) :
    t.Coherent := by
  induction h with
  | refl => exact hs
  | get k _ ih => exact ih.get hform k
  | put k value _ _ ih => exact ih.put k value
  | remove k _ _ ih => exact ih.remove k
  | reopen capacity _ ih => exact .ofRows ih.written

/-- What is stored under a key that may not be written stays stored. -/
theorem holds [LawfulStoreKey κ] (hform : (Storable.form (α := α)).Exact) (h : Steps may s t) {k : κ}
    (hk : ¬may k) {stored : Option α} (hs : s.Holds k stored) : t.Holds k stored := by
  -- Rows are found by the bytes of their keys, so different keys must not be written alike.
  have hne {other : κ} (hother : may other) : StoreKey.encode k ≠ StoreKey.encode other := by
    intro heq
    rw [StoreKey.encode_eq_iff] at heq
    exact hk (heq ▸ hother)
  induction h with
  | refl => exact hs
  | get other _ ih => exact ih.get hform other
  | put other value' hother _ ih => exact ih.put_of_ne (hne hother) value'
  | remove other hother _ ih => exact ih.remove_of_ne (hne hother)
  | reopen capacity _ ih => exact ih.reopen capacity

theorem fits (h : Steps may s t) (hs : s.memory.Fits) : t.memory.Fits := by
  induction h with
  | refl => exact hs
  | get k _ ih => exact fits_get ih k
  | put k value _ _ ih => exact ih.insert (StoreKey.encode k) value
  | remove k _ _ ih => exact ih.remove (StoreKey.encode k)
  | reopen capacity _ _ => exact Lru.fits_new capacity

end Steps

end ClassDeps.KeyValueStore
