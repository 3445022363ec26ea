import ClassDeps.Lru

/-!
# Values in a cache of recently used values

What an operation does to the values that a cache holds, whatever it does to the order of their uses. A cache may
forget values when it makes room; it never makes up or changes one.

## Main definitions

* `Lru.value?` — the value under a key, as a view that is no use of it
* `Lru.Fits` — a cache without capacity is empty

## Main statements

* `Lru.get_fst`, `Lru.value?_get` — a look-up gives the value and keeps all values
* `Lru.value?_insert_self`, `Lru.value?_of_insert_of_ne` — an insertion keeps, changes or forgets a value
* `Lru.value?_remove` — a removal takes one value out
-/

namespace ClassDeps.Lru

variable {κ α : Type} [Ord κ] [DecidableEq κ]

/-- The value under a key. -/
def value? (c : Lru κ α) (k : κ) : Option α :=
  (c.entries.get? k).map Entry.value

/-- A cache without capacity holds nothing. -/
def Fits (c : Lru κ α) : Prop :=
  c.capacity = 0 → ∀ k, c.value? k = none

@[simp] theorem value?_new (capacity : Nat) (k : κ) : (new capacity : Lru κ α).value? k = none := rfl

theorem fits_new (capacity : Nat) : (new capacity : Lru κ α).Fits :=
  fun _ _ => rfl

theorem contains_eq (c : Lru κ α) (k : κ) : c.contains k = (c.value? k).isSome := by
  simp [contains, Ordered.Map.contains, value?]

/-! ## Removals and evictions -/

theorem capacity_evict (c : Lru κ α) : c.evict.capacity = c.capacity := by
  unfold evict
  cases c.order.rows <;> rfl

@[simp] theorem capacity_remove (c : Lru κ α) (k : κ) : (c.remove k).2.capacity = c.capacity := by
  unfold remove
  cases c.entries.get? k <;> rfl

theorem capacity_makeRoom (steps : Nat) (c : Lru κ α) : (makeRoom steps c).capacity = c.capacity := by
  induction steps generalizing c with
  | zero => rfl
  | succ steps ih =>
    unfold makeRoom
    split
    · rw [ih, capacity_evict]
    · rfl

variable [Std.LawfulEqOrd κ]

theorem value?_remove (c : Lru κ α) (k a : κ) :
    (c.remove k).2.value? a = if a = k then none else c.value? a := by
  unfold remove
  cases hentry : c.entries.get? k with
  | none =>
    by_cases ha : a = k
    · simp [value?, hentry, ha]
    · simp [ha]
  | some entry =>
    by_cases ha : a = k
    · simp [value?, ha, Ordered.Map.get?_erase]
    · simp [value?, ha, Ordered.Map.get?_erase]

theorem Fits.remove {c : Lru κ α} (h : c.Fits) (k : κ) : (c.remove k).2.Fits := by
  intro hcapacity a
  rw [capacity_remove] at hcapacity
  rw [value?_remove, h hcapacity, ite_self]

theorem value?_of_evict {c : Lru κ α} {k : κ} {v : α} (h : c.evict.value? k = some v) :
    c.value? k = some v := by
  unfold evict at h
  split at h
  · exact h
  · rename_i key _ _
    by_cases hk : k = key
    · simp [value?, Ordered.Map.get?_erase, hk] at h
    · simpa [value?, Ordered.Map.get?_erase, hk] using h

theorem value?_of_makeRoom {steps : Nat} {c : Lru κ α} {k : κ} {v : α}
    (h : (makeRoom steps c).value? k = some v) : c.value? k = some v := by
  induction steps generalizing c with
  | zero => exact h
  | succ steps ih =>
    unfold makeRoom at h
    split at h
    · exact value?_of_evict (ih h)
    · exact h

/-! ## Look-ups -/

variable [Std.TransOrd κ]

theorem touch_fst (c : Lru κ α) (k : κ) (update : α → α) : (c.touch k update).1 = c.value? k := by
  unfold touch value?
  cases c.entries.get? k <;> rfl

theorem capacity_touch (c : Lru κ α) (k : κ) (update : α → α) :
    (c.touch k update).2.capacity = c.capacity := by
  unfold touch
  cases c.entries.get? k <;> rfl

theorem value?_touch (c : Lru κ α) (k : κ) (update : α → α) (a : κ) :
    (c.touch k update).2.value? a = if a = k then (c.value? k).map update else c.value? a := by
  unfold touch
  cases hentry : c.entries.get? k with
  | none =>
    by_cases ha : a = k
    · simp [value?, hentry, ha]
    · simp [value?, ha]
  | some entry =>
    by_cases ha : a = k
    · simp [value?, hentry, ha, Ordered.Map.get?_insert]
    · simp [value?, ha, Ordered.Map.get?_insert]

theorem get_fst (c : Lru κ α) (k : κ) : (c.get k).1 = c.value? k := by
  have hfst := c.touch_fst k id
  unfold get
  split <;> simp_all

theorem value?_get (c : Lru κ α) (k a : κ) : (c.get k).2.value? a = c.value? a := by
  have hvalues := c.value?_touch k id a
  have hsame : (if a = k then (c.value? k).map id else c.value? a) = c.value? a := by
    by_cases ha : a = k <;> simp [ha]
  rw [hsame] at hvalues
  rw [← hvalues]
  unfold get
  split <;> rename_i htouch <;> rw [htouch] <;> rfl

@[simp] theorem capacity_get (c : Lru κ α) (k : κ) : (c.get k).2.capacity = c.capacity := by
  have hcapacity := c.capacity_touch k id
  unfold get
  split <;> rename_i htouch <;> rw [htouch] at hcapacity <;> exact hcapacity

theorem Fits.get {c : Lru κ α} (h : c.Fits) (k : κ) : (c.get k).2.Fits := by
  intro hcapacity a
  rw [capacity_get] at hcapacity
  rw [value?_get, h hcapacity]

/-! ## Insertions -/

@[simp] theorem capacity_insert (c : Lru κ α) (k : κ) (v : α) : (c.insert k v).2.capacity = c.capacity := by
  have hcapacity := c.capacity_touch k fun _ => v
  unfold insert
  split
  · rfl
  · split <;> rename_i htouch <;> rw [htouch] at hcapacity
    · exact hcapacity
    · exact (capacity_makeRoom _ _).trans hcapacity

theorem value?_insert_self {c : Lru κ α} (hcapacity : c.capacity ≠ 0) (k : κ) (v : α) :
    (c.insert k v).2.value? k = some v := by
  have hfst := c.touch_fst k fun _ => v
  have hvalue := c.value?_touch k (fun _ => v) k
  rw [insert, if_neg hcapacity]
  split
  -- A key that is there is updated in its place; a new one enters after room was made, and is not evicted.
  · rename_i old after htouch
    rw [htouch] at hfst hvalue
    rw [hvalue, if_pos rfl, ← hfst, Option.map_some]
  · simp [value?, Ordered.Map.get?_insert]

theorem insert_of_capacity_eq_zero {c : Lru κ α} (hcapacity : c.capacity = 0) (k : κ) (v : α) :
    (c.insert k v).2 = c := by
  rw [insert, if_pos hcapacity]

/-- What a cache holds under another key after an insertion was there before. -/
theorem value?_of_insert_of_ne {c : Lru κ α} {k a : κ} {v w : α} (ha : a ≠ k)
    (h : (c.insert k v).2.value? a = some w) : c.value? a = some w := by
  by_cases hcapacity : c.capacity = 0
  · rwa [insert_of_capacity_eq_zero hcapacity] at h
  · have hvalue := c.value?_touch k (fun _ => v) a
    rw [if_neg ha] at hvalue
    rw [insert, if_neg hcapacity] at h
    split at h
    · rename_i htouch
      rw [htouch] at hvalue
      exact hvalue.symm.trans h
    · rename_i after htouch
      rw [htouch] at hvalue
      have hrest : (makeRoom after.size after).value? a = some w := by
        simpa [value?, Ordered.Map.get?_insert, ha] using h
      exact hvalue.symm.trans (value?_of_makeRoom hrest)

/-- What a cache holds after an insertion is the new value, or was there before. -/
theorem value?_of_insert {c : Lru κ α} {k a : κ} {v w : α} (h : (c.insert k v).2.value? a = some w) :
    (a = k ∧ w = v) ∨ c.value? a = some w := by
  by_cases ha : a = k
  · subst ha
    by_cases hcapacity : c.capacity = 0
    · rw [insert_of_capacity_eq_zero hcapacity] at h
      exact .inr h
    · rw [value?_insert_self hcapacity] at h
      exact .inl ⟨rfl, (Option.some.inj h).symm⟩
  · exact .inr (value?_of_insert_of_ne ha h)

/-- What a cache holds under the key of an insertion afterwards is the new value. -/
theorem eq_of_insert {c : Lru κ α} {k : κ} {v w : α} (h : c.capacity = 0 → c.value? k = none)
    (hvalue : (c.insert k v).2.value? k = some w) : w = v := by
  by_cases hcapacity : c.capacity = 0
  · rw [insert_of_capacity_eq_zero hcapacity, h hcapacity] at hvalue
    cases hvalue
  · rw [value?_insert_self hcapacity] at hvalue
    exact (Option.some.inj hvalue).symm

theorem Fits.insert {c : Lru κ α} (h : c.Fits) (k : κ) (v : α) : (c.insert k v).2.Fits := by
  intro hcapacity a
  rw [capacity_insert] at hcapacity
  rw [insert_of_capacity_eq_zero hcapacity, h hcapacity]

end ClassDeps.Lru
