import ClassDeps.Proofs.Lru.Recency
import Mathlib.Data.List.Perm.Subperm

/-!
# A larger cache holds more

The same operations are done on two caches of different capacities. What the smaller one holds the larger one holds as
well, and in the same order: an entry that the larger one drops has waited longest of all, so that the smaller one has
dropped it before. The caches part, because a look-up that fails in the smaller one moves an entry of the larger one. What
carries the induction is that the larger one never has fewer free places than the smaller one.

## Main definitions

* `Recent.Within` — a list is a part of another one that has as many free places
* `Lru.Answer.Within` — an answer is another one, or says that there is nothing
* `Lru.isHit` — look-ups that find a value

## Main statements

* `Recent.Within.without`, `Within.push` — what every operation consists of
* `Recent.Within.step` — one operation on both lists
* `Lru.hits_run` — a cache counts the look-ups that find a value
* `Lru.run_within` — all sequences of operations on both caches
-/

namespace ClassDeps

namespace Recent

variable {κ α : Type} {capacity larger : Nat} {l m : Recent κ α} {k : κ} {v : α}

/-- A list of capacity `capacity` is a part of one of capacity `larger`, which has as many free places at least. -/
structure Within (capacity larger : Nat) (l m : Recent κ α) : Prop where
  sublist : l.Sublist m
  nodup : (m.map Prod.fst).Nodup
  length_le : l.length ≤ capacity
  room : capacity + m.length ≤ larger + l.length

namespace Within

theorem nil (h : capacity ≤ larger) : Within capacity larger ([] : Recent κ α) [] :=
  ⟨.refl _, List.nodup_nil, Nat.zero_le _, h⟩

theorem capacity_le (h : Within capacity larger l m) : capacity ≤ larger := by
  have hlength := h.sublist.length_le
  have hroom := h.room
  omega

theorem length_larger_le (h : Within capacity larger l m) : m.length ≤ larger := by
  have hlength := h.length_le
  have hroom := h.room
  omega

end Within

theorem push_of_lt (h : l.length < capacity) : push capacity k v l = l ++ [(k, v)] := by
  rw [push, if_pos h]

theorem length_push (capacity : Nat) (k : κ) (v : α) (l : Recent κ α) :
    (push capacity k v l).length = (if l.length < capacity then l.length else l.length - 1) + 1 := by
  rw [push, List.length_append, List.length_singleton]
  split
  · rfl
  · rw [List.length_tail]

theorem length_push_le (hcapacity : capacity ≠ 0) (h : l.length ≤ capacity) :
    (push capacity k v l).length ≤ capacity := by
  rw [length_push]
  split <;> omega

variable [DecidableEq κ]

/-! ## Look-ups and removals -/

theorem mem_of_lookup (h : l.lookup k = some v) : (k, v) ∈ l := by
  obtain ⟨before, later, hsplit, -⟩ := List.lookup_eq_some_iff.1 h
  rw [hsplit]
  exact List.mem_append_right _ List.mem_cons_self

/-- A key that stands in a list once is looked up there. -/
theorem lookup_of_mem (hnodup : (l.map Prod.fst).Nodup) (h : (k, v) ∈ l) : l.lookup k = some v := by
  cases hlookup : l.lookup k with
  | none =>
    have hne := List.lookup_eq_none_iff.1 hlookup _ h
    simp at hne
  | some w =>
    have hsame : (k, w) = (k, v) := List.inj_on_of_nodup_map hnodup (mem_of_lookup hlookup) h rfl
    rw [(Prod.mk.inj hsame).2]

theorem notMem_keys_of_lookup (h : l.lookup k = none) : k ∉ l.map Prod.fst := by
  intro hmem
  obtain ⟨pair, hpair, rfl⟩ := List.mem_map.1 hmem
  have hne := List.lookup_eq_none_iff.1 h pair hpair
  simp at hne

theorem notMem_keys_without (k : κ) (l : Recent κ α) : k ∉ (without k l).map Prod.fst := by
  intro hmem
  obtain ⟨pair, hpair, hkey⟩ := List.mem_map.1 hmem
  exact of_decide_eq_true (List.mem_filter.1 hpair).2 hkey

theorem without_of_notMem (h : k ∉ l.map Prod.fst) : without k l = l :=
  List.filter_eq_self.2 fun _ hpair => decide_eq_true fun hkey => h (hkey ▸ List.mem_map_of_mem hpair)

theorem without_cons (k : κ) (pair : κ × α) (l : Recent κ α) :
    without k (pair :: l) = if pair.1 = k then without k l else pair :: without k l := by
  rw [without, List.filter_cons]
  split <;> rename_i hkey <;> simp only [decide_eq_true_eq] at hkey <;> simp [hkey, without]

theorem length_without (k : κ) (l : Recent κ α) : (without k l).length + (l.map Prod.fst).count k = l.length := by
  induction l with
  | nil => rfl
  | cons pair l ih =>
    rw [without_cons, List.map_cons, List.count_cons, List.length_cons]
    by_cases hkey : pair.1 = k
    · simp only [hkey, if_true, beq_self_eq_true]
      omega
    · simp only [hkey, if_false, beq_iff_eq, List.length_cons]
      omega

theorem length_without_lt (h : l.lookup k = some v) : (without k l).length < l.length := by
  have hcount : 0 < (l.map Prod.fst).count k := List.count_pos_iff.2 (List.mem_map_of_mem (mem_of_lookup h))
  have hlength := length_without k l
  omega

/-- A value that is inserted enters after the former one was taken out. -/
theorem insert_snd (hcapacity : capacity ≠ 0) (h : l.length ≤ capacity) (k : κ) (v : α) :
    (insert capacity k v l).2 = push capacity k v (without k l) := by
  rw [insert, if_neg hcapacity]
  cases hlookup : l.lookup k with
  | none => rw [without_of_notMem (notMem_keys_of_lookup hlookup)]
  | some old => rw [push_of_lt (Nat.lt_of_lt_of_le (length_without_lt hlookup) h)]

theorem insert_fst (h : l.length ≤ capacity) (k : κ) (v : α) : (insert capacity k v l).1 = l.lookup k := by
  rw [insert]
  split
  · rename_i hzero
    have hl : l = [] := List.length_eq_zero_iff.1 (by omega)
    rw [hl]
    rfl
  · cases l.lookup k <;> rfl

theorem get_of_some (h : l.length ≤ capacity) (hlookup : l.lookup k = some v) :
    get k l = (some v, push capacity k v (without k l)) := by
  rw [get, hlookup, push_of_lt (Nat.lt_of_lt_of_le (length_without_lt hlookup) h)]

theorem get_of_none (hlookup : l.lookup k = none) : get k l = (none, l) := by
  rw [get, hlookup]

/-! ## A list within another one -/

namespace Within

theorem lookup (h : Within capacity larger l m) (hlookup : l.lookup k = some v) : m.lookup k = some v :=
  lookup_of_mem h.nodup (h.sublist.subset (mem_of_lookup hlookup))

/-- What is taken out of the part is taken out of the whole, which may have the key alone. -/
theorem without (h : Within capacity larger l m) (k : κ) :
    Within capacity larger (Recent.without k l) (Recent.without k m) where
  sublist := h.sublist.filter _
  nodup := h.nodup.sublist (List.filter_sublist.map Prod.fst)
  length_le := Nat.le_trans (List.length_filter_le _ _) h.length_le
  room := by
    have hcount : (l.map Prod.fst).count k ≤ (m.map Prod.fst).count k := (h.sublist.map Prod.fst).count_le k
    have hl := length_without k l
    have hm := length_without k m
    have hroom := h.room
    omega

omit [DecidableEq κ] in
/-- A pair enters both lists. Where the part has a free place, the whole has one; where it has none it drops its first
pair, which the whole may keep. -/
theorem push (h : Within capacity larger l m) (hcapacity : capacity ≠ 0) (hk : k ∉ m.map Prod.fst) (v : α) :
    Within capacity larger (Recent.push capacity k v l) (Recent.push larger k v m) := by
  have hroom := h.room
  have hlength := h.length_le
  have hlarger := h.length_larger_le
  have hcapacities := h.capacity_le
  have hkept : (if m.length < larger then m else m.tail).Sublist m := by
    split
    · exact .refl m
    · exact List.tail_sublist m
  have hkeys : ((if m.length < larger then m else m.tail).map Prod.fst).Sublist (m.map Prod.fst) := hkept.map Prod.fst
  refine ⟨?_, ?_, length_push_le hcapacity hlength, ?_⟩
  · refine List.Sublist.append ?_ (.refl _)
    by_cases hfree : l.length < capacity
    · rw [if_pos hfree, if_pos (by omega)]
      exact h.sublist
    · rw [if_neg hfree]
      split
      · exact (List.tail_sublist l).trans h.sublist
      · exact h.sublist.tail
  · rw [Recent.push, List.map_append, List.map_singleton]
    refine (h.nodup.sublist hkeys).append (List.nodup_singleton k) ?_
    rw [List.disjoint_singleton]
    exact fun hmem => hk (hkeys.subset hmem)
  · rw [length_push, length_push]
    split <;> split <;> omega

theorem insert (h : Within capacity larger l m) (k : κ) (v : α) :
    Within capacity larger (Recent.insert capacity k v l).2 (Recent.insert larger k v m).2 := by
  by_cases hcapacity : capacity = 0
  · have hl : l = [] := List.length_eq_zero_iff.1 (Nat.le_zero.1 (hcapacity ▸ h.length_le))
    by_cases hlarger : larger = 0
    · rw [Recent.insert, Recent.insert, if_pos hcapacity, if_pos hlarger]
      exact h
    · -- The larger list alone takes the value, and stays within its capacity.
      have hpush : Within larger larger (Recent.push larger k v (Recent.without k m))
          (Recent.push larger k v (Recent.without k m)) :=
        (Within.without ⟨.refl m, h.nodup, h.length_larger_le, Nat.le_refl _⟩ k).push hlarger
          (notMem_keys_without k m) v
      rw [Recent.insert, if_pos hcapacity, insert_snd hlarger h.length_larger_le, hl, hcapacity]
      refine ⟨List.nil_sublist _, hpush.nodup, Nat.zero_le _, ?_⟩
      rw [Nat.zero_add, List.length_nil]
      exact hpush.length_le
  · have hlarger : larger ≠ 0 := fun hzero => hcapacity (Nat.le_zero.1 (hzero ▸ h.capacity_le))
    rw [insert_snd hcapacity h.length_le, insert_snd hlarger h.length_larger_le]
    exact (h.without k).push hcapacity (notMem_keys_without k m) v

theorem get (h : Within capacity larger l m) (k : κ) :
    Within capacity larger (Recent.get k l).2 (Recent.get k m).2 := by
  cases hl : l.lookup k with
  | some v =>
    have hcapacity : capacity ≠ 0 := by
      have hlt := length_without_lt hl
      have hle := h.length_le
      omega
    rw [get_of_some h.length_le hl, get_of_some h.length_larger_le (h.lookup hl)]
    exact (h.without k).push hcapacity (notMem_keys_without k m) v
  | none =>
    rw [get_of_none hl]
    cases hm : m.lookup k with
    | none =>
      rw [get_of_none hm]
      exact h
    | some w =>
      -- Here the lists part: only the whole moves the pair, and the part has no such key.
      have hl' : Recent.without k l = l := without_of_notMem (notMem_keys_of_lookup hl)
      have hlength := length_without k m
      have hcount : (m.map Prod.fst).count k = 1 :=
        List.count_eq_one_of_mem h.nodup (List.mem_map_of_mem (mem_of_lookup hm))
      have hmoved := (Within.without ⟨.refl m, h.nodup, Nat.le_refl _, Nat.le_refl _⟩ k).push
        (by omega) (notMem_keys_without k m) w
      have hlt : (Recent.without k m).length < m.length := length_without_lt hm
      rw [push_of_lt hlt] at hmoved
      rw [get_of_some h.length_larger_le hm, push_of_lt (Nat.lt_of_lt_of_le hlt h.length_larger_le)]
      refine ⟨?_, hmoved.nodup, h.length_le, ?_⟩
      · have hpart : l.Sublist (Recent.without k m) := hl' ▸ h.sublist.filter _
        exact hpart.trans (List.sublist_append_left _ _)
      · have hroom := h.room
        change capacity + (Recent.without k m ++ [(k, w)]).length ≤ larger + l.length
        rw [List.length_append, List.length_singleton]
        omega

end Within

end Recent

namespace Lru

variable {κ α : Type}

/-- An answer of a cache that holds less: the same, or that there is nothing. -/
inductive Answer.Within : Answer α → Answer α → Prop where
  | same (answer : Answer α) : Within answer answer
  | missed (found : Option α) : Within (.value none) (.value found)
  | absent (found : Bool) : Within (.presence false) (.presence found)

theorem Answer.within_value {found found' : Option α} (h : ∀ v, found = some v → found' = some v) :
    Within (.value found) (.value found') := by
  cases found with
  | none => exact .missed found'
  | some v =>
    rw [h v rfl]
    exact .same _

/-- A look-up that finds a value. -/
def isHit : Operation κ α × Answer α → Bool
  | (.get _, .value (some _)) => true
  | _ => false

end Lru

namespace Recent.Within

variable {κ α : Type} [DecidableEq κ] {capacity larger : Nat} {l m : Recent κ α}

/-- One operation on both lists. -/
theorem step (h : Within capacity larger l m) (operation : Lru.Operation κ α) :
    (operation.onList capacity l).1.Within (operation.onList larger m).1 ∧
      Within capacity larger (operation.onList capacity l).2 (operation.onList larger m).2 := by
  have hvalue (k : κ) : Lru.Answer.Within (.value (l.lookup k)) (.value (m.lookup k)) :=
    Lru.Answer.within_value fun _ => h.lookup
  cases operation with
  | insert k v =>
    refine ⟨?_, h.insert k v⟩
    change Lru.Answer.Within (.value (Recent.insert capacity k v l).1) (.value (Recent.insert larger k v m).1)
    rw [insert_fst h.length_le, insert_fst h.length_larger_le]
    exact hvalue k
  | get k =>
    have hget (l : Recent κ α) : (Recent.get k l).1 = l.lookup k := by
      rw [Recent.get]
      cases l.lookup k <;> rfl
    refine ⟨?_, h.get k⟩
    change Lru.Answer.Within (.value (Recent.get k l).1) (.value (Recent.get k m).1)
    rw [hget, hget]
    exact hvalue k
  | contains k =>
    refine ⟨?_, h⟩
    change Lru.Answer.Within (.presence (l.lookup k).isSome) (.presence (m.lookup k).isSome)
    cases hl : l.lookup k with
    | none => exact .absent _
    | some v =>
      rw [h.lookup hl]
      exact .same _
  | remove k => exact ⟨hvalue k, h.without k⟩
  | clear => exact ⟨.same _, .nil h.capacity_le⟩

theorem run (h : Within capacity larger l m) (operations : List (Lru.Operation κ α)) :
    List.Forall₂ Lru.Answer.Within (Lru.run (Lru.Operation.onList capacity) operations l).1
        (Lru.run (Lru.Operation.onList larger) operations m).1 ∧
      Within capacity larger (Lru.run (Lru.Operation.onList capacity) operations l).2
        (Lru.run (Lru.Operation.onList larger) operations m).2 := by
  induction operations generalizing l m with
  | nil => exact ⟨.nil, h⟩
  | cons operation operations ih =>
    obtain ⟨hanswer, hafter⟩ := h.step operation
    obtain ⟨hanswers, hlast⟩ := ih hafter
    exact ⟨.cons hanswer hanswers, hlast⟩

/-- The keys of the part stand in the whole in the same order. -/
theorem filter_keys (h : Within capacity larger l m) :
    ((m.map Prod.fst).filter fun k => (l.lookup k).isSome) = l.map Prod.fst := by
  have hsome (l : Recent κ α) (hnodup : (l.map Prod.fst).Nodup) (k : κ) :
      (l.lookup k).isSome = true ↔ k ∈ l.map Prod.fst := by
    rw [List.mem_map, Option.isSome_iff_exists]
    exact ⟨fun ⟨v, hv⟩ => ⟨(k, v), mem_of_lookup hv, rfl⟩, fun ⟨pair, hpair, hkey⟩ =>
      ⟨pair.2, lookup_of_mem hnodup (hkey ▸ hpair)⟩⟩
  have hkeys : (l.map Prod.fst).Sublist (m.map Prod.fst) := h.sublist.map Prod.fst
  have hfilter := hsome l (h.nodup.sublist hkeys)
  have hpart : (l.map Prod.fst).Sublist ((m.map Prod.fst).filter fun k => (l.lookup k).isSome) := by
    have hsame : (l.map Prod.fst).filter (fun k => (l.lookup k).isSome) = l.map Prod.fst :=
      List.filter_eq_self.2 fun k hk => (hfilter k).2 hk
    rw [← hsame]
    exact hkeys.filter _
  -- There are no further keys, and none stands there twice.
  have hsubset : (m.map Prod.fst).filter (fun k => (l.lookup k).isSome) ⊆ l.map Prod.fst :=
    fun k hk => (hfilter k).1 (List.mem_filter.1 hk).2
  exact (hpart.eq_of_length_le ((h.nodup.filter _).subperm hsubset).length_le).symm

end Recent.Within

namespace Lru

variable {κ α : Type} [Ord κ] [DecidableEq κ]

/-! ## Counted look-ups -/

theorem hits_touch [Std.TransOrd κ] [Std.LawfulEqOrd κ] (c : Lru κ α) (k : κ) (update : α → α) :
    (c.touch k update).2.hits = c.hits := by
  unfold touch
  cases c.entries.get? k <;> rfl

theorem hits_evict (c : Lru κ α) : c.evict.hits = c.hits := by
  unfold evict
  cases c.order.rows <;> rfl

theorem hits_makeRoom (steps : Nat) (c : Lru κ α) : (makeRoom steps c).hits = c.hits := by
  induction steps generalizing c with
  | zero => rfl
  | succ steps ih =>
    unfold makeRoom
    split
    · rw [ih, hits_evict]
    · rfl

variable [Std.TransOrd κ] [Std.LawfulEqOrd κ]

/-- A cache counts a look-up that finds a value, and nothing else. -/
theorem hits_onCache (operation : Operation κ α) (c : Lru κ α) :
    (operation.onCache c).2.hits = c.hits + if isHit (operation, (operation.onCache c).1) then 1 else 0 := by
  cases operation with
  | insert k v =>
    have hhits := c.hits_touch k fun _ => v
    change (c.insert k v).2.hits = c.hits
    unfold insert
    split
    · rfl
    · split <;> rename_i htouch <;> rw [htouch] at hhits
      · exact hhits
      · exact (hits_makeRoom _ _).trans hhits
  | get k =>
    have hhits := c.hits_touch k id
    change (c.get k).2.hits = c.hits + if isHit (.get k, .value (c.get k).1) then 1 else 0
    unfold get
    split <;> rename_i htouch <;> rw [htouch] at hhits
    · exact congrArg (· + 1) hhits
    · exact hhits
  | remove k =>
    change (c.remove k).2.hits = c.hits
    unfold remove
    cases c.entries.get? k <;> rfl
  | contains | clear => rfl

theorem hits_run (operations : List (Operation κ α)) (c : Lru κ α) :
    (run Operation.onCache operations c).2.hits =
      c.hits + (operations.zip (run Operation.onCache operations c).1).countP isHit := by
  induction operations generalizing c with
  | nil => rfl
  | cons operation operations ih =>
    have hstep := hits_onCache operation c
    have hrest := ih (operation.onCache c).2
    change (run Operation.onCache operations (operation.onCache c).2).2.hits = c.hits +
      ((operation, (operation.onCache c).1) ::
        operations.zip (run Operation.onCache operations (operation.onCache c).2).1).countP isHit
    rw [hrest, hstep, List.countP_cons]
    omega

omit [Ord κ] [DecidableEq κ] [Std.TransOrd κ] [Std.LawfulEqOrd κ] in
/-- Where less is answered, fewer look-ups find a value. -/
theorem countP_isHit_le {answers answers' : List (Answer α)} (h : List.Forall₂ Answer.Within answers answers')
    (operations : List (Operation κ α)) :
    (operations.zip answers).countP isHit ≤ (operations.zip answers').countP isHit := by
  induction h generalizing operations with
  | nil => exact Nat.le_refl _
  | @cons answer answer' _ _ hanswer _ ih =>
    cases operations with
    | nil => exact Nat.le_refl _
    | cons operation operations =>
      have hfirst : isHit (operation, answer) = true → isHit (operation, answer') = true := by
        intro hhit
        cases hanswer with
        | same => exact hhit
        | missed | absent => cases operation <;> cases hhit
      have hone : (if isHit (operation, answer) then 1 else 0) ≤ if isHit (operation, answer') then 1 else 0 := by
        split
        · rename_i hhit
          exact Nat.le_of_eq (if_pos (hfirst hhit)).symm
        · exact Nat.zero_le _
      rw [List.zip_cons_cons, List.zip_cons_cons, List.countP_cons, List.countP_cons]
      exact Nat.add_le_add (ih operations) hone

/-! ## Two caches -/

/-- A cache with less room never does better. After any operations a larger one holds what it holds, with the same
values and in the same order, has answered whatever it has answered, and has found a value at least as often. The clocks
advance by two for each operation at most, so that fewer than `2 ^ 63` of them keep both below `2 ^ 64`. -/
theorem run_within {capacity larger : Nat} (h : capacity ≤ larger) (operations : List (Operation κ α)) :
    let small := run Operation.onCache operations (new capacity)
    let large := run Operation.onCache operations (new larger)
    List.Forall₂ Answer.Within small.1 large.1 ∧
      (∀ k v, small.2.value? k = some v → large.2.value? k = some v) ∧
      large.2.order.values.filter small.2.contains = small.2.order.values ∧
      small.2.hits ≤ large.2.hits ∧
      small.2.clock ≤ 2 * operations.length ∧ large.2.clock ≤ 2 * operations.length := by
  intro small large
  obtain ⟨hanswers, hwithin⟩ := (Recent.Within.nil (κ := κ) (α := α) h).run operations
  obtain ⟨hsmall, hlists, -, hclock⟩ := run_eq_recent (κ := κ) (α := α) capacity operations
  obtain ⟨hlarge, hlists', -, hclock'⟩ := run_eq_recent (κ := κ) (α := α) larger operations
  rw [← hsmall, ← hlarge] at hanswers
  refine ⟨hanswers, fun k v hvalue => ?_, ?_, ?_, hclock, hclock'⟩
  · rw [hlists.value?] at hvalue
    rw [hlists'.value?]
    exact hwithin.lookup hvalue
  · have hcontains : small.2.contains =
        fun k => ((run (Operation.onList capacity) operations []).2.lookup k).isSome :=
      funext fun k => (small.2.contains_eq k).trans (congrArg Option.isSome (hlists.value? k))
    have horder : small.2.order.values = _ := hlists.order
    have horder' : large.2.order.values = _ := hlists'.order
    rw [hcontains, horder, horder']
    exact hwithin.filter_keys
  · have hhits : small.2.hits = 0 + _ := hits_run operations (new capacity)
    have hhits' : large.2.hits = 0 + _ := hits_run operations (new larger)
    rw [hhits, hhits', Nat.zero_add, Nat.zero_add]
    exact countP_isHit_le hanswers operations

/-- The larger one of two caches finds a value that the smaller one has dropped, and keeps it in the stead of another
one, which the smaller one has dropped as well. -/
theorem run_within_refreshed :
    let operations : List (Operation Nat Nat) :=
      [.insert 1 10, .insert 2 20, .get 1, .insert 3 30, .get 1, .contains 2]
    1 ≤ 2 ∧ (run Operation.onCache operations (new 1)).1 =
        [.value none, .value none, .value none, .value none, .value none, .presence false] ∧
      (run Operation.onCache operations (new 2)).1 =
        [.value none, .value none, .value (some 10), .value none, .value (some 10), .presence false] ∧
      (run Operation.onCache operations (new 2)).2.order.values = [3, 1] ∧
      (run Operation.onCache operations (new 2)).2.order.values.filter
        (run Operation.onCache operations (new 1)).2.contains = [3] := by
  intro operations
  obtain ⟨-, -, horder, -⟩ := run_within (show 1 ≤ 2 by decide) operations
  exact ⟨by decide, by decide, by decide, by decide, horder.trans (by decide)⟩

end Lru

end ClassDeps
