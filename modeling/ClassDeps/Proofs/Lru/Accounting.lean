import ClassDeps.Proofs.Lru.Eviction
import ClassDeps.Proofs.Lru.Inclusion
import Mathlib.Algebra.GroupWithZero.Nat

/-!
# What a cache counts

The counts of a cache are an account of what was asked of it. Look-ups are hits or misses. A key that enters the cache
stays, or it is evicted, removed or cleared away later on, and each of these happens to it once: the keys that entered
are the entries together with those that left. An eviction makes room for one key that enters a full cache.

## Main definitions

* `Lru.Step`, `Lru.steps` — the operations of a run, each with the cache before and after it
* `Step.isLookUp`, `isHit`, `isEntry`, `isEviction`, `isRemoval`, `cleared` — what a step adds to the account

## Main statements

* `asked_onCache`, `Simulates.evictions_onCache`, `Simulates.size_onCache` — what one operation adds to the counts
* `Simulates.entered_run` — the balance of a run from any state
* `stats_run_balanced` — the counts of a run from a new cache
-/

namespace ClassDeps

namespace Recent

variable {κ α : Type} [DecidableEq κ] {l : Recent κ α} {k : κ} {v : α}

theorem length_without_of_lookup (hnodup : (l.map Prod.fst).Nodup) (h : l.lookup k = some v) :
    (without k l).length + 1 = l.length := by
  have hcount : (l.map Prod.fst).count k = 1 :=
    List.count_eq_one_of_mem hnodup (List.mem_map_of_mem (mem_of_lookup h))
  have hlength := length_without k l
  omega

theorem without_of_lookup (h : l.lookup k = none) : without k l = l :=
  without_of_notMem (notMem_keys_of_lookup h)

variable {capacity : Nat}

theorem length_insert_of_some (hle : l.length ≤ capacity) (hnodup : (l.map Prod.fst).Nodup) {old : α}
    (h : l.lookup k = some old) : (insert capacity k v l).2.length = l.length := by
  have hlength := length_without_of_lookup hnodup h
  rw [insert_snd (by omega) hle, push_of_lt (by omega), List.length_append, List.length_singleton, hlength]

/-- A new pair takes a free place, or that of the first pair. -/
theorem length_insert_of_none (hcapacity : 0 < capacity) (hle : l.length ≤ capacity) (h : l.lookup k = none) :
    (insert capacity k v l).2.length + (if l.length = capacity then 1 else 0) = l.length + 1 := by
  rw [insert_snd (by omega) hle, without_of_lookup h, length_push]
  by_cases hfull : l.length = capacity
  · rw [if_neg (by omega), if_pos hfull]
    omega
  · rw [if_pos (by omega), if_neg hfull]

theorem length_get (hnodup : (l.map Prod.fst).Nodup) : (get k l).2.length = l.length := by
  cases h : l.lookup k with
  | some v =>
    have hlength := length_without_of_lookup hnodup h
    rw [get, h, List.length_append, List.length_singleton, hlength]
  | none => rw [get_of_none h]

end Recent

namespace Lru

variable {κ α : Type} [Ord κ]

/-! ## Steps of a run -/

/-- An operation, its answer, and the cache before and after it. -/
structure Step (κ α : Type) [Ord κ] where
  before : Lru κ α
  operation : Operation κ α
  answer : Answer α
  after : Lru κ α

variable [DecidableEq κ]

namespace Step

variable (s : Step κ α)

def isLookUp : Bool :=
  match s.operation with
  | .get _ => true
  | _ => false

def isHit : Bool :=
  Lru.isHit (s.operation, s.answer)

/-- An insertion of a key that has no entry. -/
def isEntry : Bool :=
  match s.operation with
  | .insert k _ => !s.before.contains k
  | _ => false

/-- A key without an entry for a full cache; one without a capacity does not take it. -/
def isEviction : Bool :=
  s.isEntry && decide (0 < s.before.capacity ∧ s.before.size = s.before.capacity)

/-- A removal that gives a value back. -/
def isRemoval : Bool :=
  match s.operation, s.answer with
  | .remove _, .value (some _) => true
  | _, _ => false

/-- How many entries are cleared away. -/
def cleared : Nat :=
  match s.operation with
  | .clear => s.before.size
  | _ => 0

end Step

variable [Std.TransOrd κ] [Std.LawfulEqOrd κ]

def Operation.stepFrom (operation : Operation κ α) (c : Lru κ α) : Step κ α :=
  ⟨c, operation, (operation.onCache c).1, (operation.onCache c).2⟩

/-- The steps of a run. -/
def steps : List (Operation κ α) → Lru κ α → List (Step κ α)
  | [], _ => []
  | operation :: operations, c => operation.stepFrom c :: steps operations (operation.onCache c).2

variable {c d : Lru κ α} {uses : List (Use κ α)} {l : Recent κ α} {n : Nat}

theorem length_steps (operations : List (Operation κ α)) (c : Lru κ α) :
    (steps operations c).length = operations.length := by
  induction operations generalizing c with
  | nil => rfl
  | cons operation operations ih => exact congrArg (· + 1) (ih _)

theorem map_answer_steps (operations : List (Operation κ α)) (c : Lru κ α) :
    (steps operations c).map Step.answer = (run Operation.onCache operations c).1 := by
  induction operations generalizing c with
  | nil => rfl
  | cons operation operations ih => exact congrArg ((operation.onCache c).1 :: ·) (ih _)

/-- Every step starts from a cache of the same capacity that stands for a list. -/
theorem Simulates.of_mem_steps (h : c.Simulates l) {operations : List (Operation κ α)} {s : Step κ α}
    (hs : s ∈ steps operations c) :
    s = s.operation.stepFrom s.before ∧ s.before.capacity = c.capacity ∧ ∃ l', s.before.Simulates l' := by
  induction operations generalizing c l with
  | nil => cases hs
  | cons operation operations ih =>
    obtain rfl | hlater := List.mem_cons.1 hs
    · exact ⟨rfl, rfl, l, h⟩
    · obtain ⟨hstep, hcapacity, hlist⟩ := ih (h.step operation).2 hlater
      exact ⟨hstep, hcapacity.trans (capacity_onCache operation c), hlist⟩

/-! ## Look-ups -/

omit [Std.TransOrd κ] [Std.LawfulEqOrd κ] in
theorem misses_evict (c : Lru κ α) : c.evict.misses = c.misses := by
  unfold evict
  cases c.order.rows <;> rfl

omit [Std.TransOrd κ] [Std.LawfulEqOrd κ] in
theorem misses_makeRoom (steps : Nat) (c : Lru κ α) : (makeRoom steps c).misses = c.misses := by
  induction steps generalizing c with
  | zero => rfl
  | succ steps ih =>
    rw [makeRoom]
    split
    · rw [ih, misses_evict]
    · rfl

theorem misses_touch (c : Lru κ α) (k : κ) (update : α → α) : (c.touch k update).2.misses = c.misses := by
  rw [touch]
  cases c.entries.get? k <;> rfl

/-- Look-ups are counted as hits or as misses, and nothing else is. -/
theorem asked_onCache (operation : Operation κ α) (c : Lru κ α) :
    (operation.onCache c).2.hits + (operation.onCache c).2.misses =
      c.hits + c.misses + if (operation.stepFrom c).isLookUp then 1 else 0 := by
  cases operation with
  | insert k v =>
    have hhits : (c.insert k v).2.hits = c.hits := hits_onCache (.insert k v) c
    have hmisses : (c.insert k v).2.misses = c.misses := by
      by_cases hzero : c.capacity = 0
      · rw [insert_of_capacity_eq_zero hzero]
      · cases hk : c.value? k with
        | some old => rw [insert_of_value? hzero hk, misses_touch]
        | none =>
          rw [insert_of_contains_eq_false hzero ((c.value?_eq_none_iff k).1 hk)]
          exact misses_makeRoom _ _
    show (c.insert k v).2.hits + (c.insert k v).2.misses = c.hits + c.misses
    omega
  | get k =>
    have hhits := c.hits_touch k id
    have hmisses := c.misses_touch k id
    show (c.get k).2.hits + (c.get k).2.misses = c.hits + c.misses + 1
    rw [get]
    split <;> rename_i htouch <;> rw [htouch] at hhits hmisses <;> simp only at hhits hmisses ⊢ <;> omega
  | remove k =>
    show (c.remove k).2.hits + (c.remove k).2.misses = c.hits + c.misses
    rw [remove]
    cases c.entries.get? k <;> rfl
  | contains | clear => rfl

theorem asked_run (operations : List (Operation κ α)) (c : Lru κ α) :
    (run Operation.onCache operations c).2.hits + (run Operation.onCache operations c).2.misses =
      c.hits + c.misses + (steps operations c).countP Step.isLookUp := by
  induction operations generalizing c with
  | nil => rfl
  | cons operation operations ih =>
    have hstep := asked_onCache operation c
    have hrest := ih (operation.onCache c).2
    show (run Operation.onCache operations (operation.onCache c).2).2.hits +
      (run Operation.onCache operations (operation.onCache c).2).2.misses = _
    rw [steps, List.countP_cons]
    omega

theorem countP_isHit_steps (operations : List (Operation κ α)) (c : Lru κ α) :
    (steps operations c).countP Step.isHit =
      (operations.zip (run Operation.onCache operations c).1).countP isHit := by
  induction operations generalizing c with
  | nil => rfl
  | cons operation operations ih =>
    rw [steps, List.countP_cons, ih]
    show _ = ((operation, (operation.onCache c).1) ::
      operations.zip (run Operation.onCache operations (operation.onCache c).2).1).countP isHit
    rw [List.countP_cons]
    rfl

/-! ## Evictions -/

theorem evictions_touch (c : Lru κ α) (k : κ) (update : α → α) :
    (c.touch k update).2.evictions = c.evictions := by
  rw [touch]
  cases c.entries.get? k <;> rfl

omit [Std.TransOrd κ] in
/-- Each round of eviction is counted once. -/
theorem Evicts.evictions (h : Evicts n c d) (htimed : c.Timed uses) (hcapacity : 0 < c.capacity) :
    d.evictions = c.evictions + n := by
  induction h generalizing uses with
  | done => rfl
  | @again c d n hfull _ ih =>
    have hsize := htimed.size_eq
    cases uses with
    | nil =>
      rw [List.length_nil] at hsize
      omega
    | cons use rest =>
      have hround : c.evict.evictions = c.evictions + 1 := by rw [htimed.dropsOldest.result]
      have hrest := ih htimed.evict (by rwa [capacity_evict])
      omega

/-- A new key for a full cache costs one eviction, and nothing else does. -/
theorem Simulates.evictions_onCache (h : c.Simulates l) (operation : Operation κ α) :
    (operation.onCache c).2.evictions =
      c.evictions + if (operation.stepFrom c).isEviction then 1 else 0 := by
  cases operation with
  | insert k v =>
    show (c.insert k v).2.evictions = c.evictions +
      if !c.contains k && decide (0 < c.capacity ∧ c.size = c.capacity) then 1 else 0
    by_cases hzero : c.capacity = 0
    · rw [insert_of_capacity_eq_zero hzero]
      simp [hzero]
    · cases hk : c.value? k with
      | some old =>
        rw [insert_of_value? hzero hk, evictions_touch]
        simp [contains_eq, hk]
      | none =>
        have hnew := (c.value?_eq_none_iff k).1 hk
        obtain ⟨hle, uses, htimed, rfl⟩ := h
        rw [List.length_map] at hle
        have hpos : 0 < c.capacity := Nat.pos_of_ne_zero hzero
        have hloop := (htimed.ticked.evicts hpos hle).evictions htimed.ticked hpos
        rw [insert_of_contains_eq_false hzero hnew]
        show (makeRoom c.ticked.size c.ticked).evictions = _
        rw [hloop, hnew]
        simp only [Bool.not_false, Bool.true_and, hpos, true_and, decide_eq_true_eq]
        rfl
  | get k =>
    have hevictions := c.evictions_touch k id
    show (c.get k).2.evictions = c.evictions
    rw [Lru.get]
    split <;> rename_i htouch <;> rw [htouch] at hevictions <;> exact hevictions
  | remove k =>
    show (c.remove k).2.evictions = c.evictions
    rw [Lru.remove]
    cases c.entries.get? k <;> rfl
  | contains | clear => rfl

theorem Simulates.evictions_run (h : c.Simulates l) (operations : List (Operation κ α)) :
    (Lru.run Operation.onCache operations c).2.evictions =
      c.evictions + (steps operations c).countP Step.isEviction := by
  induction operations generalizing c l with
  | nil => rfl
  | cons operation operations ih =>
    have hstep := h.evictions_onCache operation
    have hrest := ih (h.step operation).2
    show (Lru.run Operation.onCache operations (operation.onCache c).2).2.evictions = _
    rw [steps, List.countP_cons]
    omega

/-- A step of a run adds an eviction if it brings a new key into a full cache, and nothing otherwise. -/
theorem Simulates.evictions_of_mem_steps (h : c.Simulates l) {operations : List (Operation κ α)} {s : Step κ α}
    (hs : s ∈ steps operations c) :
    s.after.evictions =
      s.before.evictions + if 0 < c.capacity ∧ s.isEntry ∧ s.before.size = c.capacity then 1 else 0 := by
  obtain ⟨hstep, hcapacity, l', hbefore⟩ := h.of_mem_steps hs
  have hone := hbefore.evictions_onCache s.operation
  rw [← hstep] at hone
  have hafter : s.after = (s.operation.onCache s.before).2 := congrArg Step.after hstep
  rw [hafter, hone, Step.isEviction, hcapacity]
  congr 1
  simp only [Bool.and_eq_true, decide_eq_true_eq]
  exact if_congr and_left_comm rfl rfl

theorem Simulates.countP_isEviction_of_capacity_eq_zero (h : c.Simulates l) (hzero : c.capacity = 0)
    (operations : List (Operation κ α)) : (steps operations c).countP Step.isEviction = 0 := by
  refine List.countP_eq_zero.2 fun s hs => ?_
  obtain ⟨-, hsame, -⟩ := h.of_mem_steps hs
  have hnone : s.before.capacity = 0 := hsame.trans hzero
  simp [Step.isEviction, hnone]

/-! ## Entries -/

omit [Std.TransOrd κ] [Std.LawfulEqOrd κ] in
theorem Simulates.nodup_keys (h : c.Simulates l) : (l.map Prod.fst).Nodup := by
  obtain ⟨-, uses, htimed, rfl⟩ := h
  rw [List.map_map]
  exact htimed.nodup_keys

omit [Std.TransOrd κ] in
theorem Simulates.size_eq (h : c.Simulates l) : c.size = l.length :=
  h.lists.size

/-- What enters in one operation and what was there before is what is there afterwards and what leaves. -/
theorem Simulates.size_onCache (h : c.Simulates l) (hcapacity : 0 < c.capacity) (operation : Operation κ α) :
    c.size + (if (operation.stepFrom c).isEntry then 1 else 0) =
      (operation.onCache c).2.size + (if (operation.stepFrom c).isEviction then 1 else 0) +
        (if (operation.stepFrom c).isRemoval then 1 else 0) + (operation.stepFrom c).cleared := by
  have hbefore := h.size_eq
  have hafter := (h.step operation).2.size_eq
  cases operation with
  | insert k v =>
    have hlist : (c.insert k v).2.size = (Recent.insert c.capacity k v l).2.length := hafter
    show c.size + (if !c.contains k then 1 else 0) = (c.insert k v).2.size +
      (if !c.contains k && decide (0 < c.capacity ∧ c.size = c.capacity) then 1 else 0)
    rw [contains_eq, ← h.lookup_eq, hlist, hbefore]
    cases hlookup : l.lookup k with
    | some old =>
      rw [Recent.length_insert_of_some h.1 h.nodup_keys hlookup]
      simp
    | none =>
      have hlength := Recent.length_insert_of_none (v := v) hcapacity h.1 hlookup
      simp only [Option.isSome_none, Bool.not_false, Bool.true_and, if_true, hcapacity, true_and, decide_eq_true_eq]
      omega
  | get k =>
    have hlist : (c.get k).2.size = (Recent.get k l).2.length := hafter
    show c.size = (c.get k).2.size
    rw [hlist, hbefore, Recent.length_get h.nodup_keys]
  | remove k =>
    have hanswer : (c.remove k).1 = l.lookup k := (h.remove k).1
    have hremoval : (Operation.stepFrom (.remove k) c).isRemoval = (l.lookup k).isSome := by
      show Step.isRemoval ⟨c, .remove k, .value (c.remove k).1, _⟩ = _
      rw [hanswer]
      cases l.lookup k <;> rfl
    rw [hremoval, hafter, hbefore]
    show l.length = (Recent.without k l).length + 0 + _ + 0
    cases hlookup : l.lookup k with
    | some v => exact (Recent.length_without_of_lookup h.nodup_keys hlookup).symm
    | none => rw [Recent.without_of_lookup hlookup]; rfl
  | contains k => rfl
  | clear =>
    rw [hafter]
    show c.size = 0 + 0 + 0 + c.size
    omega

/-- What enters in a run and what was there before is what is there afterwards and what left. -/
theorem Simulates.entered_run (h : c.Simulates l) (hcapacity : 0 < c.capacity) (operations : List (Operation κ α)) :
    c.size + c.evictions + (steps operations c).countP Step.isEntry =
      (Lru.run Operation.onCache operations c).2.size + (Lru.run Operation.onCache operations c).2.evictions +
        (steps operations c).countP Step.isRemoval + ((steps operations c).map Step.cleared).sum := by
  induction operations generalizing c l with
  | nil => rfl
  | cons operation operations ih =>
    have hevictions := h.evictions_onCache operation
    have hsize := h.size_onCache hcapacity operation
    have hrest := ih (h.step operation).2 (by rwa [capacity_onCache])
    show _ = (Lru.run Operation.onCache operations (operation.onCache c).2).2.size +
      (Lru.run Operation.onCache operations (operation.onCache c).2).2.evictions + _ + _
    rw [steps, List.countP_cons, List.countP_cons, List.map_cons, List.sum_cons]
    omega

/-! ## The account of a new cache -/

/-- After any operations on a new cache, hits and misses are the look-ups, and the hits are those that gave a value. With
a capacity, the keys that entered are the entries, the evictions, the removals that gave a value and what was cleared
away. An operation adds one to the evictions if it brings a new key into a full cache, and nothing otherwise; without a
capacity there are neither entries nor evictions. No count exceeds the number of operations. -/
theorem stats_run_balanced (capacity : Nat) (operations : List (Operation κ α)) :
    let made := steps operations (new capacity : Lru κ α)
    let stats := (run Operation.onCache operations (new capacity : Lru κ α)).2.stats
    made.map Step.answer = (run Operation.onCache operations (new capacity : Lru κ α)).1 ∧
      stats.hits + stats.misses = made.countP Step.isLookUp ∧ stats.hits = made.countP Step.isHit ∧
      (0 < capacity → made.countP Step.isEntry =
        stats.entries + stats.evictions + made.countP Step.isRemoval + (made.map Step.cleared).sum) ∧
      (∀ s ∈ made, s.after.evictions =
        s.before.evictions + if 0 < capacity ∧ s.isEntry ∧ s.before.size = capacity then 1 else 0) ∧
      (capacity = 0 → stats.entries = 0 ∧ stats.evictions = 0) ∧
      stats.hits + stats.misses ≤ operations.length ∧ stats.evictions ≤ operations.length := by
  intro made stats
  have hnew : (new capacity : Lru κ α).Simulates [] := .new capacity
  have hasked : stats.hits + stats.misses = 0 + made.countP Step.isLookUp := asked_run operations (new capacity)
  have hhits : stats.hits = 0 + _ := hits_run operations (new capacity)
  have hevictions : stats.evictions = 0 + made.countP Step.isEviction := hnew.evictions_run operations
  have hlength : made.length = operations.length := length_steps operations (new capacity)
  rw [Nat.zero_add] at hasked hhits hevictions
  refine ⟨map_answer_steps operations _, hasked, ?_, ?_, ?_, ?_, ?_, ?_⟩
  · rw [hhits]
    exact (countP_isHit_steps operations (new capacity)).symm
  · intro hpos
    have hentered : 0 + 0 + made.countP Step.isEntry = _ := hnew.entered_run hpos operations
    rw [Nat.zero_add] at hentered
    exact hentered
  · exact fun s hs => hnew.evictions_of_mem_steps hs
  · intro hzero
    obtain ⟨-, hcapacity, hlast⟩ := hnew.run operations
    have hsize : stats.entries = _ := hlast.size_eq
    have hle := hlast.1
    rw [hcapacity] at hle
    have hnone : (new capacity : Lru κ α).capacity = 0 := hzero
    exact ⟨by omega, hevictions.trans (hnew.countP_isEviction_of_capacity_eq_zero hzero operations)⟩
  · rw [hasked, ← hlength]
    exact List.countP_le_length
  · rw [hevictions, ← hlength]
    exact List.countP_le_length

/-- Five keys enter a cache for two: two are evicted, the first one of them when a third key enters, one is removed and
two are cleared away. A cache without a capacity has none of them. -/
theorem stats_run_balanced_cleared :
    let operations : List (Operation Nat Nat) :=
      [.insert 1 10, .insert 2 20, .get 1, .insert 3 30, .get 2, .insert 1 11, .remove 1, .remove 9, .insert 4 40,
        .insert 5 50, .clear]
    let made := steps operations (new 2)
    0 < 2 ∧ (run Operation.onCache operations (new 2)).2.stats = ⟨0, 2, 1, 1, 2⟩ ∧
      made.countP Step.isEntry = 0 + 2 + 1 + 2 ∧
      (∃ s ∈ made, s.before.evictions = 0 ∧ s.isEntry ∧ s.before.size = 2 ∧ s.after.evictions = 1) ∧
      (run Operation.onCache operations (new 0)).2.stats.evictions = 0 := by
  intro operations made
  obtain ⟨-, -, -, hentered, hevictions, -⟩ := stats_run_balanced 2 operations
  obtain ⟨-, -, -, -, -, hzero, -⟩ := stats_run_balanced 0 operations
  have hmem : made[3] ∈ made := List.getElem_mem _
  exact ⟨by decide, by decide, (hentered (by decide)).trans (by decide),
    ⟨made[3], hmem, by decide, by decide, by decide, (hevictions _ hmem).trans (by decide)⟩, (hzero rfl).2⟩

end Lru

end ClassDeps
