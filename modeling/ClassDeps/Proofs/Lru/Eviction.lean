import ClassDeps.Proofs.Lru.Recency

/-!
# Eviction ends

A new key enters a cache after as many rounds of eviction as make room for it. A round takes out the key of the first
tick of the index, so that it helps only if the index has a tick, and if that tick leads to an entry. Entries and index
are in such an agreement whatever was asked of the cache before: there is at most one round, which takes out the entry
that has waited longest, and the loop ends.

## Main definitions

* `Lru.Indexed` — entries and index are accounts of each other
* `Lru.Evicts` — the runs of the loop that makes room, with their number of rounds
* `Lru.DropsOldest` — one round takes out the entry that has waited longest
* `Lru.ticked`, `Lru.enter` — what an insertion does before and after the loop

## Main statements

* `Timed.indexed` — entries and index that list the same uses are accounts of each other
* `Evicts.unique`, `Evicts.makeRoom_eq` — the loop has one run at most, and making room is that run
* `Timed.evicts` — the loop ends after one round at most
* `run_indexed_and_evicts` — all states that operations on a new cache lead to
-/

namespace ClassDeps.Lru

variable {κ α : Type} [Ord κ] [DecidableEq κ] {c d d' : Lru κ α} {uses : List (Use κ α)} {use : Use κ α} {k : κ}
  {n n' : Nat}

/-! ## Entries and index -/

/-- Entries and index are accounts of each other. -/
structure Indexed (c : Lru κ α) : Prop where
  /-- The tick of the last use of an entry leads to its key. -/
  tick : ∀ {k : κ} {e : Entry α}, c.entries.get? k = some e → c.order.get? e.lastUse = some k
  /-- Every tick of the index is that of the last use of the entry of its key. -/
  entry : ∀ {tick : Nat} {k : κ}, c.order.get? tick = some k → ∃ e, c.entries.get? k = some e ∧ e.lastUse = tick
  /-- The index lists the ticks and keys of the entries, each once. -/
  rows : (c.entries.rows.map fun row => (row.2.lastUse, row.1)).Perm c.order.rows
  distinct : (c.entries.rows.map fun row => row.2.lastUse).Nodup
  le_clock : ∀ {k : κ} {e : Entry α}, c.entries.get? k = some e → e.lastUse ≤ c.clock
  size_le : c.size ≤ c.capacity

/-- The entry that a tick of the index leads to. -/
theorem Timed.entry_of_order (h : c.Timed uses) {tick : Nat} (hk : c.order.get? tick = some k) :
    ∃ e, c.entries.get? k = some e ∧ e.lastUse = tick := by
  rw [← Ordered.Map.mem_rows, h.order] at hk
  obtain ⟨use, huse, hrow⟩ := List.mem_map.1 hk
  obtain ⟨rfl, rfl⟩ := Prod.mk.inj hrow
  exact ⟨⟨use.value, use.tick⟩, h.entry.2 huse, rfl⟩

omit [DecidableEq κ] in
theorem nodup_ticks (c : Lru κ α) : (c.order.rows.map Prod.fst).Nodup := by
  rw [List.Nodup, List.pairwise_map]
  refine c.order.ascending.imp fun hlt heq => ?_
  have hle := Nat.compare_eq_lt.1 hlt
  omega

section

variable [Std.LawfulEqOrd κ]

theorem Timed.perm_rows (h : c.Timed uses) :
    (c.entries.rows.map fun row => (row.2.lastUse, row.1)).Perm c.order.rows := by
  have hkeys : ((c.entries.rows.map fun row => (row.2.lastUse, row.1)).map Prod.snd).Nodup := by
    rw [List.map_map, List.Nodup, List.pairwise_map]
    refine c.entries.ascending.imp fun {row other} hlt heq => ?_
    have hsame : compare row.1 other.1 = .eq := Std.LawfulEqOrd.compare_eq_iff_eq.2 heq
    exact nomatch hlt.symm.trans hsame
  refine (List.perm_ext_iff_of_nodup (.of_map _ hkeys) c.order.ascending.nodup).2 fun ⟨tick, k⟩ => ?_
  rw [List.mem_map, Ordered.Map.mem_rows]
  constructor
  · rintro ⟨⟨key, e⟩, hrow, hpair⟩
    obtain ⟨rfl, rfl⟩ := Prod.mk.inj hpair
    exact h.get?_order (h.entry.1 (Ordered.Map.mem_rows.1 hrow))
  · intro hk
    obtain ⟨e, hfound, rfl⟩ := h.entry_of_order hk
    exact ⟨(k, e), Ordered.Map.mem_rows.2 hfound, rfl⟩

/-- Entries and index that list the same uses are accounts of each other. -/
theorem Timed.indexed (h : c.Timed uses) (hle : uses.length ≤ c.capacity) : c.Indexed where
  tick hfound := h.get?_order (h.entry.1 hfound)
  entry := h.entry_of_order
  rows := h.perm_rows
  distinct := by
    have hnodup := (h.perm_rows.map Prod.fst).nodup_iff.2 c.nodup_ticks
    rw [List.map_map] at hnodup
    exact hnodup
  le_clock hfound := h.le_clock _ (h.entry.1 hfound)
  size_le := h.size_eq ▸ hle

theorem Simulates.indexed {l : Recent κ α} (h : c.Simulates l) : c.Indexed := by
  obtain ⟨hle, uses, htimed, rfl⟩ := h
  rw [List.length_map] at hle
  exact htimed.indexed hle

end

/-! ## The loop that makes room -/

/-- The runs of the loop that makes room: while there is none, there is a further round. Nothing bounds the rounds, and
where there is no run the loop does not end. -/
inductive Evicts : (rounds : Nat) → Lru κ α → Lru κ α → Prop where
  | done {c : Lru κ α} (h : c.size < c.capacity) : Evicts 0 c c
  | again {c d : Lru κ α} {n : Nat} (h : c.capacity ≤ c.size) (rest : Evicts n c.evict d) : Evicts (n + 1) c d

/-- One round takes out the entry that has waited longest, and its tick. -/
structure DropsOldest (c d : Lru κ α) (k : κ) (e : Entry α) : Prop where
  found : c.entries.get? k = some e
  oldest : ∀ {k' : κ} {e' : Entry α}, c.entries.get? k' = some e' → e.lastUse ≤ e'.lastUse
  result : d = { c with
    entries := c.entries.erase k
    order := c.order.erase e.lastUse
    evictions := c.evictions + 1 }
  size : d.size + 1 = c.size

namespace Evicts

theorem unique (h : Evicts n c d) (h' : Evicts n' c d') : n' = n ∧ d' = d := by
  induction h generalizing n' with
  | done hroom =>
    cases h' with
    | done => exact ⟨rfl, rfl⟩
    | again hfull => omega
  | again hfull _ ih =>
    cases h' with
    | done hroom => omega
    | again _ rest =>
      obtain ⟨rfl, rfl⟩ := ih rest
      exact ⟨rfl, rfl⟩

/-- Making room is the run of the loop, provided that the rounds suffice. -/
theorem makeRoom_eq (h : Evicts n c d) {steps : Nat} (hsteps : n ≤ steps) : makeRoom steps c = d := by
  induction h generalizing steps with
  | done hroom => exact makeRoom_of_lt hroom steps
  | again hfull _ ih =>
    obtain ⟨steps, rfl⟩ : ∃ m, steps = m + 1 := ⟨steps - 1, by omega⟩
    rw [makeRoom, if_pos hfull]
    exact ih (by omega)

end Evicts

variable [Std.LawfulEqOrd κ]

namespace Timed

/-- The first use of all is the one that a round takes out. -/
theorem dropsOldest (h : c.Timed (use :: uses)) : c.DropsOldest c.evict use.key ⟨use.value, use.tick⟩ where
  found := h.entry.2 List.mem_cons_self
  oldest := by
    intro k' e' hfound
    have hrows : c.order.rows = (use.tick, use.key) :: uses.map Use.row := h.order
    have hascending : Ordered.Ascending c.order.rows := c.order.ascending
    rw [hrows] at hascending
    obtain heq | hlater := List.mem_cons.1 (h.entry.1 hfound)
    · exact Nat.le_of_eq (congrArg Use.tick heq).symm
    · have hlt := (List.pairwise_cons.1 hascending).1 _ (List.mem_map_of_mem hlater)
      exact Nat.le_of_lt (Nat.compare_eq_lt.1 hlt)
  result := by
    have hrows : c.order.rows = (use.tick, use.key) :: uses.map Use.row := h.order
    rw [Lru.evict, hrows]
  size := by rw [h.size_eq, h.evict.size_eq, List.tail_cons, List.length_cons]

/-- The loop ends after one round at most, and a round is made in a full cache only. -/
theorem evicts (h : c.Timed uses) (hcapacity : 0 < c.capacity) (hle : uses.length ≤ c.capacity) :
    Evicts (if c.size = c.capacity then 1 else 0) c (Lru.makeRoom c.size c) := by
  have hsize := h.size_eq
  by_cases hfull : c.size = c.capacity
  · have hroom : c.evict.size < c.evict.capacity := by
      rw [h.evict.size_eq, capacity_evict, List.length_tail]
      omega
    have hevicts : Evicts 1 c c.evict := .again (Nat.le_of_eq hfull.symm) (.done hroom)
    rw [if_pos hfull, hevicts.makeRoom_eq (by omega)]
    exact hevicts
  · have hevicts : Evicts 0 c c := .done (by omega)
    rw [if_neg hfull, hevicts.makeRoom_eq (Nat.zero_le _)]
    exact hevicts

end Timed

/-! ## Insertions around the loop -/

/-- The next tick of the clock, as a look-up for a key without an entry takes it. -/
def ticked (c : Lru κ α) : Lru κ α :=
  { c with clock := c.clock + 1 }

variable [Std.TransOrd κ]

/-- A new entry, used at the next tick. -/
def enter (c : Lru κ α) (k : κ) (v : α) : Lru κ α :=
  { c with
    clock := c.clock + 1
    order := c.order.insert (c.clock + 1) k
    entries := c.entries.insert k ⟨v, c.clock + 1⟩ }

omit [Std.LawfulEqOrd κ] [Std.TransOrd κ] in
theorem value?_eq_none_iff (c : Lru κ α) (k : κ) : c.value? k = none ↔ c.contains k = false := by
  rw [contains_eq, Option.isSome_eq_false_iff, Option.isNone_iff_eq_none]

omit [Std.LawfulEqOrd κ] [Std.TransOrd κ] in
theorem Timed.ticked (h : c.Timed uses) : c.ticked.Timed uses :=
  ⟨h.order, h.entry, fun use huse => Nat.le_succ_of_le (h.le_clock use huse)⟩

theorem touch_of_contains_eq_false (hk : c.contains k = false) (update : α → α) :
    c.touch k update = (none, c.ticked) := by
  have hvalue := (c.value?_eq_none_iff k).2 hk
  rw [value?, Option.map_eq_none_iff] at hvalue
  rw [touch, hvalue]
  rfl

/-- A key that is there is used, and no room is made. -/
theorem insert_of_value? {old : α} (hcapacity : c.capacity ≠ 0) (hk : c.value? k = some old) (v : α) :
    c.insert k v = (some old, (c.touch k fun _ => v).2) := by
  have htouch : (c.touch k fun _ => v) = (some old, (c.touch k fun _ => v).2) :=
    Prod.ext ((c.touch_fst k fun _ => v).trans hk) rfl
  rw [insert, if_neg hcapacity, htouch]

/-- A new key enters after room was made. -/
theorem insert_of_contains_eq_false (hcapacity : c.capacity ≠ 0) (hk : c.contains k = false) (v : α) :
    c.insert k v = (none, (makeRoom c.size c.ticked).enter k v) := by
  rw [insert, if_neg hcapacity, touch_of_contains_eq_false hk]
  rfl

/-- In whatever state operations on a new cache leave it, entries and index are accounts of each other, with distinct
ticks that the clock has reached, and there are no more entries than the capacity allows. From there an insertion of a
new key makes one round of eviction in a full cache and none else, a round takes out the entry that has waited longest,
and no other run of the loop exists. Without a capacity, and for a key that is there, there is no loop. The clock
advances by two for each operation at most, so that fewer than `2 ^ 63` of them keep it below `2 ^ 64`. -/
theorem run_indexed_and_evicts (capacity : Nat) (operations : List (Operation κ α)) :
    let c := (run Operation.onCache operations (new capacity)).2
    c.Indexed ∧ c.capacity = capacity ∧ c.clock ≤ 2 * operations.length ∧
      (capacity = 0 → ∀ k v, c.insert k v = (none, c)) ∧
      (0 < capacity → ∀ k v old, c.value? k = some old → c.insert k v = (some old, (c.touch k fun _ => v).2)) ∧
      (0 < capacity → ∀ k v, c.contains k = false → ∃ rounds d,
        Evicts rounds c.ticked d ∧ (∀ rounds' d', Evicts rounds' c.ticked d' → rounds' = rounds ∧ d' = d) ∧
          rounds = (if c.size = capacity then 1 else 0) ∧
          (c.size = capacity → ∃ oldest e, DropsOldest c.ticked c.ticked.evict oldest e) ∧
          c.insert k v = (none, d.enter k v)) := by
  intro c
  obtain ⟨-, hcapacity, hsimulates⟩ := (Simulates.new (κ := κ) (α := α) capacity).run operations
  have hsame : c.capacity = capacity := hcapacity
  have hclock : c.clock ≤ 0 + 2 * operations.length := clock_run_le operations (new capacity)
  refine ⟨hsimulates.indexed, hsame, by omega, ?_, ?_, ?_⟩
  · intro hzero k v
    rw [insert, if_pos (hsame.trans hzero)]
  · intro hpos k v old hk
    exact insert_of_value? (by omega) hk v
  · intro hpos k v hk
    obtain ⟨hle, uses, htimed, huses⟩ := hsimulates
    rw [← huses, List.length_map] at hle
    have hloop : Evicts (if c.size = c.capacity then 1 else 0) c.ticked (makeRoom c.size c.ticked) :=
      htimed.ticked.evicts (show 0 < c.capacity by omega) hle
    rw [hsame] at hloop
    refine ⟨_, _, hloop, fun _ _ hother => hloop.unique hother, rfl, fun hfull => ?_,
      insert_of_contains_eq_false (by omega) hk v⟩
    -- A full cache of positive capacity accounts for a first use.
    have hsize : c.size = uses.length := htimed.size_eq
    cases uses with
    | nil => exact absurd (hsize.symm.trans hfull) (Nat.ne_of_lt hpos)
    | cons use rest => exact ⟨_, _, htimed.ticked.dropsOldest⟩

/-- After a use and a removal the cache is full again, and the key that was not used since gives way in one round. -/
theorem run_indexed_and_evicts_full :
    let c := (run Operation.onCache [.insert 1 10, .insert 2 20, .get 1, .insert 3 30, .remove 1, .insert 4 40]
      (new 2 : Lru Nat Nat)).2
    0 < 2 ∧ c.value? 4 = some 40 ∧ c.insert 4 41 = (some 40, (c.touch 4 fun _ => 41).2) ∧
      c.contains 5 = false ∧ c.size = 2 ∧ c.order.rows = [(7, 3), (9, 4)] ∧
      ∃ d, Evicts 1 c.ticked d ∧ c.insert 5 50 = (none, d.enter 5 50) ∧ d.order.rows = [(9, 4)] := by
  intro c
  obtain ⟨-, -, -, -, hpresent, habsent⟩ := run_indexed_and_evicts (κ := Nat) (α := Nat) 2
    [.insert 1 10, .insert 2 20, .get 1, .insert 3 30, .remove 1, .insert 4 40]
  have hvalue : c.value? 4 = some 40 := by decide
  have hnew : c.contains 5 = false := by decide
  obtain ⟨rounds, d, hloop, -, hrounds, -, hinsert⟩ := habsent (by decide) 5 50 hnew
  have hone : rounds = 1 := hrounds.trans (by decide)
  rw [hone] at hloop
  refine ⟨by decide, hvalue, hpresent (by decide) 4 41 40 hvalue, hnew, by decide, by decide, d, hloop, hinsert, ?_⟩
  rw [← hloop.makeRoom_eq (Nat.le_refl 1)]
  decide

end ClassDeps.Lru
