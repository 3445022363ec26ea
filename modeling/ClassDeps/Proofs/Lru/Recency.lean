import ClassDeps.Proofs.Lru.Values
import Mathlib.Data.List.Nodup

/-!
# What is dropped: the least recently used value

A cache of recently used values behaves as the list of its keys and values in the order of their last use. Ticks and
the index by ticks are an account of that order: each entry stands in the index under the tick of its last use, and
every new tick is later than all of them.

## Main definitions

* `Recent` — keys and values in the order of their last use, with the operations of a cache
* `Lru.Operation`, `Lru.Answer` — what is asked of a cache, and what it answers
* `Lru.Timed` — entries and index agree with a list of uses
* `Lru.Simulates` — a cache stands for a list
* `Lru.Lists` — what a cache holds is what a list holds

## Main statements

* `Timed.put`, `Timed.drop`, `Timed.makeRoom` — updates of entries and index as updates of the list
* `Simulates.step` — one operation answers alike and keeps the simulation
* `run_eq_recent` — all sequences of operations do, and the size never exceeds the capacity
-/

namespace ClassDeps

/-- Keys and values in the order of their last use, the least recently used first. -/
abbrev Recent (κ α : Type) :=
  List (κ × α)

namespace Recent

variable {κ α : Type} [DecidableEq κ]

/-- The list without a key. -/
def without (k : κ) (l : Recent κ α) : Recent κ α :=
  l.filter fun pair => pair.1 ≠ k

/-- The list with a value at the most recent end, without the first pair if it is full. -/
def push (capacity : Nat) (k : κ) (v : α) (l : Recent κ α) : Recent κ α :=
  (if l.length < capacity then l else l.tail) ++ [(k, v)]

/-- Replaces the value of a key, or adds a new one; either is the most recent use. -/
def insert (capacity : Nat) (k : κ) (v : α) (l : Recent κ α) : Option α × Recent κ α :=
  if capacity = 0 then (none, l)
  else
    match l.lookup k with
    | some old => (some old, without k l ++ [(k, v)])
    | none => (none, push capacity k v l)

/-- The value under a key, which moves to the most recent end. -/
def get (k : κ) (l : Recent κ α) : Option α × Recent κ α :=
  match l.lookup k with
  | some v => (some v, without k l ++ [(k, v)])
  | none => (none, l)

end Recent

namespace Lru

variable {κ α : Type}

/-- What is asked of a cache. -/
inductive Operation (κ α : Type) where
  | insert (k : κ) (v : α)
  | get (k : κ)
  | contains (k : κ)
  | remove (k : κ)
  | clear

/-- What a cache answers: a value, whether there is one, or nothing. -/
inductive Answer (α : Type) where
  | value (found : Option α)
  | presence (found : Bool)
  | done
  deriving DecidableEq

/-- An operation on a list of capacity `capacity`. -/
def Operation.onList [DecidableEq κ] (capacity : Nat) :
    Operation κ α → Recent κ α → Answer α × Recent κ α
  | insert k v, l => (Recent.insert capacity k v l).map .value id
  | get k, l => (Recent.get k l).map .value id
  | contains k, l => (.presence (l.lookup k).isSome, l)
  | remove k, l => (.value (l.lookup k), Recent.without k l)
  | clear, _ => (.done, [])

/-- An operation on a cache. -/
def Operation.onCache [Ord κ] [Std.TransOrd κ] [Std.LawfulEqOrd κ] [DecidableEq κ] :
    Operation κ α → Lru κ α → Answer α × Lru κ α
  | insert k v, c => (c.insert k v).map .value id
  | get k, c => (c.get k).map .value id
  | contains k, c => (.presence (c.contains k), c)
  | remove k, c => (c.remove k).map .value id
  | clear, c => (.done, c.clear)

/-- What a sequence of operations answers, and what is left. -/
def run {σ : Type} (step : Operation κ α → σ → Answer α × σ) :
    List (Operation κ α) → σ → List (Answer α) × σ
  | [], s => ([], s)
  | operation :: operations, s =>
    let (answer, s) := step operation s
    let (answers, s) := run step operations s
    (answer :: answers, s)

/-- The use of an entry that was last. -/
structure Use (κ α : Type) where
  tick : Nat
  key : κ
  value : α

/-- A use as a row of the index by ticks. -/
def Use.row (use : Use κ α) : Nat × κ :=
  (use.tick, use.key)

/-- A use as a pair of the list by recency. -/
def Use.pair (use : Use κ α) : κ × α :=
  (use.key, use.value)

variable [Ord κ] [DecidableEq κ] {c : Lru κ α} {uses : List (Use κ α)} {use other : Use κ α} {k : κ} {v : α}

/-- The index lists some uses in their order, the entries are these uses, and no tick is yet to come. -/
structure Timed (c : Lru κ α) (uses : List (Use κ α)) : Prop where
  order : c.order.rows = uses.map Use.row
  entry : ∀ {k : κ} {e : Entry α}, c.entries.get? k = some e ↔ ⟨e.lastUse, k, e.value⟩ ∈ uses
  le_clock : ∀ use ∈ uses, use.tick ≤ c.clock

namespace Timed

/-! ## Uses -/

theorem new (capacity : Nat) : (Lru.new capacity : Lru κ α).Timed [] where
  order := rfl
  entry := by simp [Lru.new]
  le_clock := List.forall_mem_nil _

theorem get?_order (h : c.Timed uses) (huse : use ∈ uses) : c.order.get? use.tick = some use.key := by
  rw [← Ordered.Map.mem_rows, h.order]
  exact List.mem_map_of_mem huse

/-- A key was used last once. -/
theorem eq_of_key (h : c.Timed uses) (huse : use ∈ uses) (hother : other ∈ uses) (hkey : other.key = use.key) :
    other = use := by
  have hfound := h.entry (e := ⟨use.value, use.tick⟩).2 huse
  have hfound' := h.entry (e := ⟨other.value, other.tick⟩).2 hother
  rw [hkey, hfound] at hfound'
  cases use
  cases other
  simp_all

/-- At a tick there was one use. -/
theorem eq_of_tick (h : c.Timed uses) (huse : use ∈ uses) (hother : other ∈ uses)
    (htick : other.tick = use.tick) : other = use := by
  have hfound := h.get?_order huse
  have hfound' := h.get?_order hother
  rw [htick, hfound] at hfound'
  exact h.eq_of_key huse hother (Option.some.inj hfound').symm

theorem nodup (h : c.Timed uses) : uses.Nodup := by
  have hrows := c.order.ascending.nodup
  rw [h.order] at hrows
  exact List.Nodup.of_map Use.row hrows

theorem nodup_keys (h : c.Timed uses) : (uses.map Use.key).Nodup := by
  rw [List.Nodup, List.pairwise_map]
  exact h.nodup.imp_of_mem fun ha hb hne hkey => hne (h.eq_of_key hb ha hkey)

/-- The value under a key is that of its last use. -/
theorem value?_eq_some_iff (h : c.Timed uses) : c.value? k = some v ↔ ∃ use ∈ uses, use.pair = (k, v) := by
  rw [value?, Option.map_eq_some_iff]
  constructor
  · rintro ⟨e, hfound, rfl⟩
    exact ⟨_, h.entry.1 hfound, rfl⟩
  · rintro ⟨use, huse, hpair⟩
    obtain ⟨rfl, rfl⟩ := Prod.mk.inj hpair
    exact ⟨⟨use.value, use.tick⟩, h.entry.2 huse, rfl⟩

theorem lookup_eq (h : c.Timed uses) (k : κ) : (uses.map Use.pair).lookup k = c.value? k := by
  cases hlookup : (uses.map Use.pair).lookup k with
  | none =>
    refine (Option.eq_none_iff_forall_ne_some.2 fun v hvalue => ?_).symm
    obtain ⟨use, huse, hpair⟩ := h.value?_eq_some_iff.1 hvalue
    have hne := List.lookup_eq_none_iff.1 hlookup _ (List.mem_map_of_mem huse)
    rw [hpair] at hne
    simp at hne
  | some v =>
    obtain ⟨before, later, hsplit, -⟩ := List.lookup_eq_some_iff.1 hlookup
    have hmem : (k, v) ∈ uses.map Use.pair := by
      rw [hsplit]
      exact List.mem_append_right _ List.mem_cons_self
    obtain ⟨use, huse, hpair⟩ := List.mem_map.1 hmem
    exact (h.value?_eq_some_iff.2 ⟨use, huse, hpair⟩).symm

/-- A key without a value has no use. -/
theorem filter_of_value?_eq_none (h : c.Timed uses) (hk : c.value? k = none) :
    uses.filter (·.key ≠ k) = uses := by
  refine List.filter_eq_self.2 fun use huse => decide_eq_true fun hkey => ?_
  have hvalue := h.value?_eq_some_iff.2 ⟨use, huse, rfl⟩
  rw [hkey, hk] at hvalue
  cases hvalue

/-- Without the tick of a use the index lists the uses of other keys. -/
theorem rows_erase (h : c.Timed uses) (huse : use ∈ uses) :
    (c.order.erase use.tick).rows = (uses.filter (·.key ≠ use.key)).map Use.row := by
  have hsame : ∀ other ∈ uses, (other.tick != use.tick) = decide (other.key ≠ use.key) := by
    intro other hother
    have htick : other.tick = use.tick ↔ other.key = use.key := by
      refine ⟨fun htick => ?_, fun hkey => ?_⟩
      · rw [h.eq_of_tick huse hother htick]
      · rw [h.eq_of_key huse hother hkey]
    rw [bne, Bool.beq_eq_decide_eq, ← decide_not]
    exact decide_eq_decide.2 (not_congr htick)
  show c.order.rows.filter (fun row => row.1 != use.tick) = _
  rw [h.order, List.filter_map, ← List.filter_congr hsame]
  rfl

variable [Std.LawfulEqOrd κ]

/-- Without the entry of a use and its tick the uses of other keys are left. -/
theorem drop (h : c.Timed uses) (huse : use ∈ uses) :
    ({ c with entries := c.entries.erase use.key, order := c.order.erase use.tick } : Lru κ α).Timed
      (uses.filter (·.key ≠ use.key)) where
  order := h.rows_erase huse
  entry := by
    intro k e
    rw [Ordered.Map.get?_erase, List.mem_filter, ← h.entry]
    by_cases hk : k = use.key
    · simp [hk]
    · simp [hk]
  le_clock other hother := h.le_clock other (List.mem_of_mem_filter hother)

/-- The first use is evicted. -/
theorem evict (h : c.Timed uses) : c.evict.Timed uses.tail := by
  cases uses with
  | nil =>
    have hrows : c.order.rows = [] := h.order
    rw [Lru.evict, hrows]
    exact h
  | cons use rest =>
    have hrows : c.order.rows = (use.tick, use.key) :: rest.map Use.row := h.order
    have hdrop := h.drop List.mem_cons_self
    have hrest : (use :: rest).filter (·.key ≠ use.key) = rest := by
      have hkeys := (List.nodup_cons.1 h.nodup_keys).1
      rw [List.filter_cons_of_neg (by simp), List.filter_eq_self]
      exact fun other hother => decide_eq_true fun hkey => hkeys (hkey ▸ List.mem_map_of_mem hother)
    rw [hrest] at hdrop
    rw [Lru.evict, hrows]
    exact ⟨hdrop.order, hdrop.entry, hdrop.le_clock⟩

/-- The entries are the uses in another order. -/
theorem perm_entries (h : c.Timed uses) :
    (c.entries.rows.map fun row => (row.1, row.2.value)).Perm (uses.map Use.pair) := by
  let use (row : κ × Entry α) : Use κ α := ⟨row.2.lastUse, row.1, row.2.value⟩
  have hinjective : Function.Injective use := by
    intro ⟨k, value, tick⟩ ⟨k', value', tick'⟩ heq
    simp only [use, Use.mk.injEq] at heq
    obtain ⟨rfl, rfl, rfl⟩ := heq
    rfl
  have hperm : (c.entries.rows.map use).Perm uses := by
    refine (List.perm_ext_iff_of_nodup (c.entries.ascending.nodup.map hinjective) h.nodup).2 fun u => ?_
    rw [List.mem_map]
    constructor
    · rintro ⟨⟨k, e⟩, hrow, rfl⟩
      exact h.entry.1 (Ordered.Map.mem_rows.1 hrow)
    · intro hu
      exact ⟨(u.key, ⟨u.value, u.tick⟩), Ordered.Map.mem_rows.2 (h.entry.2 hu), rfl⟩
  have hpairs := hperm.map Use.pair
  rw [List.map_map] at hpairs
  exact hpairs

theorem size_eq (h : c.Timed uses) : c.size = uses.length := by
  have hlength := h.perm_entries.length_eq
  rw [List.length_map, List.length_map] at hlength
  exact hlength

variable [Std.TransOrd κ]

/-- A use at the next tick is the last one of all, and the only one of its key. -/
theorem put (h : c.Timed uses) {order : Ordered.Map Nat κ}
    (horder : order.rows = (uses.filter (·.key ≠ k)).map Use.row) (v : α) :
    ({ c with
      clock := c.clock + 1
      entries := c.entries.insert k ⟨v, c.clock + 1⟩
      order := order.insert (c.clock + 1) k } : Lru κ α).Timed
        (uses.filter (·.key ≠ k) ++ [⟨c.clock + 1, k, v⟩]) where
  order := by
    have hlater : ∀ row ∈ order.rows, compare row.1 (c.clock + 1) = .lt := by
      intro row hrow
      rw [horder] at hrow
      obtain ⟨use, huse, rfl⟩ := List.mem_map.1 hrow
      have htick := h.le_clock use (List.mem_of_mem_filter huse)
      exact Nat.compare_eq_lt.2 (Nat.lt_succ_of_le htick)
    show Ordered.insertRow (c.clock + 1) k order.rows = _
    rw [Ordered.insertRow_of_lt hlater, horder, List.map_append]
    rfl
  entry := by
    intro a e
    rw [Ordered.Map.get?_insert, List.mem_append, List.mem_filter, List.mem_singleton, Use.mk.injEq, ← h.entry]
    by_cases ha : a = k
    · cases e
      simp [ha, eq_comm, and_comm]
    · simp [ha]
  le_clock := by
    intro use huse
    rw [List.mem_append, List.mem_singleton] at huse
    obtain huse | rfl := huse
    · have htick := h.le_clock use (List.mem_of_mem_filter huse)
      show use.tick ≤ c.clock + 1
      omega
    · exact Nat.le_refl _

/-- A use of a key that is there. -/
theorem touch (h : c.Timed uses) (hk : c.value? k = some v) (update : α → α) :
    (c.touch k update).2.Timed (uses.filter (·.key ≠ k) ++ [⟨c.clock + 1, k, update v⟩]) := by
  obtain ⟨e, hfound, rfl⟩ := Option.map_eq_some_iff.1 hk
  have hput := h.put (h.rows_erase (h.entry.1 hfound)) (update e.value)
  rw [Lru.touch, hfound]
  exact hput

end Timed

/-! ## Making room -/

theorem makeRoom_of_lt (h : c.size < c.capacity) (steps : Nat) : makeRoom steps c = c := by
  cases steps with
  | zero => rfl
  | succ steps => rw [makeRoom, if_neg (Nat.not_le_of_lt h)]

theorem clock_evict (c : Lru κ α) : c.evict.clock = c.clock := by
  unfold evict
  cases c.order.rows <;> rfl

theorem clock_makeRoom (steps : Nat) (c : Lru κ α) : (makeRoom steps c).clock = c.clock := by
  induction steps generalizing c with
  | zero => rfl
  | succ steps ih =>
    unfold makeRoom
    split
    · rw [ih, clock_evict]
    · rfl

/-- At most one use is evicted, and only if there is no room for a further one. -/
theorem Timed.makeRoom [Std.LawfulEqOrd κ] (h : c.Timed uses) (hcapacity : c.capacity ≠ 0)
    (hle : uses.length ≤ c.capacity) :
    (Lru.makeRoom c.size c).Timed (if uses.length < c.capacity then uses else uses.tail) := by
  have hsize := h.size_eq
  by_cases hroom : uses.length < c.capacity
  · rw [if_pos hroom, makeRoom_of_lt (hsize ▸ hroom)]
    exact h
  · obtain ⟨n, hn⟩ : ∃ n, c.size = n + 1 := ⟨c.size - 1, by omega⟩
    have hevicted : c.evict.size < c.evict.capacity := by
      rw [h.evict.size_eq, capacity_evict, List.length_tail]
      omega
    rw [if_neg hroom, hn, Lru.makeRoom, if_pos (by omega), makeRoom_of_lt hevicted]
    exact h.evict

/-! ## The simulation -/

/-- A cache stands for a list if the list holds the keys and values of the uses that the cache accounts for. -/
def Simulates (c : Lru κ α) (l : Recent κ α) : Prop :=
  l.length ≤ c.capacity ∧ ∃ uses : List (Use κ α), c.Timed uses ∧ uses.map Use.pair = l

omit [Ord κ] in
theorem map_pair_filter (uses : List (Use κ α)) (k : κ) :
    (uses.filter (·.key ≠ k)).map Use.pair = Recent.without k (uses.map Use.pair) := by
  rw [Recent.without, List.filter_map]
  rfl

/-- A cache holds the pairs of a list, and its index has their keys in the same order. -/
structure Lists (c : Lru κ α) (l : Recent κ α) : Prop where
  entries : (c.entries.rows.map fun row => (row.1, row.2.value)).Perm l
  value? : ∀ k, c.value? k = l.lookup k
  order : c.order.values = l.map Prod.fst
  size : c.size = l.length

namespace Simulates

variable {l : Recent κ α}

theorem new (capacity : Nat) : (Lru.new capacity : Lru κ α).Simulates [] :=
  ⟨Nat.zero_le _, [], .new capacity, rfl⟩

theorem lookup_eq (h : c.Simulates l) (k : κ) : l.lookup k = c.value? k := by
  obtain ⟨-, uses, htimed, rfl⟩ := h
  exact htimed.lookup_eq k

theorem lists [Std.LawfulEqOrd κ] (h : c.Simulates l) : c.Lists l where
  value? k := (h.lookup_eq k).symm
  entries := by
    obtain ⟨-, uses, htimed, rfl⟩ := h
    exact htimed.perm_entries
  order := by
    obtain ⟨-, uses, htimed, rfl⟩ := h
    rw [Ordered.Map.values, htimed.order, List.map_map, List.map_map]
    rfl
  size := by
    obtain ⟨-, uses, htimed, rfl⟩ := h
    rw [htimed.size_eq, List.length_map]

theorem clear (c : Lru κ α) : c.clear.Simulates [] := by
  have hempty : (Lru.new c.capacity : Lru κ α).Timed [] := .new c.capacity
  exact ⟨Nat.zero_le _, [], ⟨hempty.order, hempty.entry, List.forall_mem_nil _⟩, rfl⟩

variable [Std.LawfulEqOrd κ]

theorem remove (h : c.Simulates l) (k : κ) :
    (c.remove k).1 = l.lookup k ∧ (c.remove k).2.Simulates (Recent.without k l) := by
  rw [h.lookup_eq]
  obtain ⟨hle, uses, htimed, rfl⟩ := h
  have hlength : (Recent.without k (uses.map Use.pair)).length ≤ c.capacity :=
    Nat.le_trans (List.length_filter_le _ _) hle
  rw [Lru.remove, value?]
  cases hfound : c.entries.get? k with
  | none =>
    have hvalue : c.value? k = none := by rw [value?, hfound, Option.map_none]
    refine ⟨rfl, hlength, uses, htimed, ?_⟩
    rw [← map_pair_filter, htimed.filter_of_value?_eq_none hvalue]
  | some e =>
    have hdrop := htimed.drop (htimed.entry.1 hfound)
    exact ⟨rfl, hlength, _, hdrop, map_pair_filter uses k⟩

variable [Std.TransOrd κ]

/-- A use of a key that is there moves it to the most recent end. -/
theorem touch (h : c.Simulates l) (hk : c.value? k = some v) (update : α → α) :
    (c.touch k update).2.Simulates (Recent.without k l ++ [(k, update v)]) := by
  obtain ⟨hle, uses, htimed, rfl⟩ := h
  obtain ⟨use, huse, hpair⟩ := htimed.value?_eq_some_iff.1 hk
  have hkey : use.key = k := congrArg Prod.fst hpair
  have hfewer : (uses.filter (·.key ≠ k)).length < uses.length :=
    List.length_filter_lt_length_iff_exists.2 ⟨use, huse, by simp [hkey]⟩
  rw [List.length_map] at hle
  refine ⟨?_, _, htimed.touch hk update, ?_⟩
  · rw [← map_pair_filter, capacity_touch, List.length_append, List.length_map, List.length_singleton]
    omega
  · rw [List.map_append, map_pair_filter]
    rfl

/-- A use of a key that is not there takes a tick and changes nothing. -/
theorem touch_of_value?_eq_none (h : c.Simulates l) (hk : c.value? k = none) (update : α → α) :
    (c.touch k update).2.Simulates l := by
  obtain ⟨hle, uses, htimed, hl⟩ := h
  rw [value?, Option.map_eq_none_iff] at hk
  rw [Lru.touch, hk]
  exact ⟨hle, uses, ⟨htimed.order, htimed.entry, fun use huse => Nat.le_succ_of_le (htimed.le_clock use huse)⟩, hl⟩

theorem get (h : c.Simulates l) (k : κ) :
    (c.get k).1 = (Recent.get k l).1 ∧ (c.get k).2.Simulates (Recent.get k l).2 := by
  have hfst := c.touch_fst k id
  rw [Recent.get, h.lookup_eq, Lru.get]
  cases hk : c.value? k with
  | none =>
    obtain ⟨hle, uses, htimed, hl⟩ := h.touch_of_value?_eq_none hk id
    have htouch : c.touch k id = (none, (c.touch k id).2) := Prod.ext (hfst.trans hk) rfl
    rw [htouch]
    exact ⟨rfl, hle, uses, ⟨htimed.order, htimed.entry, htimed.le_clock⟩, hl⟩
  | some v =>
    obtain ⟨hle, uses, htimed, hl⟩ := h.touch hk id
    have htouch : c.touch k id = (some v, (c.touch k id).2) := Prod.ext (hfst.trans hk) rfl
    rw [htouch]
    exact ⟨rfl, hle, uses, ⟨htimed.order, htimed.entry, htimed.le_clock⟩, hl⟩

/-- A new key enters after the least recently used one was dropped from a full cache. -/
theorem push (h : c.Simulates l) (hcapacity : c.capacity ≠ 0) (hk : c.value? k = none) (v : α) :
    ({ makeRoom c.size c with
      clock := (makeRoom c.size c).clock + 1
      order := (makeRoom c.size c).order.insert ((makeRoom c.size c).clock + 1) k
      entries := (makeRoom c.size c).entries.insert k ⟨v, (makeRoom c.size c).clock + 1⟩ } :
        Lru κ α).Simulates (Recent.push c.capacity k v l) := by
  obtain ⟨hle, uses, htimed, rfl⟩ := h
  have hroom := htimed.makeRoom hcapacity (by rwa [List.length_map] at hle)
  have hvacant : (makeRoom c.size c).value? k = none :=
    Option.eq_none_iff_forall_ne_some.2 fun w hw => nomatch hk.symm.trans (value?_of_makeRoom hw)
  have hothers := hroom.filter_of_value?_eq_none hvacant
  have hput := hroom.put (k := k) (hothers.symm ▸ hroom.order) v
  refine ⟨?_, _, hput, ?_⟩
  · show (Recent.push c.capacity k v (uses.map Use.pair)).length ≤ (makeRoom c.size c).capacity
    rw [capacity_makeRoom, Recent.push, List.length_append, List.length_singleton]
    split
    · omega
    · rw [List.length_tail]
      omega
  · rw [hothers, Recent.push, List.map_append, List.length_map]
    split
    · rfl
    · rw [List.map_tail]
      rfl

theorem insert (h : c.Simulates l) (k : κ) (v : α) :
    (c.insert k v).1 = (Recent.insert c.capacity k v l).1 ∧
      (c.insert k v).2.Simulates (Recent.insert c.capacity k v l).2 := by
  have hfst := c.touch_fst k fun _ => v
  have hcapacity := c.capacity_touch k fun _ => v
  rw [Recent.insert, h.lookup_eq, Lru.insert]
  by_cases hzero : c.capacity = 0
  · rw [if_pos hzero, if_pos hzero]
    exact ⟨rfl, h⟩
  · rw [if_neg hzero, if_neg hzero]
    cases hk : c.value? k with
    | none =>
      have hmiss := h.touch_of_value?_eq_none hk fun _ => v
      have hvalue := c.value?_touch k (fun _ => v) k
      rw [if_pos rfl, hk] at hvalue
      have htouch : (c.touch k fun _ => v) = (none, (c.touch k fun _ => v).2) :=
        Prod.ext (hfst.trans hk) rfl
      have hpush := hmiss.push (hcapacity ▸ hzero) hvalue v
      rw [hcapacity] at hpush
      rw [htouch]
      exact ⟨rfl, hpush⟩
    | some old =>
      have hhit := h.touch hk fun _ => v
      have htouch : (c.touch k fun _ => v) = (some old, (c.touch k fun _ => v).2) :=
        Prod.ext (hfst.trans hk) rfl
      rw [htouch]
      exact ⟨rfl, hhit⟩

/-- One operation answers what the list says, and keeps the simulation. -/
theorem step (h : c.Simulates l) (operation : Operation κ α) :
    (operation.onCache c).1 = (operation.onList c.capacity l).1 ∧
      (operation.onCache c).2.Simulates (operation.onList c.capacity l).2 := by
  cases operation with
  | insert k v =>
    obtain ⟨hanswer, hafter⟩ := h.insert k v
    exact ⟨congrArg Answer.value hanswer, hafter⟩
  | get k =>
    obtain ⟨hanswer, hafter⟩ := h.get k
    exact ⟨congrArg Answer.value hanswer, hafter⟩
  | contains k =>
    refine ⟨?_, h⟩
    show Answer.presence (c.contains k) = Answer.presence (l.lookup k).isSome
    rw [contains_eq, h.lookup_eq]
  | remove k =>
    obtain ⟨hanswer, hafter⟩ := h.remove k
    exact ⟨congrArg Answer.value hanswer, hafter⟩
  | clear => exact ⟨rfl, .clear c⟩

end Simulates

variable [Std.TransOrd κ] [Std.LawfulEqOrd κ]

theorem capacity_onCache (operation : Operation κ α) (c : Lru κ α) :
    (operation.onCache c).2.capacity = c.capacity := by
  cases operation with
  | insert k v => exact capacity_insert c k v
  | get k => exact capacity_get c k
  | remove k => exact capacity_remove c k
  | contains | clear => rfl

/-! ## Ticks -/

theorem clock_touch (c : Lru κ α) (k : κ) (update : α → α) : (c.touch k update).2.clock = c.clock + 1 := by
  unfold Lru.touch
  cases c.entries.get? k <;> rfl

/-- An operation takes two ticks at most: one for the look-up and one for a new entry. -/
theorem clock_onCache_le (operation : Operation κ α) (c : Lru κ α) :
    (operation.onCache c).2.clock ≤ c.clock + 2 := by
  cases operation with
  | insert k v =>
    have hclock := clock_touch c k fun _ => v
    show (c.insert k v).2.clock ≤ c.clock + 2
    unfold Lru.insert
    split
    · exact Nat.le_add_right _ _
    · split <;> rename_i htouch <;> rw [htouch] at hclock
      · exact Nat.le_succ_of_le (Nat.le_of_eq hclock)
      · simp only at hclock ⊢
        rw [clock_makeRoom]
        omega
  | get k =>
    have hclock := clock_touch c k id
    show (c.get k).2.clock ≤ c.clock + 2
    unfold Lru.get
    split <;> rename_i htouch <;> rw [htouch] at hclock <;> exact Nat.le_succ_of_le (Nat.le_of_eq hclock)
  | remove k =>
    show (c.remove k).2.clock ≤ c.clock + 2
    unfold Lru.remove
    cases c.entries.get? k <;> exact Nat.le_add_right _ _
  | contains | clear => exact Nat.le_add_right _ _

theorem clock_run_le (operations : List (Operation κ α)) (c : Lru κ α) :
    (run Operation.onCache operations c).2.clock ≤ c.clock + 2 * operations.length := by
  induction operations generalizing c with
  | nil => exact Nat.le_refl _
  | cons operation operations ih =>
    have hstep := clock_onCache_le operation c
    have hrest := ih (operation.onCache c).2
    show (run Operation.onCache operations (operation.onCache c).2).2.clock ≤ _
    rw [List.length_cons]
    omega

/-! ## Sequences of operations -/

theorem Simulates.run {l : Recent κ α} (h : c.Simulates l) (operations : List (Operation κ α)) :
    (Lru.run Operation.onCache operations c).1 =
        (Lru.run (Operation.onList c.capacity) operations l).1 ∧
      (Lru.run Operation.onCache operations c).2.capacity = c.capacity ∧
      (Lru.run Operation.onCache operations c).2.Simulates
        (Lru.run (Operation.onList c.capacity) operations l).2 := by
  induction operations generalizing c l with
  | nil => exact ⟨rfl, rfl, h⟩
  | cons operation operations ih =>
    obtain ⟨hanswer, hafter⟩ := h.step operation
    obtain ⟨hanswers, hcapacity, hlast⟩ := ih hafter
    rw [capacity_onCache] at hanswers hcapacity hlast
    exact ⟨congrArg₂ List.cons hanswer hanswers, hcapacity, hlast⟩

/-- Whatever is asked of a new cache, it answers what the list of its values in the order of their last use says,
and holds what the list holds, which is never more than its capacity. The clock advances by two for each operation at
most, so that fewer than `2 ^ 63` of them keep it below `2 ^ 64`. -/
theorem run_eq_recent (capacity : Nat) (operations : List (Operation κ α)) :
    (run Operation.onCache operations (new capacity)).1 =
        (run (Operation.onList capacity) operations []).1 ∧
      (run Operation.onCache operations (new capacity)).2.Lists
        (run (Operation.onList capacity) operations []).2 ∧
      (run Operation.onCache operations (new capacity)).2.size ≤ capacity ∧
      (run Operation.onCache operations (new capacity)).2.clock ≤ 2 * operations.length := by
  obtain ⟨hanswers, hcapacity, hsimulates⟩ := (Simulates.new (κ := κ) (α := α) capacity).run operations
  have hnew : (new capacity : Lru κ α).capacity = capacity := rfl
  rw [hnew] at hanswers hcapacity hsimulates
  have hlists := hsimulates.lists
  have hclock := clock_run_le operations (new capacity : Lru κ α)
  have hstart : (new capacity : Lru κ α).clock = 0 := rfl
  rw [hstart, Nat.zero_add] at hclock
  have hle := hsimulates.1
  rw [← hlists.size, hcapacity] at hle
  exact ⟨hanswers, hlists, hle, hclock⟩

/-- A key that was asked for stays when a further one enters a full cache, and the other one is dropped. -/
theorem run_eq_recent_full :
    (run Operation.onCache [.insert 1 10, .insert 2 20, .get 1, .insert 3 30, .get 2, .contains 1, .insert 1 11]
      (new 2 : Lru Nat Nat)).1 =
        [.value none, .value none, .value (some 10), .value none, .value none, .presence true,
          .value (some 10)] := by
  refine (run_eq_recent 2 _).1.trans ?_
  decide

end Lru

end ClassDeps
