import ClassDeps.Ordered.Map

/-!
# A cache of recently used values

A bounded store of values that drops the least recently used one when it is full. Every use gets a tick of a
clock; an index from ticks to keys, in ascending order, says which entry has waited longest. A capacity of
zero stores nothing, and then every look-up misses.

## Main definitions

* `Lru` — the cache
* `Lru.get`, `insert`, `remove`, `clear`, `contains` — its operations
* `Lru.stats` — what it counted
-/

namespace ClassDeps

/-- A value and the tick of its last use. -/
structure Lru.Entry (α : Type) where
  value : α
  lastUse : Nat

/-- A bounded cache from keys to values. -/
structure Lru (κ α : Type) [Ord κ] where
  capacity : Nat
  entries : Ordered.Map κ (Lru.Entry α)
  /-- The keys by the tick of their last use. -/
  order : Ordered.Map Nat κ
  clock : Nat
  hits : Nat
  misses : Nat
  evictions : Nat

/-- Counts of a cache. -/
structure Lru.Stats where
  entries : Nat
  capacity : Nat
  hits : Nat
  misses : Nat
  evictions : Nat
  deriving DecidableEq

namespace Lru

variable {κ α : Type} [Ord κ] [Std.TransOrd κ] [Std.LawfulEqOrd κ] [DecidableEq κ]

def new (capacity : Nat) : Lru κ α :=
  ⟨capacity, .empty, .empty, 0, 0, 0, 0⟩

def size (c : Lru κ α) : Nat :=
  c.entries.size

/-- Whether there is an entry for `k`; this is no use of it. -/
def contains (c : Lru κ α) (k : κ) : Bool :=
  c.entries.contains k

/-- Advances the clock. An entry for `k` counts as used now, and its value becomes `update` of it; the
former value is returned. -/
def touch (c : Lru κ α) (k : κ) (update : α → α) : Option α × Lru κ α :=
  let tick := c.clock + 1
  match c.entries.get? k with
  | none => (none, { c with clock := tick })
  | some entry =>
    (some entry.value,
      { c with
        clock := tick
        entries := c.entries.insert k ⟨update entry.value, tick⟩
        order := (c.order.erase entry.lastUse).insert tick k })

/-- The value under `k`, which counts as a use. -/
def get (c : Lru κ α) (k : κ) : Option α × Lru κ α :=
  match c.touch k id with
  | (some value, c) => (some value, { c with hits := c.hits + 1 })
  | (none, c) => (none, { c with misses := c.misses + 1 })

/-- Drops the entry that has waited longest. -/
def evict (c : Lru κ α) : Lru κ α :=
  match c.order.rows with
  | [] => c
  | (tick, k) :: _ =>
    { c with
      order := c.order.erase tick
      entries := c.entries.erase k
      evictions := c.evictions + 1 }

/-- Evicts, at most `steps` times, while there is no room for a further entry. -/
def makeRoom : (steps : Nat) → Lru κ α → Lru κ α
  | 0, c => c
  | steps + 1, c => if c.capacity ≤ c.size then makeRoom steps c.evict else c

/-- Puts `value` under `k` and returns the value that it replaces. A new entry may push out others. -/
def insert (c : Lru κ α) (k : κ) (value : α) : Option α × Lru κ α :=
  if c.capacity = 0 then (none, c)
  else
    match c.touch k fun _ => value with
    | (some old, c) => (some old, c)
    | (none, c) =>
      -- No more evictions than there are entries can be needed.
      let c := makeRoom c.size c
      let tick := c.clock + 1
      (none,
        { c with
          clock := tick
          order := c.order.insert tick k
          entries := c.entries.insert k ⟨value, tick⟩ })

/-- Takes the entry for `k` out and returns its value. -/
def remove (c : Lru κ α) (k : κ) : Option α × Lru κ α :=
  match c.entries.get? k with
  | none => (none, c)
  | some entry =>
    (some entry.value,
      { c with entries := c.entries.erase k, order := c.order.erase entry.lastUse })

/-- Takes all entries out; the counts stay. -/
def clear (c : Lru κ α) : Lru κ α :=
  { c with entries := .empty, order := .empty }

def stats (c : Lru κ α) : Stats :=
  ⟨c.size, c.capacity, c.hits, c.misses, c.evictions⟩

end Lru

end ClassDeps
