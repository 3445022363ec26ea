import ClassDeps.Json.Codec
import ClassDeps.Key.Codec
import ClassDeps.Lru
import ClassDeps.Store.Contents

/-!
# Key-value stores

A store of one value for each key. Rows hold encoded keys and values; values that were used recently are kept
decoded in memory. Writing goes to the rows and to the memory, reading asks the memory first.

## Main definitions

* `Storable` — types whose values can be stored
* `KeyValueStore` — rows and memory
* `KeyValueStore.get`, `put`, `remove`, `contains`, `keys`, `size`, `reopen` — its operations
-/

namespace ClassDeps

/-- Types whose values can be stored as documents. -/
class Storable (α : Type) where
  form : Json.Form α

/-- A store from keys of type `κ` to values of type `α`. -/
structure KeyValueStore (κ α : Type) where
  /-- The path of the file, as it was given. -/
  path : String
  rows : Ordered.Map Bytes Bytes
  memory : Lru Bytes α

namespace KeyValueStore

variable {κ α : Type} [StoreKey κ] [Storable α]

/-- A store with rows read from a file, and nothing in memory yet. -/
def ofRows (path : String) (capacity : Nat) (rows : Ordered.Map Bytes Bytes) : KeyValueStore κ α :=
  ⟨path, rows, .new capacity⟩

/-- The value of the row of an encoded key. -/
def readRow (s : KeyValueStore κ α) (key : Bytes) : Except EncodingFault (Option α) :=
  match s.rows.get? key with
  | none => .ok none
  | some bytes =>
    match Storable.form.ofBytes? bytes with
    | none => .error (.value s.path)
    | some value => .ok (some value)

/-- The value under `k`. -/
def get (k : κ) (s : KeyValueStore κ α) : Except EncodingFault (Option α) × KeyValueStore κ α :=
  let key := StoreKey.encode k
  match s.memory.get key with
  | (some value, memory) => (.ok (some value), { s with memory })
  | (none, memory) =>
    match s.readRow key with
    | .ok (some value) => (.ok (some value), { s with memory := (memory.insert key value).2 })
    -- Neither an absent value nor an unreadable one is remembered.
    | answer => (answer, { s with memory })

/-- Stores `value` under `k` in the stead of any former value. -/
def put (k : κ) (value : α) (s : KeyValueStore κ α) : KeyValueStore κ α :=
  let key := StoreKey.encode k
  { s with
    rows := s.rows.insert key (Storable.form.toBytes value)
    memory := (s.memory.insert key value).2 }

/-- Removes the value under `k` and says whether there was one. -/
def remove (k : κ) (s : KeyValueStore κ α) : Bool × KeyValueStore κ α :=
  let key := StoreKey.encode k
  (s.rows.contains key, { s with rows := s.rows.erase key, memory := (s.memory.remove key).2 })

/-- Whether there is a value under `k`; it need not be readable. -/
def contains (k : κ) (s : KeyValueStore κ α) : Bool :=
  let key := StoreKey.encode k
  s.memory.contains key || s.rows.contains key

/-- All keys in the order of their encodings. -/
def keys (s : KeyValueStore κ α) : Except KeyFault (List κ) :=
  s.rows.keys.mapM StoreKey.decode

def size (s : KeyValueStore κ α) : Nat :=
  s.rows.size

def stats (s : KeyValueStore κ α) : Lru.Stats :=
  s.memory.stats

end KeyValueStore

end ClassDeps
