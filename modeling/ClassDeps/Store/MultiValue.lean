import ClassDeps.Key.Codec
import ClassDeps.Store.Contents

/-!
# Multi-value stores

A store of a set of numbers for each key.

## Main definitions

* `MultiValueStore` — the store
* `MultiValueStore.add`, `removeValue`, `values`, `remove`, `purge` — its operations
-/

namespace ClassDeps

/-- A store from keys of type `κ` to sets of numbers. -/
structure MultiValueStore (κ : Type) where
  /-- The path of the file, as it was given. -/
  path : String
  links : Ordered.Set Link

namespace MultiValueStore

variable {κ : Type} [StoreKey κ]

/-- Adds a number to the set under `k`. -/
def add (k : κ) (value : Int32) (s : MultiValueStore κ) : MultiValueStore κ :=
  { s with links := s.links.insert ⟨StoreKey.encode k, value⟩ }

/-- Removes a number from the set under `k`. -/
def removeValue (k : κ) (value : Int32) (s : MultiValueStore κ) : MultiValueStore κ :=
  { s with links := s.links.erase ⟨StoreKey.encode k, value⟩ }

/-- The numbers under `k` in ascending order. -/
def values (k : κ) (s : MultiValueStore κ) : List Int32 :=
  (s.links.elements.filter fun link => link.key = StoreKey.encode k).map Link.value

/-- Keeps the links that pass a test and counts the others. -/
def keep (test : Link → Bool) (s : MultiValueStore κ) : Nat × MultiValueStore κ :=
  let links := s.links.filter test
  (s.links.size - links.size, { s with links })

/-- Removes the set under `k` and counts its numbers. -/
def remove (k : κ) (s : MultiValueStore κ) : Nat × MultiValueStore κ :=
  s.keep fun link => link.key ≠ StoreKey.encode k

/-- Removes a number from all sets and counts those that had it. -/
def purge (value : Int32) (s : MultiValueStore κ) : Nat × MultiValueStore κ :=
  s.keep fun link => link.value ≠ value

end MultiValueStore

end ClassDeps
