import ClassDeps.Files.Stores
import ClassDeps.Store.KeyValue
import ClassDeps.Store.MultiValue

/-!
# Open stores

A store is used through a handle that knows its file and is a user of it. What the file holds is taken up before
each operation and written back after it, so that all handles of a file see the same contents; what a handle
keeps in memory is its own.

## Main definitions

* `Persistent` — stores whose contents are those of a file
* `OpenStore` — a store with its file
* `OpenStore.run` — an operation on the file and on the memory
* `OpenStore.close` — the end of a handle
* `KeyValueStore.open`, `MultiValueStore.open` — handles of the file at a path
-/

namespace ClassDeps

/-- Stores whose contents are those of a file. -/
class Persistent (σ : Type) where
  contents : σ → StoreContents
  withContents : StoreContents → σ → σ

instance {κ α : Type} : Persistent (KeyValueStore κ α) where
  contents s := .keyValue s.rows
  withContents contents s := { s with rows := contents.rows }

instance {κ : Type} : Persistent (MultiValueStore κ) where
  contents s := .multiValue s.links
  withContents contents s := { s with links := contents.links }

/-- A store with its file. -/
structure OpenStore (σ : Type) where
  file : OpenFile
  store : σ

namespace OpenStore

variable {σ β : Type} [Persistent σ]

/-- The store with what its file holds now. -/
def refreshed (s : OpenStore σ) (t : Files) : σ :=
  Persistent.withContents (t.contents s.file.id) s.store

/-- The tree with the contents of the store in its file, whose log the handle has open. -/
def commit (s : OpenStore σ) (t : Files) : Files :=
  (t.setContents s.file.id (Persistent.contents s.store)).modifyLog s.file.id (.join s.file.user)

/-- Runs an operation on the store and writes its contents back. -/
def run (s : OpenStore σ) (op : σ → β × σ) (t : Files) : β × OpenStore σ × Files :=
  let (answer, store) := op (s.refreshed t)
  let s := { s with store }
  (answer, s, s.commit t)

/-- Ends the use of the file. -/
def close {σ : Type} (s : OpenStore σ) (t : Files) : Files :=
  t.leaveStores (· = s.file.user)

end OpenStore

/-- Operations on a tree of files, which they keep also when they fail. -/
abbrev Files.Op := ExceptT Error (StateM Files)

/-- The store file at a path, which is made if there is none. -/
def Files.openKind (path : String) (kind : StoreKind) (journal : JournalMode) :
    Files.Op OpenFile := fun t =>
  match t.openStore path kind journal with
  | (.ok file, t) => (.ok file, t)
  | (.error fault, t) => (.error (.storage fault), t)

def KeyValueStore.open {κ α : Type} (path : String) (capacity : Nat) (journal : JournalMode) :
    Files.Op (OpenStore (KeyValueStore κ α)) := do
  let file ← Files.openKind path .keyValue journal
  return ⟨file, .ofRows path capacity ((← getThe Files).contents file.id).rows⟩

def MultiValueStore.open {κ : Type} (path : String) (journal : JournalMode) :
    Files.Op (OpenStore (MultiValueStore κ)) := do
  let file ← Files.openKind path .multiValue journal
  return ⟨file, ⟨path, ((← getThe Files).contents file.id).links⟩⟩

end ClassDeps
