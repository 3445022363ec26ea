import ClassDeps.Files.Tree

/-!
# Changes of file trees

A run works on a tree of files that was taken from a disk; what it did to the tree is then done to the disk.

## Main definitions

* `Files.adopt` — a file of the disk as an entry of a tree
* `Change`, `Files.changesTo` — what makes one tree out of another one
-/

namespace ClassDeps

/-- What is done to a disk; paths start at the root. -/
inductive Change where
  | makeDirectory (path : String)
  | write (path : String) (bytes : Bytes)
  | remove (path : String)
  deriving DecidableEq

namespace Files

/-- Takes up the file at a path with its bytes; an image of a store file becomes a store. -/
def adopt (t : Files) (path : String) (bytes : Bytes) : Except SystemFault Files := do
  let t := match Path.parent? path with
    | some parent => (t.createDirectories parent).2
    | none => t
  let place ← t.locate path
  match StoreFile.ofImage? bytes with
  | none => return t.setEntry place (.file bytes)
  | some file =>
    return { t.setEntry place (.store t.stores.length) with
      stores := t.stores ++ [{ file with place }] }

/-- The bytes of a file on the disk, where a store needs no log, or `none` for a directory. -/
def saved? (t : Files) : Entry → Option Bytes
  | .store id => some (t.stores.getD id default).image
  | entry => t.bytes? entry

/-- What has to be done for the entry at a place. -/
def changeFor? (before after : Files) (place : Place) (entry : Entry) : Option Change :=
  match after.saved? entry with
  | none =>
    if before.entryAt? place = some entry then none else some (.makeDirectory place.path)
  | some bytes =>
    if ((before.entryAt? place).bind before.saved?) = some bytes then none
    else some (.write place.path bytes)

/-- What makes the tree `after` out of the tree `before`. Entries that are gone are removed, those below before
those above; then come new ones, those above before those below. -/
def changesTo (before after : Files) : List Change :=
  let gone := before.entries.keys.filter fun place => (after.entryAt? place).isNone
  gone.reverse.map (fun place => .remove place.path) ++
    after.entries.rows.filterMap fun row => changeFor? before after row.1 row.2

end Files

end ClassDeps
