import ClassDeps.Error
import ClassDeps.Files.Path
import ClassDeps.Ordered.Map
import ClassDeps.Ordered.Set
import ClassDeps.Store.Journal

/-!
# Contents of store files

A store file holds one of two kinds of contents, and keeps its kind. It also says which version of the schema
it was written with. Its log is not part of its contents.

## Main definitions

* `Link` — a key and one of the numbers that belong to it
* `StoreContents` — rows of values, or links
* `StoreFile` — contents with a schema version and a log
* `StoreFile.check` — whether a file can be used as a store of a kind
-/

namespace ClassDeps

/-- A key and a number that belongs to it. -/
structure Link where
  key : Bytes
  value : Int32
  deriving DecidableEq

/-- Links are ordered by their keys, then by their numbers. -/
instance : Ord Link where
  compare := compareLex (compareOn Link.key) (compareOn Link.value)

instance : Std.TransOrd Link :=
  inferInstanceAs (Std.TransCmp (compareLex (compareOn Link.key) (compareOn Link.value)))

/-- The two kinds of stores. -/
inductive StoreKind where
  | keyValue
  | multiValue
  deriving DecidableEq

def StoreKind.name : StoreKind → String
  | keyValue => "key_value"
  | multiValue => "multi_value"

/-- What a store file holds: a value for each key, or links. -/
inductive StoreContents where
  | keyValue (rows : Ordered.Map Bytes Bytes)
  | multiValue (links : Ordered.Set Link)
  deriving Inhabited

namespace StoreContents

def kind : StoreContents → StoreKind
  | keyValue _ => .keyValue
  | multiValue _ => .multiValue

/-- A new store has neither rows nor links. -/
def empty : StoreKind → StoreContents
  | .keyValue => .keyValue .empty
  | .multiValue => .multiValue .empty

/-- The rows of a key-value store. -/
def rows : StoreContents → Ordered.Map Bytes Bytes
  | keyValue rows => rows
  | multiValue _ => .empty

/-- The links of a multi-value store. -/
def links : StoreContents → Ordered.Set Link
  | keyValue _ => .empty
  | multiValue links => links

end StoreContents

/-- A store file. -/
structure StoreFile where
  schema : Int32
  contents : StoreContents
  log : Log
  /-- Where the file is, if the store has one. -/
  place : Option Place
  deriving Inhabited

/-- Whether the file at `path` can be used as a store of a kind. The kind is checked before the version. -/
def StoreFile.check (f : StoreFile) (path : String) (kind : StoreKind) : Except StorageFault Unit :=
  if f.contents.kind ≠ kind then
    .error (.kindMismatch path f.contents.kind.name kind.name)
  else if supportedSchema < f.schema then .error (.newerSchema path f.schema)
  else .ok ()

end ClassDeps
