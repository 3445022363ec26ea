import ClassDeps.Files.Tree
import ClassDeps.Json.Codec

/-!
# Directories of documents

Small documents are kept as files of one directory. A document is written to a file beside its own and then
moved over it, so that a failure leaves the former document as it was.

## Main definitions

* `JsonStore` — a directory of documents
* `JsonStore.load`, `loadOptional`, `save` — its operations
-/

namespace ClassDeps

/-- A directory that holds documents. -/
structure JsonStore where
  base : String

namespace JsonStore

def projectDirectory : String := ".depcache"

def project (root : String) : JsonStore :=
  ⟨Path.join root projectDirectory⟩

variable (s : JsonStore)

def filePath (name : String) : String :=
  Path.join s.base name

/-- Whether there is anything under a name. -/
def exists? (name : String) (t : Files) : Bool :=
  t.exists? (s.filePath name)

def load {α : Type} (form : Json.Form α) (name : String) (t : Files) : Except Error α := do
  let path := s.filePath name
  let text ← (t.readText path).mapError fun fault => .storage (.read path fault)
  match form.ofBytes? (.ofText text) with
  | some value => return value
  | none => throw (.encoding (.document path))

/-- The document under a name, if there is anything. -/
def loadOptional {α : Type} (form : Json.Form α) (name : String) (t : Files) :
    Except Error (Option α) :=
  if s.exists? name t then (s.load form name t).map some else .ok none

/-- Makes the directory, unless there is something at its path. -/
def createBase (t : Files) : Except StorageFault Unit × Files :=
  if t.exists? s.base then (.ok (), t)
  else
    let (result, t) := t.createDirectories s.base
    (result.mapError (.createDirectory s.base), t)

/-- The name of the file that a document is first written to. -/
def temporaryName (name : String) : String :=
  name ++ ".tmp"

/-- Saves a document under a name. What has been written before a failure stays. -/
def save {α : Type} (form : Json.Form α) (name : String) (value : α) (t : Files) :
    Except Error Unit × Files :=
  let path := s.filePath name
  let temporary := s.filePath (temporaryName name)
  match s.createBase t with
  | (.error fault, t) => (.error (.storage fault), t)
  | (.ok (), t) =>
    match t.write temporary (form.write value).toIndented with
    | .error fault => (.error (.storage (.write temporary fault)), t)
    | .ok t =>
      match t.rename temporary path with
      | .error fault => (.error (.storage (.replace path fault)), t)
      | .ok t => (.ok (), t)

end JsonStore

end ClassDeps
