import ClassDeps.Files.Path
import ClassDeps.Store.Image

/-!
# File trees

Directories, plain files and store files below one root. A place is the list of names on the way from the
root. A store file is an entry with a number; what it holds is kept under that number, so that a store that is
open can still be used when its entry is gone.

An operation refuses paths with a zero byte, paths that are too long, and names that are too long for their
directory.

## Main definitions

* `Entry`, `Place`, `Files` — what a tree consists of
* `Files.locate` — the place of a path
* `Files.read`, `readText`, `write`, `rename`, `createDirectories`, `removeFile?`, `removeTree` — operations
  on paths
-/

namespace ClassDeps

/-- What stands at a place. -/
inductive Entry where
  | directory
  | file (bytes : Bytes)
  | store (id : Nat)
  deriving DecidableEq

/-- A tree of files with the directory that relative paths start from. -/
structure Files where
  entries : Ordered.Map Place Entry
  /-- Store files by number, those without an entry included. -/
  stores : List StoreFile
  /-- How many users store files have had so far. -/
  users : Nat
  working : Place

namespace Files

/-- A tree without entries. -/
def empty : Files :=
  ⟨.empty, [], 0, []⟩

/-- What stands at a place; the root is a directory. -/
def entryAt? (t : Files) (place : Place) : Option Entry :=
  if place = [] then some .directory else t.entries.get? place

/-- Why a directory cannot be entered. -/
def directoryFault (t : Files) (place : Place) : Option SystemFault :=
  match t.entryAt? place with
  | some .directory => none
  | some _ => some .notADirectory
  | none => some .notFound

/-- The greatest number of bytes of a name. -/
def nameLimit : Nat := 255

/-- The greatest number of bytes of a path. -/
def pathLimit : Nat := 4095

/-- One step from a place, which must be a directory. -/
def step (t : Files) (place : Place) (name : String) : Except SystemFault Place :=
  match t.directoryFault place with
  | some fault => .error fault
  | none =>
    if Path.isIdle name then .ok place
    else if name = ".." then .ok place.dropLast
    else if nameLimit < name.utf8ByteSize then .error .nameTooLong
    else .ok (place ++ [name])

/-- Where a path starts. -/
def start (t : Files) (path : String) : Place :=
  if Path.isAbsolute path then [] else t.working

/-- Why a path is refused whatever there is. The empty path leads nowhere. -/
@[irreducible] def pathFault (path : String) : Option SystemFault :=
  if path.toList.contains '\x00' then some .zeroByte
  else if pathLimit < path.utf8ByteSize then some .nameTooLong
  else if path = "" then some .notFound
  else none

/-- The place that some names lead to. There need not be anything, but all directories on the way must exist. -/
def follow (t : Files) (path : String) (names : List String) : Except SystemFault Place :=
  match pathFault path with
  | some fault => .error fault
  | none => names.foldlM t.step (t.start path)

def locate (t : Files) (path : String) : Except SystemFault Place :=
  t.follow path (Path.steps path)

/-- What stands at a path. -/
def find? (t : Files) (path : String) : Option Entry :=
  match t.locate path with
  | .ok place => t.entryAt? place
  | .error _ => none

def exists? (t : Files) (path : String) : Bool :=
  (t.find? path).isSome

def isDirectory (t : Files) (path : String) : Bool :=
  t.find? path == some .directory

def setEntry (t : Files) (place : Place) (entry : Entry) : Files :=
  { t with entries := t.entries.insert place entry }

/-- The bytes of a file, or `none` for a directory. -/
def bytes? (t : Files) : Entry → Option Bytes
  | .directory => none
  | .file bytes => some bytes
  | .store id => some (t.stores.getD id default).bytes

def read (t : Files) (path : String) : Except SystemFault Bytes := do
  match t.entryAt? (← t.locate path) with
  | none => throw .notFound
  | some entry =>
    match t.bytes? entry with
    | some bytes => return bytes
    | none => throw .isADirectory

def readText (t : Files) (path : String) : Except SystemFault String := do
  match (← t.read path).toText? with
  | some text => return text
  | none => throw .invalidText

/-- Makes the bytes of the file at a path, which may be a new file in an existing directory. -/
def write (t : Files) (path : String) (bytes : Bytes) : Except SystemFault Files := do
  let place ← t.locate path
  match t.entryAt? place with
  | some .directory => throw .isADirectory
  | _ => return t.setEntry place (.file bytes)

/-- Moves the file at one path to another one, where it replaces a file but no directory. -/
def rename (t : Files) (source target : String) : Except SystemFault Files := do
  let sourcePlace ← t.locate source
  let targetPlace ← t.locate target
  match t.entryAt? sourcePlace, t.entryAt? targetPlace with
  | none, _ => throw .notFound
  | some .directory, _ => throw .isADirectory
  | some _, some .directory => throw .isADirectory
  | some entry, _ =>
    return { t with entries := (t.entries.erase sourcePlace).insert targetPlace entry }

/-- Makes the directory at a path, where there must be nothing. The names `.` and `..` are always there. -/
def createDirectory (t : Files) (path : String) : Except SystemFault Files := do
  let names := Path.steps (Path.withoutTrailingSlashes path)
  let last := names.getLastD ""
  let parent ← t.follow path names.dropLast
  let place ← t.step parent last
  if Path.isIdle last || last = ".." || (t.entryAt? place).isSome then throw .alreadyExists
  return t.setEntry place .directory

/-- Makes the directory at a path, unless it is there. -/
def ensureDirectory (t : Files) (path : String) : Except SystemFault Unit × Files :=
  match t.createDirectory path with
  | .ok t => (.ok (), t)
  | .error fault => (if t.isDirectory path then .ok () else .error fault, t)

/-- Makes the directory at a path, and those above it that are missing, of which there are at most `levels`. -/
def createAbove : (levels : Nat) → (path : String) → (t : Files) → Except SystemFault Unit × Files
  | 0, path, t => t.ensureDirectory path
  | levels + 1, path, t =>
    match t.createDirectory path, Path.parent? path with
    | .error .notFound, some "" => t.ensureDirectory path
    | .error .notFound, some parent =>
      match createAbove levels parent t with
      | (.ok (), t) => t.ensureDirectory path
      | (.error fault, t) => (.error fault, t)
    | _, _ => t.ensureDirectory path

/-- Makes the directory at a path, and those above it, where they are missing. The empty path needs none. What
has been made before a failure stays. -/
def createDirectories (t : Files) (path : String) : Except SystemFault Unit × Files :=
  if path = "" then (.ok (), t) else createAbove path.length path t

/-- Whether a place is `base` or below it. -/
def isWithin (base place : Place) : Bool :=
  base.isPrefixOf place

/-- Removes the file at a path, if there is one. -/
def removeFile? (t : Files) (path : String) : Option Files :=
  match t.locate path with
  | .error _ => none
  | .ok place =>
    match t.entryAt? place with
    | some (.file _) | some (.store _) => some { t with entries := t.entries.erase place }
    | _ => none

/-- Removes the directory at a path and everything below it, and says whether that could be done. Where the path
ends in a dot the directory is only emptied. -/
def removeTree (t : Files) (path : String) : Bool × Files :=
  match t.locate path with
  | .error _ => (false, t)
  | .ok place =>
    if t.entryAt? place = some .directory then
      let last := (Path.steps (Path.withoutTrailingSlashes path)).getLastD ""
      let whole := !(Path.isIdle last || last = "..")
      let stays (other : Place) := !isWithin place other || (!whole && other = place)
      (whole, { t with entries := t.entries.filter fun other _ => stays other })
    else (false, t)

/-- Removes all files that stand directly in a directory; directories in it stay. -/
def removeFilesIn (t : Files) (path : String) : Files :=
  match t.locate path with
  | .error _ => t
  | .ok place =>
    { t with entries := t.entries.filter fun other entry =>
        entry = .directory || other = [] || other.dropLast ≠ place }

end Files

end ClassDeps
