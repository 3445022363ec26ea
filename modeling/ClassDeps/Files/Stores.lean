import ClassDeps.Files.Address
import ClassDeps.Files.Tree

/-!
# Store files in trees

Opening a store file makes what is missing. Who has a file open is its user, known by a number that no one else
gets; a user that is gone leaves the log of the file. A log that someone has open has files of its own, beside
the file of the store.

## Main definitions

* `Files.contents`, `setContents`, `setSchema` — what the store with a number holds
* `OpenFile` — a store file and its user
* `Files.modifyLog`, `leaveStores` — what users do to logs, and what happens when they are gone
* `Files.storePlace?` — where the file of a store stands
* `Files.openStore` — opening the store at a path
-/

namespace ClassDeps

/-- A store file and its user. -/
structure OpenFile where
  id : Nat
  user : Nat
  deriving DecidableEq

namespace Files

/-- What the store with a number holds. -/
def contents (t : Files) (id : Nat) : StoreContents :=
  (t.stores.getD id default).contents

/-- Changes what the store with a number holds. -/
def setContents (t : Files) (id : Nat) (contents : StoreContents) : Files :=
  { t with stores := t.stores.modify id fun file => { file with contents } }

def setSchema (t : Files) (id : Nat) (schema : Int32) : Files :=
  { t with stores := t.stores.modify id fun file => { file with schema } }

/-! ## Logs -/

def logEnding : String := "-wal"

/-- The ending of the file that the users of a log share. -/
def sharedEnding : String := "-shm"

/-- The places of the files of a log: beside the file of the store. -/
def logPlaces (place : Option Place) : List Place :=
  [logEnding, sharedEnding].filterMap fun ending => place.map (·.beside ending)

/-- What a log begins with. -/
def logMark : Bytes := [0x37, 0x7F, 0x06]

/-- Makes a file of a log, unless a directory is in the way. -/
def createLogFile (t : Files) (place : Place) : Files :=
  if t.entryAt? place = some .directory then t else t.setEntry place (.file logMark)

/-- Removes a file of a log, unless a directory is in the way. -/
def removeLogFile (t : Files) (place : Place) : Files :=
  if t.entryAt? place = some .directory then t else { t with entries := t.entries.erase place }

/-- Changes the log of the store with a number. Its files are there as long as someone has it open. -/
def modifyLog (t : Files) (id : Nat) (change : Log → Log) : Files :=
  let file := t.stores.getD id default
  let log := change file.log
  let after := { t with stores := t.stores.set id { file with log } }
  if log.users.isEmpty = file.log.users.isEmpty then after
  else if !log.users.isEmpty then (logPlaces file.place).foldl createLogFile after
  else if file.place.bind t.entryAt? = some (.store id) then
    (logPlaces file.place).foldl removeLogFile after
  -- The file of the store is gone, and no one removes those of its log.
  else after

/-- Some users are gone. -/
def leaveStores (t : Files) (gone : Nat → Bool) : Files :=
  (List.range t.stores.length).foldl (fun t id => t.modifyLog id (.leave gone)) t

/-! ## Where store files are -/

/-- The greatest number of bytes on the way to the place of a store file. -/
def storeWayLimit : Nat := 511

/-- The greatest number of bytes of the place of a store file. -/
def storePathLimit : Nat := 504

/-- One step to the place of a store file. It need not lead to anything, but not below a file. -/
def storeStep (t : Files) (place : Place) (name : String) : Option Place :=
  if Path.isIdle name then some place
  else if name = ".." then some place.dropLast
  else do
    let next := place ++ [name]
    guard (next.path.utf8ByteSize ≤ storeWayLimit)
    match t.step place name with
    | .ok _ | .error .notFound => return next
    | .error _ => none

/-- The place of the store file at a path, which must not be a directory but must stand in one. Unlike `locate`,
names that are taken back by `..` count for nothing. -/
def storePlace? (t : Files) (path : String) : Option Place := do
  let place ← (Path.steps path).foldlM t.storeStep (t.start path)
  guard (place.path.utf8ByteSize ≤ storePathLimit)
  guard ((t.directoryFault place.dropLast).isNone && t.entryAt? place ≠ some .directory)
  return place

def storeAt? (t : Files) (path : String) : Option Nat := do
  let .file path _ ← Address.ofPath? path | none
  let .store id ← t.entryAt? (← t.storePlace? path) | none
  return id

/-! ## Opening -/

/-- Makes the directory that is to hold a store file. -/
def createParent (t : Files) (path : String) : Except StorageFault Unit × Files :=
  match Path.parent? path with
  | none => (.ok (), t)
  | some parent =>
    let (result, t) := t.createDirectories parent
    (result.mapError (.createDirectory parent), t)

def addStore (t : Files) (place : Option Place) (kind : StoreKind) : OpenFile × Files :=
  (⟨t.stores.length, t.users⟩,
    { t with
      stores := t.stores ++ [⟨supportedSchema, .empty kind, .unused, place⟩]
      users := t.users + 1 })

/-- Why there can be no journal beside the file at a place: its name would be too long. -/
def journalFault (place : Place) : JournalMode → Option StorageFault
  | .memory => none
  | journal =>
    if ((place.beside "-journal").getLastD "").utf8ByteSize ≤ nameLimit then none
    else some (if journal = .wal then .noJournal else .noSchema)

/-- Makes a new store at a place, where a log that was left over is of no use. Where there can be no journal, an
empty file is made. -/
def createStore (t : Files) (place : Place) (kind : StoreKind) (journal : JournalMode) :
    Except StorageFault OpenFile × Files :=
  match journalFault place journal with
  | none =>
    let (file, t) := t.addStore place kind
    let t := (t.setEntry place (.store file.id)).removeLogFile (place.beside logEnding)
    (.ok file, t.modifyLog file.id fun _ => .start journal file.user)
  | some fault =>
    (.error fault, if (t.entryAt? place).isSome then t else t.setEntry place (.file []))

/-- The log of the store with a number, after a new user has chosen a journal. A file that did not ask for a log
is marked so with the help of a journal beside it. -/
def chosenLog (t : Files) (place : Place) (id : Nat) (journal : JournalMode) :
    Except StorageFault Log := do
  let log := (t.stores.getD id default).log
  if journal = .wal && !log.inUse then (journalFault place journal).forM throw
  match log.choose? journal t.users with
  | none => throw .inUse
  | some log => return log

/-- Opens the store with a number, which must be one of the kind. The user is gone at once if it is not. -/
def joinStore (t : Files) (path : String) (place : Place) (id : Nat) (kind : StoreKind)
    (journal : JournalMode) : Except StorageFault OpenFile × Files :=
  match t.chosenLog place id journal with
  | .error fault => (.error fault, t)
  | .ok log =>
    let joined := { t.modifyLog id fun _ => log with users := t.users + 1 }
    match (t.stores.getD id default).check path kind with
    | .ok () => (.ok ⟨id, t.users⟩, joined)
    | .error fault => (.error fault, joined.leaveStores (· = t.users))

/-- Opens the store file at a path. A missing or empty file becomes a new store of the kind; anything else must be
a store of that kind already. The tree is changed also where opening fails. -/
def openStore (t : Files) (path : String) (kind : StoreKind) (journal : JournalMode) :
    Except StorageFault OpenFile × Files :=
  match t.createParent path with
  | (.error fault, t) => (.error fault, t)
  | (.ok (), t) =>
    match Address.ofPath? path with
    | none => (.error (.openStore path), t)
    | some .nowhere =>
      let (file, t) := t.addStore none kind
      (.ok file, t)
    | some (.file filePath mayCreate) =>
      match t.storePlace? filePath with
      | none => (.error (.openStore path), t)
      | some place =>
        match t.entryAt? place with
        | some (.store id) => t.joinStore path place id kind journal
        -- A file of at most one byte counts as empty.
        | some (.file (_ :: _ :: _)) => (.error .notAStore, t)
        | some _ => t.createStore place kind journal
        | none =>
          if mayCreate then t.createStore place kind journal else (.error (.openStore path), t)

end Files

end ClassDeps
