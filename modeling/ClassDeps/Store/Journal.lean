/-!
# Journals

How a store file is protected while it is changed. With the journal `wal` changes go to a log beside the file.
The file then asks everyone who uses it to use the log, until someone chooses another journal; and that can be
done only while no one has the log open.

## Main definitions

* `JournalMode` — the journals
* `Log` — whether a file asks for a log, and who has it open
* `Log.choose?`, `join`, `leave` — what the users of a file do
-/

namespace ClassDeps

/-- How a store file is protected while it is changed. -/
inductive JournalMode where
  | wal
  | delete
  | memory
  deriving DecidableEq

def JournalMode.name : JournalMode → String
  | wal => "wal"
  | delete => "delete"
  | memory => "memory"

/-- The log of a store file. Users are known by numbers. -/
structure Log where
  /-- Whether the file asks for a log. -/
  inUse : Bool
  /-- Who has the log open. -/
  users : List Nat
  /-- Whether all that was ever written to the store is still in the log. -/
  isWhole : Bool
  deriving DecidableEq, Inhabited

namespace Log

/-- A file that asks for no log. -/
def unused : Log :=
  ⟨false, [], false⟩

/-- The log of a new file, whose maker chooses a journal. -/
def start : JournalMode → (user : Nat) → Log
  | .wal, user => ⟨true, [user], true⟩
  | _, _ => unused

/-- A new user chooses a journal, which others can prevent. -/
def choose? (l : Log) : JournalMode → (user : Nat) → Option Log
  | .wal, user => some { l with inUse := true, users := user :: l.users }
  | _, _ => if l.inUse && l.users ≠ [] then none else some unused

/-- A user reads or writes the file, and opens the log that it asks for. -/
def join (user : Nat) (l : Log) : Log :=
  if l.inUse && !l.users.contains user then { l with users := user :: l.users } else l

/-- Some users are gone. The last one moves what is in the log to the file. -/
def leave (gone : Nat → Bool) (l : Log) : Log :=
  let users := l.users.filter fun user => !gone user
  { l with users, isWhole := l.isWhole && users ≠ [] }

end Log

end ClassDeps
