import ClassDeps.Files.JsonStore
import ClassDeps.Json.Canonical

/-!
# Settings

Settings come from layers of documents; of each member the last layer that has it counts, and a member that no
layer has takes its default.

## Main definitions

* `Synchronous`, `Config` — the settings
* `Config.form` — the form of settings in documents
* `Config.loadLayered` — settings from several directories
* `Config.pragmas` — how the stores are told about them
-/

namespace ClassDeps

/-- How eagerly changes go to the disk. -/
inductive Synchronous where
  | off
  | normal
  | full
  deriving DecidableEq

def Synchronous.name : Synchronous → String
  | off => "off"
  | normal => "normal"
  | full => "full"

/-- Settings of a cache. -/
structure Config where
  version : UInt32
  /-- How many decoded values a store keeps in memory. -/
  cacheSize : UInt64
  journalMode : JournalMode
  synchronous : Synchronous
  /-- Where the cache is, if it is not at its usual place. -/
  storeDirectory : Option String
  deriving DecidableEq

namespace Config

/-- The settings where nothing is set. -/
def standard : Config :=
  ⟨supportedConfig, 1024, .wal, .normal, none⟩

/-- Little memory and careful writes. -/
def minimal : Config :=
  { standard with cacheSize := 64, journalMode := .delete, synchronous := .full }

/-- Much memory and quick writes. -/
def performance : Config :=
  { standard with cacheSize := 16384, synchronous := .off }

/-- The commands that tell a store about the settings. -/
def pragmas (c : Config) : String :=
  s!"PRAGMA journal_mode={c.journalMode.name.toUpper}; " ++
    s!"PRAGMA synchronous={c.synchronous.name.toUpper};"

/-- The names of the members, in their order. -/
def memberNames : List String :=
  ["version", "cacheSize", "journalMode", "synchronous", "storeDir"]

def journalForm : Json.Form JournalMode :=
  .named [.wal, .delete, .memory] JournalMode.name

def synchronousForm : Json.Form Synchronous :=
  .named [.off, .normal, .full] Synchronous.name

/-- The form of settings; an absent directory is left out. -/
def form : Json.Form Config where
  write c := .record <|
    [("version", Json.Form.uint32.write c.version),
      ("cacheSize", Json.Form.uint64.write c.cacheSize),
      ("journalMode", journalForm.write c.journalMode),
      ("synchronous", synchronousForm.write c.synchronous)] ++
    c.storeDirectory.toList.map fun path => ("storeDir", .ofText path)
  read?
    | _, 0, _ => none
    | source, limit + 1, j => do
      let found ← Json.members? memberNames j
      return {
        version := ← Json.defaulted? found "version" standard.version
          (Json.Form.uint32.read? source limit)
        cacheSize := ← Json.defaulted? found "cacheSize" standard.cacheSize
          (Json.Form.uint64.read? source limit)
        journalMode := ← Json.defaulted? found "journalMode" standard.journalMode
          (journalForm.read? source limit)
        synchronous := ← Json.defaulted? found "synchronous" standard.synchronous
          (synchronousForm.read? source limit)
        storeDirectory := ← Json.defaulted? found "storeDir" none
          ((Json.Form.nullable Json.Form.text).read? source limit) }

def fileName : String := "depcache.json"

/-- Members of several documents; of members with equal names the last one counts. -/
abbrev Layer := Ordered.Map Bytes Json

/-- The members of an object added to those before. -/
def addLayer (before : Layer) (members : List (Bytes × Json)) : Layer :=
  members.foldl (fun layer member => layer.insert member.1 member.2) before

/-- The members that the documents of several directories have together. -/
def mergeLayers (t : Files) : (stores : List JsonStore) → Layer → Except Error Layer
  | [], layer => .ok layer
  | store :: rest, layer => do
    match ← store.loadOptional Json.Form.free fileName t with
    | none => mergeLayers t rest layer
    | some (.object members) => mergeLayers t rest (addLayer layer members)
    | some _ => throw (.config (.notAnObject (store.filePath fileName)))

/-- The settings that merged members stand for. -/
def ofLayer (layer : Layer) : Except Error Config := do
  match form.ofJson? (.object layer.rows) with
  | none => throw (.config .invalid)
  | some config =>
    if supportedConfig < config.version then throw (.config (.newerVersion config.version))
    return config

/-- The settings of the documents of several directories; later ones win. -/
def loadLayered (stores : List JsonStore) (t : Files) : Except Error Config := do
  ofLayer (← mergeLayers t stores .empty)

/-- The settings of the user and of the project in a directory. -/
def load (userDirectory projectRoot : String) (t : Files) : Except Error Config :=
  loadLayered [⟨Path.join userDirectory "depcache"⟩, .project projectRoot] t

end Config

end ClassDeps
