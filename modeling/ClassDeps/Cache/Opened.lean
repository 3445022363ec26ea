import ClassDeps.Cache.Index
import ClassDeps.Config
import ClassDeps.Store.Opened
import ClassDeps.Text.Quoted

/-!
# Caches on disk

The five stores of a cache are files of one directory. Opening makes what is missing; closing ends the use of
the files; wiping also removes every file of the directory and leaves directories in it alone.

## Main definitions

* `OpenCache` — a cache with its files
* `OpenCache.open`, `close`, `wipe` — its life
* `OpenCache.run` — an operation of the cache on its files
* `OpenCache.copyRecord` — a record of another cache
-/

namespace ClassDeps

/-- A cache with its files. -/
structure OpenCache where
  root : String
  classes : OpenStore (KeyValueStore SymbolId ClassRecord)
  remote : OpenStore (KeyValueStore SymbolId Bool)
  referencers : OpenStore (MultiValueStore DeclarationKey)
  referenced : OpenStore (MultiValueStore SymbolId)
  subclasses : OpenStore (MultiValueStore SymbolId)

namespace OpenCache

def classesFile : String := "classes.db"

def remoteFile : String := "remote.db"

def referencersFile : String := "bdeps.db"

def referencedFile : String := "fdeps.db"

def subclassesFile : String := "subclasses.db"

def storePaths (root : String) : List String :=
  [classesFile, remoteFile, referencersFile, referencedFile, subclassesFile].map (Path.join root)

def createRoot (root : String) : Files.Op Unit := fun t =>
  let (result, t) := t.createDirectories root
  (result.mapError fun fault => .storage (.createRoot root fault), t)

/-- Opens the stores of a cache one after the other. -/
def openStores (root : String) (config : Config) : Files.Op OpenCache := do
  createRoot root
  let capacity := config.cacheSize.toNat
  let journal := config.journalMode
  return {
    root
    classes := ← KeyValueStore.open (Path.join root classesFile) capacity journal
    remote := ← KeyValueStore.open (Path.join root remoteFile) capacity journal
    referencers := ← MultiValueStore.open (Path.join root referencersFile) journal
    referenced := ← MultiValueStore.open (Path.join root referencedFile) journal
    subclasses := ← MultiValueStore.open (Path.join root subclassesFile) journal }

/-- Opens the cache of a directory as the settings say. Files that were made before a failure stay, but those
who opened them are gone. -/
def «open» (root : String) (config : Config) (t : Files) : Except CacheError OpenCache × Files :=
  match openStores root config t with
  | (.ok cache, t) => (.ok cache, t)
  | (.error error, after) => (.error (.corrupted error), after.leaveStores (t.users ≤ ·))

/-- Ends the use of all files. -/
def close (c : OpenCache) (t : Files) : Files :=
  c.subclasses.close (c.referenced.close (c.referencers.close (c.remote.close (c.classes.close t))))

/-- The cache with what its files hold now. -/
def cache (c : OpenCache) (t : Files) : Cache where
  root := c.root
  classes := c.classes.refreshed t
  remote := c.remote.refreshed t
  referencers := c.referencers.refreshed t
  referenced := c.referenced.refreshed t
  subclasses := c.subclasses.refreshed t

/-- The stores after an operation. -/
def withCache (c : OpenCache) (cache : Cache) : OpenCache :=
  { c with
    classes.store := cache.classes
    remote.store := cache.remote
    referencers.store := cache.referencers
    referenced.store := cache.referenced
    subclasses.store := cache.subclasses }

/-- The tree with the contents of all stores in their files. -/
def commit (c : OpenCache) (t : Files) : Files :=
  c.subclasses.commit (c.referenced.commit (c.referencers.commit
    (c.remote.commit (c.classes.commit t))))

/-- Runs an operation and writes the stores back. -/
def run {α : Type} (c : OpenCache) (op : StateM Cache α) (t : Files) : α × OpenCache × Files :=
  let (answer, cache) := op (c.cache t)
  let c := c.withCache cache
  (answer, c, c.commit t)

/-- Stores in the cache `target` what the cache `source` knows of a class. -/
def copyRecord (source target : OpenCache) (q : SymbolId) (t : Files) :
    Except CacheError Unit × OpenCache × OpenCache × Files :=
  match source.run (Cache.getClass q).run t with
  | (.error error, source, t) => (.error error, source, target, t)
  | (.ok found, source, t) =>
    let (answer, target, t) := target.run (Cache.importRecord q found).run t
    (answer, source, target, t)

/-- What a cache is called in diagnostics. -/
def description (c : OpenCache) : String :=
  "Cache \x7b root: " ++ Text.quote c.root ++ " \x7d"

/-- Closes a cache and removes all files of its directory. -/
def wipe (c : OpenCache) (t : Files) : Files :=
  (c.close t).removeFilesIn c.root

end OpenCache

end ClassDeps
