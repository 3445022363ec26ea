import ClassDeps.Cache.Opened
import ClassDeps.Error.Text
import ClassDeps.Listing
import ClassDeps.Symbols.File

/-!
# Sessions

A session is an open cache with the symbol table that names its ids. The symbols are kept in a directory of
their own below the cache, so that wiping the cache leaves them alone; they are saved when the session ends.

## Main definitions

* `Failure` — why a command fails, and `Failure.chain`, its texts
* `Session` — an open cache and its symbols
* `Session.open`, `close`, `wipe` — the life of a session
* `Session.Command` — commands of a session, with what they print
* `Session.listClasses`, `showClass`, `showDependencies`, `importFiles`, `removeClass`, `showStats`
-/

namespace ClassDeps

/-- Why a command fails. -/
inductive Failure where
  | cache (error : CacheError)
  | symbols (error : Error)
  | loadSymbols (error : Error)
  | saveSymbols (error : Error)
  | unknownClass (name : String)
  | notCached (name : String)
  | read (path : String) (fault : SystemFault)
  | parse (path : String) (error : CacheError)
  deriving DecidableEq

/-- The text of a failure of the stores, and of what caused it. -/
def Error.chain (error : Error) : List String :=
  match error with
  | .io fault => [error.message, fault.message]
  | _ => [error.message]

/-- The text of a failure of the cache, and of what caused it. -/
def CacheError.chain (error : CacheError) : List String :=
  match error with
  | .corrupted cause => error.message :: cause.chain
  | .format _ => [error.message]

namespace Failure

/-- The texts of a failure, the outermost one first. -/
def chain : Failure → List String
  | cache error => error.chain
  | symbols error => error.chain
  | loadSymbols error => "Failed to load symbol table" :: error.chain
  | saveSymbols error => "Failed to save symbol table" :: error.chain
  | unknownClass name => [s!"Unknown class: {name}"]
  | notCached name => [s!"Class not cached: {name}"]
  | read path fault => [s!"Failed to read {path}", fault.message]
  | parse path error => s!"Failed to parse {path}" :: error.chain

/-- Whether the cache files can no longer be trusted. -/
def requiresRebuild : Failure → Bool
  | cache error | parse _ error => error.requiresRebuild
  | _ => false

end Failure

/-- An open cache and its symbols. -/
structure Session where
  cache : OpenCache
  symbols : SymbolTable
  symbolStore : JsonStore

namespace Session

def symbolDirectory : String := "symbols"

def «open» (root : String) (config : Config) (t : Files) : Except Failure Session × Files :=
  let symbolStore : JsonStore := ⟨Path.join root symbolDirectory⟩
  match SymbolTable.load symbolStore t with
  | .error error => (.error (.loadSymbols error), t)
  | .ok symbols =>
    match OpenCache.open root config t with
    | (.error error, t) => (.error (.cache error), t)
    | (.ok cache, t) => (.ok ⟨cache, symbols, symbolStore⟩, t)

/-- Saves the symbols and ends the session. -/
def close (s : Session) (t : Files) : Except Failure Unit × Files :=
  let (result, _, t) := s.symbols.save s.symbolStore t
  (result.mapError .saveSymbols, s.cache.close t)

/-- Saves the symbols, ends the session and removes the files of the cache. The answer is what is printed. -/
def wipe (s : Session) (t : Files) : Except Failure String × Files :=
  match s.symbols.save s.symbolStore t with
  | (.error error, _, t) => (.error (.symbols error), s.cache.close t)
  | (.ok (), _, t) => (.ok (Listing.line s!"Wiped {s.cache.root}"), s.cache.wipe t)

/-- A session at work: the session, the files, and what has been printed. -/
structure Run where
  session : Session
  files : Files
  printed : String

/-- Commands of a session. -/
abbrev Command := ExceptT Failure (StateM Run)

def print (text : String) : Command Unit :=
  modifyThe Run fun r => { r with printed := r.printed ++ text }

/-- Runs an operation of the cache. -/
def onCache {α : Type} (op : Cache.Op α) : Command α := do
  let r ← getThe Run
  let (answer, cache, files) := r.session.cache.run op.run r.files
  set { r with session.cache := cache, files }
  match answer with
  | .ok value => return value
  | .error error => throw (.cache error)

def symbolTable : Command SymbolTable := do
  return (← getThe Run).session.symbols

def classId (name : String) : Command SymbolId := do
  match (← symbolTable).id? name with
  | some id => return id
  | none => throw (.unknownClass name)

def listClasses : Command Unit := do
  let names ← onCache Cache.classNames
  print (Listing.classNames (← symbolTable) names)

def showClass (name : String) : Command Unit := do
  let q ← classId name
  match ← onCache (Cache.getClass q) with
  | none => throw (.notCached name)
  | some record =>
    let remote ← onCache (Cache.isRemote q)
    let subclasses ← onCache (Cache.subclassesOf q)
    print (Listing.classRecord (← symbolTable) record remote subclasses)

/-- Prints who depends on a class. -/
def showDependencies (name : String) : Command Unit := do
  let q ← classId name
  let found ← onCache (Cache.backDependencies q)
  if found.isEmpty then print (Listing.line s!"No classes depend on {name}")
  else print (Listing.dependencies (← symbolTable) found)

def readDocument (path : String) : Command ClassDocument := do
  match (← getThe Run).files.read path with
  | .error fault => throw (.read path fault)
  | .ok bytes =>
    match Dialect.document.shape.ofBytes? bytes with
    | some document => return document
    | none => throw (.parse path (.format .notADocument))

def importDocument (document : ClassDocument) : Command SymbolId := do
  let r ← getThe Run
  let ((answer, symbols), cache, files) :=
    r.session.cache.run (Cache.importDocument document r.session.symbols) r.files
  set { r with session.cache := cache, session.symbols := symbols, files }
  match answer with
  | .ok q => return q
  | .error error => throw (.cache error)

/-- Imports the document in a file and indexes its class. -/
def importFile (path : String) : Command Unit := do
  let q ← importDocument (← readDocument path)
  onCache (Cache.indexReferences q)
  let symbols ← symbolTable
  print (Listing.line ("✓ " ++ symbols.resolve q))

/-- Imports documents in the order of their files, up to the first that fails. -/
def importFiles (paths : List String) : Command Unit :=
  paths.forM importFile

def removeClass (name : String) : Command Unit := do
  onCache (Cache.removeClass (← classId name))
  print (Listing.line s!"Removed {name}")

def showStats : Command Unit := do
  let (classes, memory) ← onCache Cache.stats
  print (Listing.stats (← symbolTable) classes memory)

end Session

end ClassDeps
