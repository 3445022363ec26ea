import ClassDeps.Class.Dependency
import ClassDeps.Class.Interning
import ClassDeps.Class.Spelling
import ClassDeps.Store.KeyValue
import ClassDeps.Store.MultiValue

/-!
# Dependency caches

A cache is five stores: records and remote markers by class, the index of referencers by declaration, and the
indices of referenced classes and of subclasses by class. An operation keeps what it has done when it fails;
only reading a record or marker, or listing the keys, can fail.

## Main definitions

* `Cache` — the five stores
* `Cache.Op` — operations on a cache
* `Cache.getClass`, `putClass`, `importDocument`, `importFrom`, `removeClass` — records
* `Cache.read` — a part of a record, with an answer for classes without one
-/

namespace ClassDeps

instance : Storable ClassRecord := ⟨Dialect.record.shape⟩

instance : Storable Bool := ⟨Json.Form.boolean⟩

instance : Storable Json := ⟨Json.Form.free⟩

/-- The stores of a cache. -/
structure Cache where
  /-- The path of the directory, as it was given. -/
  root : String
  classes : KeyValueStore SymbolId ClassRecord
  remote : KeyValueStore SymbolId Bool
  referencers : MultiValueStore DeclarationKey
  referenced : MultiValueStore SymbolId
  subclasses : MultiValueStore SymbolId

namespace Cache

/-- Operations on a cache, which they keep also when they fail. -/
abbrev Op := ExceptT CacheError (StateM Cache)

/-- Fails because something in the stores is unreadable. -/
def unreadable {α : Type} (fault : EncodingFault) : Op α :=
  throw (.corrupted (.encoding fault))

/-! ## Records -/

/-- The names of all stored classes in the order of their keys. -/
def classNames : Op (List SymbolId) := do
  match (← getThe Cache).classes.keys with
  | .ok names => return names
  | .error fault => unreadable (.key fault)

def containsClass (q : SymbolId) : Op Bool := do
  return (← getThe Cache).classes.contains q

def getClass (q : SymbolId) : Op (Option ClassRecord) := do
  let cache ← getThe Cache
  let (answer, classes) := cache.classes.get q
  set { cache with classes }
  match answer with
  | .ok record => return record
  | .error fault => unreadable fault

def putClass (q : SymbolId) (record : ClassRecord) : Op Unit :=
  modifyThe Cache fun cache => { cache with classes := cache.classes.put q record }

/-- Stores the record of a class document. The symbols of the document stay interned if that fails. -/
def importDocument (document : ClassDocument) (symbols : SymbolTable) :
    StateM Cache (Except CacheError SymbolId × SymbolTable) := do
  match document.intern symbols with
  | (.error error, symbols) => return (.error error, symbols)
  | (.ok record, symbols) =>
    let stored ← (putClass record.name record).run
    return (stored.map fun _ => record.name, symbols)

/-- Stores what another cache knows of a class, without what its body uses. -/
def importRecord (q : SymbolId) (found : Option ClassRecord) : Op Unit :=
  match found with
  | none => return ()
  | some record => putClass q record.withoutReferences

/-- Removes what the stores hold for and under the members of a record. -/
def removeRecord (q : SymbolId) (record : ClassRecord) : Op Unit :=
  modifyThe Cache fun cache =>
    let keys :=
      record.fields.map (fun f => Declaration.field q f.name) ++
        record.methods.map fun m => Declaration.method q m.name m.descriptor
    { cache with
      referencers := keys.foldl (fun index key => (index.remove key).2) cache.referencers
      classes := (cache.classes.remove q).2 }

/-- Removes everything that the indices and markers hold about a class, as a key and as a value. -/
def removeEntries (q : SymbolId) : Op Unit :=
  modifyThe Cache fun cache =>
    { cache with
      referencers := (((cache.referencers.remove (.type q)).2).purge q).2
      referenced := (((cache.referenced.remove q).2).purge q).2
      subclasses := (((cache.subclasses.remove q).2).purge q).2
      remote := (cache.remote.remove q).2 }

/-- Removes a class with every entry about it. -/
def removeClass (q : SymbolId) : Op Unit := do
  if let some record ← getClass q then
    removeRecord q record
  removeEntries q

/-! ## Parts of records -/

/-- A part of a record, or `absent` for a class without one. -/
def read {α : Type} (q : SymbolId) (absent : α) (part : ClassRecord → α) : Op α := do
  return ((← getClass q).map part).getD absent

def superClass (q : SymbolId) : Op SymbolId := read q .absent (·.super)

def interfaces (q : SymbolId) : Op (List SymbolId) := read q [] (·.interfaces)

/-- The flags; minus one for a class without a record. -/
def flags (q : SymbolId) : Op Int32 := read q (-1) (·.flags)

def genericSignature (q : SymbolId) : Op SymbolId := read q .absent (·.genericSignature)

def sourceFile (q : SymbolId) : Op String := read q "" (·.sourceFile)

def path (q : SymbolId) : Op String := read q "" (·.path)

/-- Changes the path of a class that has a record. -/
def setPath (q : SymbolId) (path : String) : Op Unit := do
  if let some record ← getClass q then
    putClass q { record with path }

/-- The annotations that are visible at run time. -/
def visible (q : SymbolId) : Op (List (AnnotationUse SymbolId)) := read q [] (·.visible)

/-- The annotations that are not visible at run time. -/
def invisible (q : SymbolId) : Op (List (AnnotationUse SymbolId)) := read q [] (·.invisible)

/-- The references that have not been indexed. -/
def references (q : SymbolId) : Op (List DeclarationKey) := read q [] (·.references)

def fields (q : SymbolId) : Op (List FieldRecord) := read q [] (·.fields)

def methods (q : SymbolId) : Op (List MethodRecord) := read q [] (·.methods)

/-- The first field with a name and a descriptor. -/
def findField? (q name descriptor : SymbolId) : Op (Option FieldRecord) :=
  read q none (·.findField? name descriptor)

/-- The first field with a name. -/
def findFieldByName? (q name : SymbolId) : Op (Option FieldRecord) :=
  read q none (·.findFieldByName? name)

/-- The first method with a name and a descriptor. -/
def findMethod? (q name descriptor : SymbolId) : Op (Option MethodRecord) :=
  read q none (·.findMethod? name descriptor)

/-- All methods with a name. -/
def findMethodsByName (q name : SymbolId) : Op (List MethodRecord) :=
  read q [] (·.findMethodsByName name)

/-- The first method with a signature. -/
def findMethodBySignature? (q : SymbolId) (signature : String) (symbols : SymbolTable) :
    Op (Option MethodRecord) :=
  read q none fun record => record.findMethodBySignature? signature symbols

/-- All methods with a signature. -/
def findMethodsBySignature (q : SymbolId) (signature : String) (symbols : SymbolTable) :
    Op (List MethodRecord) :=
  read q [] fun record => record.findMethodsBySignature signature symbols

/-! ## Remote markers -/

def isRemote (q : SymbolId) : Op Bool := do
  let cache ← getThe Cache
  let (answer, remote) := cache.remote.get q
  set { cache with remote }
  match answer with
  | .ok marker => return marker.getD false
  | .error fault => unreadable fault

/-- Marks a class as remote or as not remote. -/
def setRemote (q : SymbolId) (marker : Bool) : Op Unit :=
  modifyThe Cache fun cache => { cache with remote := cache.remote.put q marker }

/-- How many records are stored, and what the memory of the record store has counted. -/
def stats : Op (Nat × Lru.Stats) := do
  let cache ← getThe Cache
  return (cache.classes.size, cache.classes.stats)

end Cache

end ClassDeps
