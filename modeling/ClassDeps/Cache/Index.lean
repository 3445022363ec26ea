import ClassDeps.Cache.Basic

/-!
# Indices of a cache

Who refers to what. Edges are added and removed one by one; the index pass adds all edges of a class from its
record, and the dependencies on a class are read off the edges of its members.

## Main definitions

* `Cache.referencers`, `addReferencer`, `removeReferencer` — the index of referencers
* `Cache.referenced`, `subclasses` and their updates — the indices by class
* `Cache.indexReferences` — the index pass over one class
* `Cache.backDependencies` — who depends on a class, and on which members
-/

namespace ClassDeps.Cache

/-- The classes that refer to a declaration. -/
def referencersOf (key : DeclarationKey) : Op (List SymbolId) := do
  return (← getThe Cache).referencers.values key

/-- Adds a class that refers to a declaration. -/
def addReferencer (key : DeclarationKey) (referencer : SymbolId) : Op Unit :=
  modifyThe Cache fun cache =>
    { cache with referencers := cache.referencers.add key referencer }

/-- Removes a class that refers to a declaration. -/
def removeReferencer (key : DeclarationKey) (referencer : SymbolId) : Op Unit :=
  modifyThe Cache fun cache =>
    { cache with referencers := cache.referencers.removeValue key referencer }

def isReferenced (key : DeclarationKey) (referencer : SymbolId) : Op Bool := do
  return (← referencersOf key).contains referencer

/-- The classes that a class refers to. -/
def referencedClasses (q : SymbolId) : Op (List SymbolId) := do
  return (← getThe Cache).referenced.values q

/-- Adds a class that a class refers to. -/
def addReferenced (q referenced : SymbolId) : Op Unit :=
  modifyThe Cache fun cache => { cache with referenced := cache.referenced.add q referenced }

def subclassesOf (q : SymbolId) : Op (List SymbolId) := do
  return (← getThe Cache).subclasses.values q

def addSubclass (q subclass : SymbolId) : Op Unit :=
  modifyThe Cache fun cache => { cache with subclasses := cache.subclasses.add q subclass }

def removeSubclass (q subclass : SymbolId) : Op Unit :=
  modifyThe Cache fun cache =>
    { cache with subclasses := cache.subclasses.removeValue q subclass }

/-- Adds the edges of one reference of a class. A class does not refer forward to itself. -/
def indexReference (q : SymbolId) (reference : DeclarationKey) : Op Unit := do
  addReferencer reference q
  if reference.owner ≠ q then
    addReferenced q reference.owner

/-- Adds the edges of a class from its record, which then forgets its references. -/
def indexReferences (q : SymbolId) : Op Unit := do
  if let some record ← getClass q then
    record.references.forM (indexReference q)
    record.supertypes.forM fun supertype => addSubclass supertype q
    putClass q record.withoutReferences

/-- Adds the referencers of each of some members. -/
def collectMembers (collector : Collector) : List (DeclarationKey × MemberRecord) → Op Collector
  | [] => return collector
  | (key, member) :: rest => do
    collectMembers (collector.addMemberReferencers member (← referencersOf key)) rest

/-- The members of a record with their keys, fields first. -/
def memberKeys (q : SymbolId) (record : ClassRecord) : List (DeclarationKey × MemberRecord) :=
  record.fields.map (fun f => (.field q f.name, .field f)) ++
    record.methods.map fun m => (.method q m.name m.descriptor, .method m)

/-- The classes that depend on a class, in ascending order, and the members that each uses. -/
def backDependencies (q : SymbolId) : Op (List Dependency) := do
  let collector := (Collector.new q).addReferencers (← referencersOf (.type q))
  match ← getClass q with
  | none => return collector.finish
  | some record => return (← collectMembers collector (memberKeys q record)).finish

end ClassDeps.Cache
