import ClassDeps.Class.Spelling
import ClassDeps.Ordered.Map

/-!
# Dependencies

A dependency says which members of a class another class, its referencer, uses. A collector groups members by
referencer; a class is no referencer of its own.

## Main definitions

* `Dependency` — a referencer and the members that it uses
* `Dependency.attach`, `fields`, `methods` — its members
* `Collector` — dependencies by referencer
-/

namespace ClassDeps

/-- A class that refers to some class, and the members of that class which it uses. -/
structure Dependency where
  referencer : SymbolId
  members : List MemberRecord
  deriving DecidableEq

namespace Dependency

/-- A dependency on the class as such. -/
def new (referencer : SymbolId) : Dependency :=
  ⟨referencer, []⟩

/-- Adds a member at the end, unless it is there. -/
def attach (d : Dependency) (member : MemberRecord) : Dependency :=
  if member ∈ d.members then d else { d with members := d.members ++ [member] }

def fields (d : Dependency) : List FieldRecord :=
  d.members.filterMap fun
    | .field f => some f
    | .method _ => none

def methods (d : Dependency) : List MethodRecord :=
  d.members.filterMap fun
    | .field _ => none
    | .method m => some m

def form : Json.Form Dependency where
  write d := .record
    [("class_qname", Dialect.record.name.write d.referencer),
      ("members", (Json.Form.list Dialect.record.member).write d.members)]
  read?
    | _, 0, _ => none
    | source, limit + 1, j => do
      let found ← Json.members? ["class_qname", "members"] j
      return ⟨← Json.required? found "class_qname" (Dialect.record.name.read? source limit),
        ← Json.required? found "members" ((Json.Form.list Dialect.record.member).read? source limit)⟩

end Dependency

/-- Dependencies on one class, by referencer. -/
structure Collector where
  owner : SymbolId
  found : Ordered.Map SymbolId Dependency

namespace Collector

/-- No dependencies on `owner`. -/
def new (owner : SymbolId) : Collector :=
  ⟨owner, .empty⟩

/-- Changes the dependency of one referencer, which is made if there is none. -/
def update (c : Collector) (referencer : SymbolId) (change : Dependency → Dependency) : Collector :=
  if referencer = c.owner then c
  else
    let dependency := (c.found.get? referencer).getD (.new referencer)
    { c with found := c.found.insert referencer (change dependency) }

/-- Adds referencers of the class as such. -/
def addReferencers (c : Collector) (referencers : List SymbolId) : Collector :=
  referencers.foldl (fun c referencer => c.update referencer id) c

def addMemberReferencers (c : Collector) (member : MemberRecord) (referencers : List SymbolId) :
    Collector :=
  referencers.foldl (fun c referencer => c.update referencer (·.attach member)) c

/-- The dependencies in the order of their referencers. -/
def finish (c : Collector) : List Dependency :=
  c.found.values

end Collector

end ClassDeps
