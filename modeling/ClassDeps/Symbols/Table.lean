import ClassDeps.Error

/-!
# Symbol tables

Names are interned: each distinct text gets the next number, counting from zero, and keeps it. Minus one
stands for a name that is absent.

## Main definitions

* `SymbolId`, `SymbolId.absent` — numbers of names
* `SymbolTable` — the interned texts in the order of their numbers
* `SymbolTable.intern`, `id?`, `symbol?` — from text to number and back
* `SymbolTable.resolve` — a text for every number, to be shown
-/

namespace ClassDeps

/-- The number of an interned name. -/
abbrev SymbolId := Int32

/-- Stands for a name that is absent. -/
def SymbolId.absent : SymbolId := -1

/-- Interned texts, and whether they differ from what was last saved. -/
structure SymbolTable where
  symbols : List String
  dirty : Bool
  deriving DecidableEq

namespace SymbolTable

/-- The table without symbols. -/
def empty : SymbolTable :=
  ⟨[], false⟩

/-- How many symbols a table can have. -/
def limit : Nat := UInt32.size / 2

def size (t : SymbolTable) : Nat :=
  t.symbols.length

/-- The number of an interned text. -/
def id? (t : SymbolTable) (symbol : String) : Option SymbolId :=
  (t.symbols.idxOf? symbol).map Int32.ofNat

/-- The text with the number `id`. -/
def symbol? (t : SymbolTable) (id : SymbolId) : Option String :=
  if 0 ≤ id then t.symbols[id.toInt.toNat]? else none

/-- The number of a text, which is added at the end if it is new. -/
def intern (t : SymbolTable) (symbol : String) : Except InternalFault (SymbolId × SymbolTable) :=
  match t.id? symbol with
  | some id => .ok (id, t)
  | none =>
    if t.size < limit then .ok (Int32.ofNat t.size, ⟨t.symbols ++ [symbol], true⟩)
    else .error .symbolTableFull

/-- The text with the number `id`, or a text that says that there is none. -/
def resolve (t : SymbolTable) (id : SymbolId) : String :=
  if id = .absent then "<unknown>" else (t.symbol? id).getD s!"#{id}"

end SymbolTable

end ClassDeps
