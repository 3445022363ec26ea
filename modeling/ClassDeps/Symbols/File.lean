import ClassDeps.Files.JsonStore
import ClassDeps.Symbols.Table

/-!
# Saved symbol tables

A symbol table is kept as one document with a version and the symbols in the order of their numbers. It is
written only if it has changed since it was loaded or saved.

## Main definitions

* `SymbolTable.load`, `SymbolTable.save` — reading and writing the document
-/

namespace ClassDeps

/-- The document of a symbol table. -/
structure SymbolFile where
  version : UInt32
  symbols : List String

/-- The version of symbol documents. -/
def SymbolFile.supported : UInt32 := 1

def SymbolFile.form : Json.Form SymbolFile where
  write f := .record
    [("version", Json.Form.uint32.write f.version),
      ("symbols", (Json.Form.list Json.Form.text).write f.symbols)]
  read?
    | _, 0, _ => none
    | source, limit + 1, j => do
      let found ← Json.members? ["version", "symbols"] j
      return ⟨← Json.required? found "version" (Json.Form.uint32.read? source limit),
        ← Json.required? found "symbols" ((Json.Form.list Json.Form.text).read? source limit)⟩

namespace SymbolTable

def fileName : String := "symbols.json"

/-- The table of the given symbols, which must be distinct. -/
def ofSymbols : (symbols : List String) → (table : SymbolTable) → Except Error SymbolTable
  | [], table => .ok table
  | symbol :: rest, table =>
    match table.intern symbol with
    | .error fault => .error (.internal fault)
    | .ok (id, next) =>
      if id.toInt = table.size then ofSymbols rest next
      else .error (.encoding (.duplicateSymbol symbol))

/-- The table of a document, or the empty one if there is no document. -/
def load (store : JsonStore) (t : Files) : Except Error SymbolTable := do
  match ← store.loadOptional SymbolFile.form fileName t with
  | none => return .empty
  | some file =>
    if file.version ≠ SymbolFile.supported then
      throw (.encoding (.symbolVersion file.version))
    let table ← ofSymbols file.symbols .empty
    return { table with dirty := false }

/-- Saves a table that has changed. -/
def save (table : SymbolTable) (store : JsonStore) (t : Files) :
    Except Error Unit × SymbolTable × Files :=
  if table.dirty then
    match store.save SymbolFile.form fileName ⟨SymbolFile.supported, table.symbols⟩ t with
    | (.ok (), t) => (.ok (), { table with dirty := false }, t)
    | (.error error, t) => (.error error, table, t)
  else (.ok (), table, t)

end SymbolTable

end ClassDeps
