import ClassDeps.Json.Codec
import ClassDeps.Store.Contents

/-!
# Bytes of store files

A store file is written as a document behind a byte that no text begins with. Keys and values are strings of
the document; its strings hold any bytes. As long as everything is still in the log, the file itself has one
page with a header and nothing on it.

## Main definitions

* `StoreFile.form` — store files as documents
* `StoreFile.image`, `StoreFile.ofImage?` — store files as bytes
* `StoreFile.page` — what is in the file while everything is in the log
-/

namespace ClassDeps

namespace StoreFile

/-- Any bytes as a string. -/
def bytesForm : Json.Form Bytes where
  write := .string
  read? _ _
    | .string bytes => some bytes
    | _ => none

def pairForm {α β : Type} (first : Json.Form α) (second : Json.Form β) : Json.Form (α × β) where
  write pair := .array [first.write pair.1, second.write pair.2]
  read?
    | source, limit + 1, .array [a, b] => do
      return (← first.read? source limit a, ← second.read? source limit b)
    | _, _, _ => none

def rowsForm : Json.Form (List (Bytes × Bytes)) :=
  .list (pairForm bytesForm bytesForm)

def linksForm : Json.Form (List (Bytes × Int32)) :=
  .list (pairForm bytesForm Json.Form.int32)

/-- The contents of a store as a member that is named for their kind. -/
def contentsMember : StoreContents → String × Json
  | .keyValue rows => (StoreKind.keyValue.name, rowsForm.write rows.rows)
  | .multiValue links =>
    (StoreKind.multiValue.name, linksForm.write (links.elements.map fun l => (l.key, l.value)))

def readContents (found : List (String × Json)) (source : Json.Source) (limit : Nat) :
    Option StoreContents :=
  match found.lookup StoreKind.keyValue.name, found.lookup StoreKind.multiValue.name with
  | some j, none => do
    let rows ← rowsForm.read? source limit j
    return .keyValue (rows.foldl (fun map row => map.insert row.1 row.2) .empty)
  | none, some j => do
    let links ← linksForm.read? source limit j
    return .multiValue (links.foldl (fun set link => set.insert ⟨link.1, link.2⟩) .empty)
  | _, _ => none

def form : Json.Form StoreFile where
  write f := .record [("schema", Json.Form.int32.write f.schema), contentsMember f.contents]
  read?
    | _, 0, _ => none
    | source, limit + 1, j => do
      let found ← Json.members? ["schema", StoreKind.keyValue.name, StoreKind.multiValue.name] j
      return ⟨← Json.required? found "schema" (Json.Form.int32.read? source limit),
        ← readContents found source limit, .unused, none⟩

/-- The byte that store files begin with. -/
def mark : UInt8 := 0xFF

/-- A store file as bytes. -/
def image (f : StoreFile) : Bytes :=
  mark :: form.toBytes f

/-- The store file that bytes stand for. -/
def ofImage? : Bytes → Option StoreFile
  | [] => none
  | b :: rest => if b = mark then form.ofBytes? rest else none

/-- How long a page is. -/
def pageSize : Nat := 4096

/-- The header of a file that asks for a log and has one page, and the mark of a page without rows. -/
def header : Bytes :=
  Bytes.ofText "SQLite format 3" ++ [0, 16, 0, 2, 2, 0, 64, 32, 32] ++ [0, 0, 0, 1, 0, 0, 0, 1] ++
    List.replicate 60 0 ++ [0, 0, 0, 1, 0, 46, 122, 112] ++ [13, 0, 0, 0, 0, 16]

/-- The only page of a file while everything is in the log. -/
def page : Bytes :=
  header ++ List.replicate (pageSize - header.length) 0

/-- What is in the file now. -/
def bytes (f : StoreFile) : Bytes :=
  if f.log.isWhole then page else f.image

end StoreFile

end ClassDeps
