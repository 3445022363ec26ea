import ClassDeps.Class.Shape
import ClassDeps.Json.Form

/-!
# Class shapes in JSON

Documents and records are spelled alike: the same members in the same order, with other member names, other
forms of names and other defaults. A `Dialect` says what differs; everything else is written and read once
for both.

## Main definitions

* `Dialect` — what documents and records do not share
* `Dialect.constant`, `annotationUse`, `field`, `method`, `member`, `declaration`, `shape` — the forms
-/

namespace ClassDeps

open Json

/-- The names of members that the dialects spell differently. -/
structure Vocabulary where
  className : String
  super : String
  interfaces : String
  genericSignature : String
  sourceFile : String
  visible : String
  invisible : String
  exceptions : String
  visibleParameters : String
  invisibleParameters : String
  constant : String
  default : String
  annotationType : String

/-- A spelling of class shapes. -/
structure Dialect (ν ω : Type) where
  words : Vocabulary
  name : Form ν
  optionalName : Form ω
  /-- What a missing optional name means. -/
  absent : ω
  /-- What missing flags mean; without it they must be there. -/
  flags : Option Int32
  float : Form UInt32
  double : Form UInt64
  /-- Whether an absent constant is left out; otherwise it is null. -/
  omitsAbsent : Bool

namespace Dialect

variable {ν ω : Type} (d : Dialect ν ω)

/-! ## Constants and annotations -/

/-- An alternative with content. -/
def alternative (type : String) (value : Json) : Json :=
  .record [("type", .ofText type), ("value", value)]

mutual

def writeConstant : Constant ν → Json
  | .int value => alternative "int" (Form.int32.write value)
  | .long value => alternative "long" (Form.int64.write value)
  | .float bits => alternative "float" (d.float.write bits)
  | .double bits => alternative "double" (d.double.write bits)
  | .boolean value => alternative "boolean" (Form.boolean.write value)
  | .char value => alternative "char" (Form.character.write value)
  | .string value => alternative "string" (Form.text.write value)
  | .type name => alternative "class" (d.name.write name)
  | .enumerator type constant =>
    alternative "enum" <| .record
      [(d.words.annotationType, d.name.write type), ("constant", d.name.write constant)]
  | .annotationUse type elements =>
    alternative "annotation" <| .record
      [(d.words.annotationType, d.name.write type), ("members", .array (writeElements elements))]
  | .array items => alternative "array" (.array (writeItems items))

def writeItems : List (Constant ν) → List Json
  | [] => []
  | item :: rest => writeConstant item :: writeItems rest

def writeElements : List (ν × Constant ν) → List Json
  | [] => []
  | (name, value) :: rest =>
    .record [("name", d.name.write name), ("value", writeConstant value)] :: writeElements rest

end

/-- Reads the type and constant of an enumerator, which must be an object. -/
def readEnumerator (source : Source) : (limit : Nat) → Json → Option (Constant ν)
  | limit + 1, .object members => do
    let found ← members? [d.words.annotationType, "constant"] (.object members)
    return .enumerator (← required? found d.words.annotationType (d.name.read? source limit))
      (← required? found "constant" (d.name.read? source limit))
  | _, _ => none

/-- The names of the alternatives of constants, in their order. -/
def constantNames : List String :=
  ["int", "long", "float", "double", "boolean", "char", "string", "class", "enum", "annotation",
    "array"]

mutual

def readConstant (source : Source) : (limit : Nat) → Json → Option (Constant ν)
  | 0, _ => none
  | limit + 1, j => do
    -- The content may have been kept while its alternative was looked for, which `source` says from here on.
    let (type, source, value) ← adjacent? constantNames source (limit + 1) j
    match type with
    | "int" => (Form.int32.read? source limit value).map .int
    | "long" => (Form.int64.read? source limit value).map .long
    | "float" => (d.float.read? source limit value).map .float
    | "double" => (d.double.read? source limit value).map .double
    | "boolean" => (Form.boolean.read? source limit value).map .boolean
    | "char" => (Form.character.read? source limit value).map .char
    | "string" => (Form.text.read? source limit value).map .string
    | "class" => (d.name.read? source limit value).map .type
    | "enum" => d.readEnumerator source limit value
    | "annotation" =>
      (readAnnotationUse source limit value).map fun a => .annotationUse a.type a.elements
    | "array" => (readItems source limit value).map .array
    | _ => none

def readItems (source : Source) : (limit : Nat) → Json → Option (List (Constant ν))
  | limit + 1, .array items => items.mapM (readConstant source limit)
  | _, _ => none

def readAnnotationUse (source : Source) : (limit : Nat) → Json → Option (AnnotationUse ν)
  | 0, _ => none
  | limit + 1, j => do
    let found ← members? [d.words.annotationType, "members"] j
    -- A list that is missing enters no level, unlike the empty list that is written for it.
    return ⟨← required? found d.words.annotationType (d.name.read? source limit),
      ← defaulted? found "members" [] (readElements source limit)⟩

def readElements (source : Source) : (limit : Nat) → Json → Option (List (ν × Constant ν))
  | limit + 1, .array items => items.mapM (readElement source limit)
  | _, _ => none

def readElement (source : Source) : (limit : Nat) → Json → Option (ν × Constant ν)
  | 0, _ => none
  | limit + 1, j => do
    let found ← members? ["name", "value"] j
    return (← required? found "name" (d.name.read? source limit),
      ← required? found "value" (readConstant source limit))

end

def constant : Form (Constant ν) :=
  ⟨d.writeConstant, d.readConstant⟩

def annotationUse : Form (AnnotationUse ν) where
  write a := .record
    [(d.words.annotationType, d.name.write a.type),
      ("members", .array (d.writeElements a.elements))]
  read? := d.readAnnotationUse

def annotations : Form (List (AnnotationUse ν)) :=
  .list d.annotationUse

/-! ## Members -/

/-- The member of an optional constant. -/
def constantMember (name : String) (value : Option (Constant ν)) : List (String × Json) :=
  if d.omitsAbsent && value.isNone then []
  else [(name, (Form.nullable d.constant).write value)]

/-- Reads flags, which have a default in some dialects. -/
def readFlags (found : List (String × Json)) (source : Source) (limit : Nat) : Option Int32 :=
  match d.flags with
  | some flags => defaulted? found "flags" flags (Form.int32.read? source limit)
  | none => required? found "flags" (Form.int32.read? source limit)

/-- Reads a list that is empty if its member is missing. -/
def readList {α : Type} (found : List (String × Json)) (name : String) (source : Source) (limit : Nat)
    (item : Form α) : Option (List α) :=
  defaulted? found name [] ((Form.list item).read? source limit)

def readOptionalConstant (found : List (String × Json)) (name : String) (source : Source)
    (limit : Nat) : Option (Option (Constant ν)) :=
  defaulted? found name none ((Form.nullable d.constant).read? source limit)

def readOptionalName (found : List (String × Json)) (name : String) (source : Source)
    (limit : Nat) : Option ω :=
  defaulted? found name d.absent (d.optionalName.read? source limit)

/-- The member names of a field, in their order. -/
def fieldNames : List String :=
  ["name", "descriptor", "flags", d.words.genericSignature, d.words.constant, d.words.visible,
    d.words.invisible]

def field : Form (Field ν ω) where
  write f := .record <|
    [("name", d.name.write f.name), ("descriptor", d.name.write f.descriptor),
      ("flags", Form.int32.write f.flags),
      (d.words.genericSignature, d.optionalName.write f.genericSignature)] ++
    d.constantMember d.words.constant f.constant ++
    [(d.words.visible, d.annotations.write f.visible),
      (d.words.invisible, d.annotations.write f.invisible)]
  read?
    | _, 0, _ => none
    | source, limit + 1, j => do
      let found ← members? d.fieldNames j
      return {
        name := ← required? found "name" (d.name.read? source limit)
        descriptor := ← required? found "descriptor" (d.name.read? source limit)
        flags := ← d.readFlags found source limit
        genericSignature := ← d.readOptionalName found d.words.genericSignature source limit
        constant := ← d.readOptionalConstant found d.words.constant source limit
        visible := ← readList found d.words.visible source limit d.annotationUse
        invisible := ← readList found d.words.invisible source limit d.annotationUse }

/-- The member names of a method, in their order. -/
def methodNames : List String :=
  ["name", "descriptor", "flags", d.words.genericSignature, d.words.exceptions, d.words.visible,
    d.words.invisible, d.words.visibleParameters, d.words.invisibleParameters, d.words.default]

def method : Form (Method ν ω) where
  write m := .record <|
    [("name", d.name.write m.name), ("descriptor", d.name.write m.descriptor),
      ("flags", Form.int32.write m.flags),
      (d.words.genericSignature, d.optionalName.write m.genericSignature),
      (d.words.exceptions, (Form.list d.name).write m.exceptions),
      (d.words.visible, d.annotations.write m.visible),
      (d.words.invisible, d.annotations.write m.invisible),
      (d.words.visibleParameters, (Form.list d.annotations).write m.visibleParameters),
      (d.words.invisibleParameters, (Form.list d.annotations).write m.invisibleParameters)] ++
    d.constantMember d.words.default m.default
  read?
    | _, 0, _ => none
    | source, limit + 1, j => do
      let found ← members? d.methodNames j
      return {
        name := ← required? found "name" (d.name.read? source limit)
        descriptor := ← required? found "descriptor" (d.name.read? source limit)
        flags := ← d.readFlags found source limit
        genericSignature := ← d.readOptionalName found d.words.genericSignature source limit
        exceptions := ← readList found d.words.exceptions source limit d.name
        visible := ← readList found d.words.visible source limit d.annotationUse
        invisible := ← readList found d.words.invisible source limit d.annotationUse
        visibleParameters := ← readList found d.words.visibleParameters source limit d.annotations
        invisibleParameters :=
          ← readList found d.words.invisibleParameters source limit d.annotations
        default := ← d.readOptionalConstant found d.words.default source limit }

/-- The members of an object, with the alternative that it is of in front. -/
def withKind (kind : String) : Json → Json
  | .object members => .object ((Bytes.ofText "kind", .ofText kind) :: members)
  | j => j

/-- The form of members; the kind is a member of the object itself. -/
def member : Form (Member ν ω) where
  write
    | .field f => withKind "field" (d.field.write f)
    | .method m => withKind "method" (d.method.write m)
  read? source limit j := do
    let (kind, content) ← tagged? ["field", "method"] source limit j
    match kind with
    | "field" => (d.field.read? .kept limit content).map .field
    | "method" => (d.method.read? .kept limit content).map .method
    | _ => none

/-- The form of declarations; the kind is a member of the object itself. -/
def declaration : Form (Declaration ν) where
  write
    | .type owner => .record [("kind", .ofText "class"), ("class", d.name.write owner)]
    | .field owner name => .record
      [("kind", .ofText "field"), ("class", d.name.write owner), ("name", d.name.write name)]
    | .method owner name descriptor => .record
      [("kind", .ofText "method"), ("class", d.name.write owner), ("name", d.name.write name),
        ("descriptor", d.name.write descriptor)]
  read? source limit j := do
    let (kind, content) ← tagged? ["class", "field", "method"] source limit j
    let component (names : List String) (name : String) : Option ν := do
      required? (← members? names content) name (d.name.read? .kept (limit - 1))
    match kind with
    | "class" => return .type (← component ["class"] "class")
    | "field" =>
      let names := ["class", "name"]
      return .field (← component names "class") (← component names "name")
    | "method" =>
      let names := ["class", "name", "descriptor"]
      return .method (← component names "class") (← component names "name")
        (← component names "descriptor")
    | _ => none

/-! ## Classes -/

/-- The member names of a class, in their order. -/
def shapeNames : List String :=
  [d.words.className, d.words.super, d.words.interfaces, "flags", d.words.genericSignature,
    d.words.sourceFile, "path", d.words.visible, d.words.invisible, "fields", "methods",
    "references"]

def shape : Form (ClassShape ν ω) where
  write c := .record
    [(d.words.className, d.name.write c.name),
      (d.words.super, d.optionalName.write c.super),
      (d.words.interfaces, (Form.list d.name).write c.interfaces),
      ("flags", Form.int32.write c.flags),
      (d.words.genericSignature, d.optionalName.write c.genericSignature),
      (d.words.sourceFile, Form.text.write c.sourceFile),
      ("path", Form.text.write c.path),
      (d.words.visible, d.annotations.write c.visible),
      (d.words.invisible, d.annotations.write c.invisible),
      ("fields", (Form.list d.field).write c.fields),
      ("methods", (Form.list d.method).write c.methods),
      ("references", (Form.list d.declaration).write c.references)]
  read?
    | _, 0, _ => none
    | source, limit + 1, j => do
      let found ← members? d.shapeNames j
      return {
        name := ← required? found d.words.className (d.name.read? source limit)
        super := ← d.readOptionalName found d.words.super source limit
        interfaces := ← readList found d.words.interfaces source limit d.name
        flags := ← d.readFlags found source limit
        genericSignature := ← d.readOptionalName found d.words.genericSignature source limit
        sourceFile := ← defaulted? found d.words.sourceFile "" (Form.text.read? source limit)
        path := ← defaulted? found "path" "" (Form.text.read? source limit)
        visible := ← readList found d.words.visible source limit d.annotationUse
        invisible := ← readList found d.words.invisible source limit d.annotationUse
        fields := ← readList found "fields" source limit d.field
        methods := ← readList found "methods" source limit d.method
        references := ← readList found "references" source limit d.declaration }

end Dialect

end ClassDeps
