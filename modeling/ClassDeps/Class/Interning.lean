import ClassDeps.Class.Record
import ClassDeps.Error

/-!
# Interning class documents

A class document becomes a record by interning its names, from left to right as the document lists them and
depth first. A name that has to be there must not be empty, and a method descriptor must contain a closing
parenthesis. Names that were interned before a fault stay interned.

## Main definitions

* `Interning` — computations that may add symbols and may fail
* `ClassShape.intern` — the record of a document
-/

namespace ClassDeps

/-- Computations over a symbol table, which they keep also when they fail. -/
abbrev Interning := ExceptT CacheError (StateM SymbolTable)

namespace Interning

def name (text : String) : Interning SymbolId := fun table =>
  match table.intern text with
  | .ok (id, table) => (.ok id, table)
  | .error fault => (.error (.corrupted (.internal fault)), table)

/-- The symbol of a text that must not be empty. -/
def required (what text : String) : Interning SymbolId :=
  if text = "" then throw (.format (.empty what)) else name text

/-- The symbol of a text that may be absent; an empty text is absent, too. -/
def optional : Option String → Interning SymbolId
  | none => pure .absent
  | some text => if text = "" then pure .absent else name text

/-- The symbol of a method descriptor, which must contain a closing parenthesis. -/
def methodDescriptor (method descriptor : String) : Interning SymbolId :=
  if (signature? method descriptor).isNone then throw (.format (.descriptor method descriptor))
  else name descriptor

mutual

/-- The constant with its names interned. -/
def constant : Constant String → Interning (Constant SymbolId)
  | .int value => pure (.int value)
  | .long value => pure (.long value)
  | .float bits => pure (.float bits)
  | .double bits => pure (.double bits)
  | .boolean value => pure (.boolean value)
  | .char value => pure (.char value)
  | .string value => pure (.string value)
  | .type name => do return .type (← required "class literal" name)
  | .enumerator type value => do
    return .enumerator (← required "enum type" type) (← required "enum constant" value)
  | .annotationUse type elements => do
    return .annotationUse (← required "annotation type" type) (← constantElements elements)
  | .array items => do return .array (← constantItems items)

def constantItems : List (Constant String) → Interning (List (Constant SymbolId))
  | [] => pure []
  | item :: rest => do return (← constant item) :: (← constantItems rest)

def constantElements : List (String × Constant String) →
    Interning (List (SymbolId × Constant SymbolId))
  | [] => pure []
  | (name, value) :: rest => do
    let element := (← required "annotation member name" name, ← constant value)
    return element :: (← constantElements rest)

end

def annotationUse (a : AnnotationUse String) : Interning (AnnotationUse SymbolId) := do
  return ⟨← required "annotation type" a.type, ← constantElements a.elements⟩

def annotations (as : List (AnnotationUse String)) : Interning (List (AnnotationUse SymbolId)) :=
  as.mapM annotationUse

def optionalConstant : Option (Constant String) → Interning (Option (Constant SymbolId))
  | none => pure none
  | some value => do return some (← constant value)

def field (f : Field String (Option String)) : Interning FieldRecord := do
  return {
    name := ← required "field name" f.name
    descriptor := ← required "field descriptor" f.descriptor
    flags := f.flags
    genericSignature := ← optional f.genericSignature
    constant := ← optionalConstant f.constant
    visible := ← annotations f.visible
    invisible := ← annotations f.invisible }

def method (m : Method String (Option String)) : Interning MethodRecord := do
  return {
    name := ← required "method name" m.name
    descriptor := ← methodDescriptor m.name m.descriptor
    flags := m.flags
    genericSignature := ← optional m.genericSignature
    exceptions := ← m.exceptions.mapM (required "exception name")
    visible := ← annotations m.visible
    invisible := ← annotations m.invisible
    visibleParameters := ← m.visibleParameters.mapM annotations
    invisibleParameters := ← m.invisibleParameters.mapM annotations
    default := ← optionalConstant m.default }

def declaration : Declaration String → Interning DeclarationKey
  | .type owner => do return .type (← required "referenced class" owner)
  | .field owner name => do
    return .field (← required "referenced class" owner) (← required "referenced field" name)
  | .method owner name descriptor => do
    return .method (← required "referenced class" owner) (← required "referenced method" name)
      (← methodDescriptor name descriptor)

/-- The names of the root of the class hierarchy, which is no super class worth recording. -/
def rootClasses : List String :=
  ["java/lang/Object", "java.lang.Object"]

/-- The symbol of a super class; a root class is absent. -/
def superClass (super : Option String) : Interning SymbolId :=
  optional (super.filter fun name => !rootClasses.contains name)

end Interning

/-- The record of a class document. -/
def ClassShape.intern (c : ClassDocument) : Interning ClassRecord := do
  return {
    name := ← Interning.required "class name" c.name
    super := ← Interning.superClass c.super
    interfaces := ← c.interfaces.mapM (Interning.required "interface name")
    flags := c.flags
    genericSignature := ← Interning.optional c.genericSignature
    sourceFile := c.sourceFile
    path := c.path
    visible := ← Interning.annotations c.visible
    invisible := ← Interning.annotations c.invisible
    fields := ← c.fields.mapM Interning.field
    methods := ← c.methods.mapM Interning.method
    references := ← c.references.mapM Interning.declaration }

end ClassDeps
