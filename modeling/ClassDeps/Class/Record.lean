import ClassDeps.Class.Shape
import ClassDeps.Symbols.Table

/-!
# Class records

The two uses of class shapes: documents, whose names are texts, and stored records, whose names are symbols.
A record is read together with the table of its symbols.

## Main definitions

* `ClassDocument`, `ClassRecord` — the two shapes
* `Method.signature?`, `isConstructor` — what the names of a method say
* `ClassShape.supertypes` — super class and interfaces
* `ClassShape.findMethodBySignature?`, `findMethodsBySignature` — look-up by signature
-/

namespace ClassDeps

/-- A class as a document describes it. -/
abbrev ClassDocument := ClassShape String (Option String)

/-- A class as it is stored. -/
abbrev ClassRecord := ClassShape SymbolId SymbolId

/-- A field as it is stored. -/
abbrev FieldRecord := Field SymbolId SymbolId

/-- A method as it is stored. -/
abbrev MethodRecord := Method SymbolId SymbolId

/-- A field or method as it is stored. -/
abbrev MemberRecord := Member SymbolId SymbolId

/-- A declaration by the symbols of its names. -/
abbrev DeclarationKey := Declaration SymbolId

/-- A document that says nothing but the name of the class. -/
def ClassDocument.new (name : String) : ClassDocument :=
  ⟨name, none, [], 0, none, "", "", [], [], [], [], []⟩

/-- A record without members and references. -/
def ClassRecord.new (name : SymbolId) (flags : Int32) : ClassRecord :=
  ⟨name, .absent, [], flags, .absent, "", "", [], [], [], [], []⟩

/-- A field without constant and annotations. -/
def FieldRecord.new (name descriptor : SymbolId) (flags : Int32) : FieldRecord :=
  ⟨name, descriptor, flags, .absent, none, [], []⟩

/-- A method without exceptions and annotations. -/
def MethodRecord.new (name descriptor : SymbolId) (flags : Int32) : MethodRecord :=
  ⟨name, descriptor, flags, .absent, [], [], [], [], [], none⟩

/-- The name of the methods that initialise an instance. -/
def constructorName : String := "<init>"

/-- Whether a method initialises an instance. -/
def Method.isConstructor (m : MethodRecord) (symbols : SymbolTable) : Bool :=
  symbols.symbol? m.name == some constructorName

/-- The signature of a method whose name and descriptor are in the table. -/
def Method.signature? (m : MethodRecord) (symbols : SymbolTable) : Option String := do
  ClassDeps.signature? (← symbols.symbol? m.name) (← symbols.symbol? m.descriptor)

namespace ClassShape

/-- The super class and the interfaces; an absent one is left out. -/
def supertypes (c : ClassRecord) : List SymbolId :=
  (c.super :: c.interfaces).filter (· ≠ .absent)

/-- The first method with a signature. -/
def findMethodBySignature? (c : ClassRecord) (signature : String) (symbols : SymbolTable) :
    Option MethodRecord :=
  c.methods.find? fun m => m.signature? symbols = some signature

/-- All methods with a signature. -/
def findMethodsBySignature (c : ClassRecord) (signature : String) (symbols : SymbolTable) :
    List MethodRecord :=
  c.methods.filter fun m => m.signature? symbols = some signature

end ClassShape

end ClassDeps
