import ClassDeps.Class.Constant
import ClassDeps.Class.Declaration

/-!
# Shapes of classes

What is known of one compiled class, over a type `ν` of names and a type `ω` of names that may be absent. A
class document has texts for names; a stored record has symbols.

## Main definitions

* `Field`, `Method`, `Member` — what a class declares
* `ClassShape` — a class with its members and what it references
* `ClassShape.findField?`, `findMethods`, … — look-up of members
* `signature?` — a method by its name and parameters only
-/

namespace ClassDeps

/-- A declared field. -/
structure Field (ν ω : Type) where
  name : ν
  descriptor : ν
  flags : Int32
  genericSignature : ω
  constant : Option (Constant ν)
  visible : List (AnnotationUse ν)
  invisible : List (AnnotationUse ν)
  deriving DecidableEq

/-- A declared method. -/
structure Method (ν ω : Type) where
  name : ν
  descriptor : ν
  flags : Int32
  genericSignature : ω
  exceptions : List ν
  visible : List (AnnotationUse ν)
  invisible : List (AnnotationUse ν)
  /-- One list for each parameter. -/
  visibleParameters : List (List (AnnotationUse ν))
  invisibleParameters : List (List (AnnotationUse ν))
  /-- The default of an element of an annotation type. -/
  default : Option (Constant ν)
  deriving DecidableEq

/-- A declared field or method. -/
inductive Member (ν ω : Type) where
  | field (field : Field ν ω)
  | method (method : Method ν ω)
  deriving DecidableEq

/-- A compiled class. -/
structure ClassShape (ν ω : Type) where
  name : ν
  super : ω
  interfaces : List ν
  flags : Int32
  genericSignature : ω
  sourceFile : String
  path : String
  visible : List (AnnotationUse ν)
  invisible : List (AnnotationUse ν)
  fields : List (Field ν ω)
  methods : List (Method ν ω)
  /-- Declarations that the body of the class uses. -/
  references : List (Declaration ν)
  deriving DecidableEq

variable {ν ω : Type}

def Member.name : Member ν ω → ν
  | field f => f.name
  | method m => m.name

def Member.descriptor : Member ν ω → ν
  | field f => f.descriptor
  | method m => m.descriptor

/-- A method by its name and the parameter part of its descriptor, which ends with the first closing
parenthesis. -/
def signature? (name descriptor : String) : Option String :=
  let parameters := descriptor.toList.takeWhile (· ≠ ')')
  if parameters.length < descriptor.toList.length then
    some (name ++ String.ofList parameters ++ ")")
  else none

namespace ClassShape

variable [DecidableEq ν] (c : ClassShape ν ω)

/-- The class without what its body uses. -/
def withoutReferences (c : ClassShape ν ω) : ClassShape ν ω :=
  { c with references := [] }

/-- The first field with a name and a descriptor. -/
def findField? (name descriptor : ν) : Option (Field ν ω) :=
  c.fields.find? fun f => f.name = name ∧ f.descriptor = descriptor

/-- The first field with a name. -/
def findFieldByName? (name : ν) : Option (Field ν ω) :=
  c.fields.find? fun f => f.name = name

/-- The first method with a name and a descriptor. -/
def findMethod? (name descriptor : ν) : Option (Method ν ω) :=
  c.methods.find? fun m => m.name = name ∧ m.descriptor = descriptor

/-- All methods with a name. -/
def findMethodsByName (name : ν) : List (Method ν ω) :=
  c.methods.filter fun m => m.name = name

end ClassShape

end ClassDeps
