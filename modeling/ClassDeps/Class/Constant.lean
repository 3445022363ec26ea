/-!
# Constants and annotations

Compile-time constants of fields and annotations, over any type of names: texts in a class document, symbols
in a stored record. Floating-point constants are bit patterns, so that they are equal exactly when they are
stored alike.

## Main definitions

* `Constant` — a constant; annotations are constants, too
* `AnnotationUse` — an annotation of a class, a member or a parameter
* `Constant.same` — equality of constants
-/

namespace ClassDeps

/-- A compile-time constant. -/
inductive Constant (ν : Type) where
  | int (value : Int32)
  | long (value : Int64)
  | float (bits : UInt32)
  | double (bits : UInt64)
  | boolean (value : Bool)
  | char (value : Char)
  | string (value : String)
  /-- A class, by its name. -/
  | type (name : ν)
  | enumerator (type constant : ν)
  | annotationUse (type : ν) (elements : List (ν × Constant ν))
  | array (items : List (Constant ν))

/-- An annotation: its type and its named elements. -/
structure AnnotationUse (ν : Type) where
  type : ν
  elements : List (ν × Constant ν)

variable {ν : Type} [DecidableEq ν]

mutual

/-- Whether two constants are equal. -/
def Constant.same : Constant ν → Constant ν → Bool
  | .int a, .int b => a == b
  | .long a, .long b => a == b
  | .float a, .float b => a == b
  | .double a, .double b => a == b
  | .boolean a, .boolean b => a == b
  | .char a, .char b => a == b
  | .string a, .string b => a == b
  | .type a, .type b => a == b
  | .enumerator a c, .enumerator b d => a == b && c == d
  | .annotationUse a xs, .annotationUse b ys => a == b && sameElements xs ys
  | .array xs, .array ys => sameItems xs ys
  | _, _ => false

def sameItems : List (Constant ν) → List (Constant ν) → Bool
  | [], [] => true
  | x :: xs, y :: ys => x.same y && sameItems xs ys
  | _, _ => false

def sameElements : List (ν × Constant ν) → List (ν × Constant ν) → Bool
  | [], [] => true
  | (a, x) :: xs, (b, y) :: ys => a == b && x.same y && sameElements xs ys
  | _, _ => false

end

mutual

theorem Constant.same_iff : (a b : Constant ν) → (a.same b = true ↔ a = b)
  | .int _, b | .long _, b | .float _, b | .double _, b | .boolean _, b | .char _, b | .string _, b
  | .type _, b | .enumerator _ _, b => by cases b <;> simp [Constant.same]
  | .annotationUse _ xs, b => by cases b <;> simp [Constant.same, sameElements_iff xs]
  | .array xs, b => by cases b <;> simp [Constant.same, sameItems_iff xs]

theorem sameItems_iff : (xs ys : List (Constant ν)) → (sameItems xs ys = true ↔ xs = ys)
  | [], ys => by cases ys <;> simp [sameItems]
  | x :: xs, ys => by cases ys <;> simp [sameItems, Constant.same_iff x, sameItems_iff xs]

theorem sameElements_iff :
    (xs ys : List (ν × Constant ν)) → (sameElements xs ys = true ↔ xs = ys)
  | [], ys => by cases ys <;> simp [sameElements]
  | (a, x) :: xs, ys => by
    cases ys <;>
      simp [sameElements, Prod.ext_iff, Constant.same_iff x, sameElements_iff xs]

end

instance : DecidableEq (Constant ν) := fun a b =>
  decidable_of_iff _ (Constant.same_iff a b)

deriving instance DecidableEq for AnnotationUse

/-- The bits of a single-precision constant. -/
def Constant.float? : Constant ν → Option UInt32
  | .float bits => some bits
  | _ => none

/-- The bits of a double-precision constant. -/
def Constant.double? : Constant ν → Option UInt64
  | .double bits => some bits
  | _ => none

end ClassDeps
