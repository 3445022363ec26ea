import ClassDeps.Class.Dialect
import ClassDeps.Class.Record
import ClassDeps.Json.Canonical

/-!
# Spellings of documents and records

The two dialects: what a class document looks like, and what is stored of a class.

## Main definitions

* `Dialect.document` — names are texts, numbers stand for floating-point constants
* `Dialect.record` — names are symbols, bit patterns stand for floating-point constants
-/

namespace ClassDeps

open Json

/-- Bit patterns as an object with the member `bits`. -/
def bitsForm {α : Type} (bits : Form α) : Form α where
  write x := .record [("bits", bits.write x)]
  read?
    | source, limit + 1, .object members => do
      required? (← members? ["bits"] (.object members)) "bits" (bits.read? source limit)
    | _, _, _ => none

/-- The bits of a number in a document, as a double. -/
def readDouble : Json → Option Nat
  | .number numeral => toDouble? numeral
  | _ => none

/-- The bits of a number in a document, in single precision. -/
def readSingle : Json → Option Nat
  | .number numeral =>
    match numeral.integer? with
    | some n =>
      -- Integers of 64 bits are rounded once, all other numbers to a double first.
      if isWord n then
        (Binary.binary32.round n.natAbs 1).map (Binary.binary32.withSign (n < 0))
      else (toDouble? numeral).map Binary.narrow
    | none => (toDouble? numeral).map Binary.narrow
  | _ => none

/-- The numeral of a finite number, null for others. -/
def writeFinite (format : Binary.Format) (layout : Decimal.Layout) (bits : Nat) : Json :=
  match format.decode bits with
  | .finite negative significand exponent =>
    .number ((Decimal.shortest format .even negative significand exponent).numeral layout)
  | _ => .null

/-- Class documents: names are texts, absent ones null. -/
def Dialect.document : Dialect String (Option String) where
  words := {
    className := "name"
    super := "superName"
    interfaces := "interfaces"
    genericSignature := "genericSignature"
    sourceFile := "sourceFile"
    visible := "visibleAnnotations"
    invisible := "invisibleAnnotations"
    exceptions := "exceptions"
    visibleParameters := "visibleParameterAnnotations"
    invisibleParameters := "invisibleParameterAnnotations"
    constant := "constantValue"
    default := "annotationDefault"
    annotationType := "typeName" }
  name := Form.text
  optionalName := Form.nullable Form.text
  absent := none
  flags := some 0
  float := {
    write bits := writeFinite Binary.binary32 .document32 bits.toNat
    read? _ _ j := (readSingle j).map UInt32.ofNat }
  double := {
    write bits := writeFinite Binary.binary64 .document64 bits.toNat
    read? _ _ j := (readDouble j).map UInt64.ofNat }
  omitsAbsent := false

/-- Stored records: names are symbols, floating-point constants are bit patterns. -/
def Dialect.record : Dialect SymbolId SymbolId where
  words := {
    className := "qualified_name"
    super := "super_qualified_name"
    interfaces := "super_interfaces"
    genericSignature := "generic_signature"
    sourceFile := "source_file_name"
    visible := "runtime_visible_annotations"
    invisible := "runtime_invisible_annotations"
    exceptions := "thrown_exceptions"
    visibleParameters := "runtime_visible_parameter_annotations"
    invisibleParameters := "runtime_invisible_parameter_annotations"
    constant := "constant_value"
    default := "annotation_default"
    annotationType := "type_name" }
  name := Form.int32
  optionalName := Form.int32
  absent := .absent
  flags := none
  float := bitsForm Form.uint32
  double := bitsForm Form.uint64
  omitsAbsent := true

end ClassDeps
