import ClassDeps.Decimal.Layout
import ClassDeps.Json.Form
import ClassDeps.Ordered.Map

/-!
# Free documents

A document that is kept for its own sake has one spelling: members are sorted by the bytes of their names, of
members with equal names the last one counts, and numbers that are not integers of 64 bits are doubles in
shortest form.

## Main definitions

* `Json.canonical?` — the spelling of a document that is kept
* `Form.free` — the form of such documents
-/

namespace ClassDeps.Json

/-- A finite double as a numeral. -/
def ofDouble (bits : Nat) : Numeral :=
  match Binary.binary64.decode bits with
  | .finite negative significand exponent =>
    (Decimal.shortest Binary.binary64 .even negative significand exponent).numeral .document64
  | _ => .ofNat 0

/-- The double nearest to a numeral, as bits. -/
def toDouble? (numeral : Numeral) : Option Nat :=
  let x := numeral.value
  (Binary.binary64.ofDecimal x.digits x.exponent).map (Binary.binary64.withSign x.negative)

/-- Whether an integer has 64 bits, signed or unsigned. -/
def isWord (n : Int) : Bool :=
  Int64.minValue.toInt ≤ n && n < UInt64.size

/-- An integer of 64 bits as it is, any other number as a double. -/
def canonicalNumeral? (numeral : Numeral) : Option Numeral :=
  match numeral.integer? with
  | some n => if isWord n then some numeral else (toDouble? numeral).map ofDouble
  | none => (toDouble? numeral).map ofDouble

mutual

/-- The spelling of a document that is kept, within a number of levels. -/
def canonical? (limit : Nat) : Json → Option Json
  | .null => some .null
  | .bool b => some (.bool b)
  | .number numeral => (canonicalNumeral? numeral).map .number
  | .string bytes => bytes.toText?.map fun _ => .string bytes
  | .array items => do
    guard (0 < limit)
    return .array (← canonicalItems? (limit - 1) items)
  | .object members => do
    guard (0 < limit)
    return .object (← canonicalMembers? (limit - 1) members .empty).rows

def canonicalItems? (limit : Nat) : List Json → Option (List Json)
  | [] => some []
  | item :: rest => do
    let item ← item.canonical? limit
    return item :: (← canonicalItems? limit rest)

/-- The members of an object, added in their order to those before. -/
def canonicalMembers? (limit : Nat) : List (Bytes × Json) → Ordered.Map Bytes Json →
    Option (Ordered.Map Bytes Json)
  | [], before => some before
  | (name, value) :: rest, before => do
    let _ ← name.toText?
    let value ← value.canonical? limit
    canonicalMembers? limit rest (before.insert name value)

end

/-- A document of any shape. -/
def Form.free : Form Json where
  write j := j
  read? _ limit j := j.canonical? limit

end ClassDeps.Json
