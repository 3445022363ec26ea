import ClassDeps.Decimal.Numeral

/-!
# JSON documents

The tree of a JSON document as it is written: members keep their order and may repeat a name, numbers keep
their numeral, and strings are the bytes they denote. Those bytes need not be well-formed UTF-8, because a
string that no one looks at may hold anything; `Json.text?` is the look.

## Main definitions

* `Json` — a document tree
* `Json.ofText`, `Json.ofInt`, `Json.record` — leaves and objects as a program writes them
* `Json.text?` — the text of a string
-/

namespace ClassDeps

/-- A JSON document. -/
inductive Json where
  | null
  | bool (value : Bool)
  | number (numeral : Numeral)
  | string (bytes : Bytes)
  | array (items : List Json)
  | object (members : List (Bytes × Json))
  deriving Inhabited

namespace Json

def ofText (s : String) : Json :=
  .string (.ofText s)

def ofInt (n : Int) : Json :=
  .number (.ofInt n)

def ofNat (n : Nat) : Json :=
  .number (.ofNat n)

/-- An object with the given members. -/
def record (members : List (String × Json)) : Json :=
  .object (members.map fun member => (.ofText member.1, member.2))

/-- The text of a string whose bytes are well-formed UTF-8. -/
def text? : Json → Option String
  | .string bytes => bytes.toText?
  | _ => none

@[simp] theorem text?_ofText (s : String) : (ofText s).text? = some s := by
  simp [ofText, text?]

/-- The integer of a number that is written as one. -/
def integer? : Json → Option Int
  | .number numeral => numeral.integer?
  | _ => none

@[simp] theorem integer?_ofInt (n : Int) : (ofInt n).integer? = some n := by
  simp [ofInt, integer?]

end Json

end ClassDeps
