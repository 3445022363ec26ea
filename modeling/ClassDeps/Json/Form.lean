import ClassDeps.Json.Basic
import ClassDeps.Binary

/-!
# Forms of values

How values of a type stand in a document, and how they are read from one. A reader is told where the document
comes from and gets the number of levels of arrays and objects that it may still enter. Only what it looks at
has to make sense: the value of a member that it does not know is skipped.

## Main definitions

* `Json.Source` — where a document that is read comes from
* `Json.Form` — a writer and a reader for one type
* `Form.int32`, `text`, `character`, `list`, `nullable`, … — basic forms
* `Json.members?` — the members of an object, or of an array that stands for one
* `Json.required?`, `Json.defaulted?` — reading one member
* `Json.variant?`, `Json.tagged?`, `Json.adjacent?` — three ways of writing which alternative is meant
-/

namespace ClassDeps.Json

/-- The deepest nesting of arrays and objects that readers accept. -/
def depthLimit : Nat := 127

/-- Where a document comes from when it is read: straight from its text, or from a place where it was kept until
the name of its alternative was known. The two differ in how the name of an alternative may be given. -/
inductive Source where
  | text
  | kept
  deriving DecidableEq

/-- A way of writing values and of reading them within a number of levels. -/
structure Form (α : Type) where
  write : α → Json
  read? : Source → (limit : Nat) → Json → Option α

namespace Form

/-- An integer of the given range, written without point and power of ten. -/
def integer? (least greatest : Int) (j : Json) : Option Int :=
  j.integer?.filter fun n => least ≤ n && n ≤ greatest

def int32 : Form Int32 where
  write n := .ofInt n.toInt
  read? _ _ j := (integer? Int32.minValue.toInt Int32.maxValue.toInt j).map Int32.ofInt

def int64 : Form Int64 where
  write n := .ofInt n.toInt
  read? _ _ j := (integer? Int64.minValue.toInt Int64.maxValue.toInt j).map Int64.ofInt

def uint32 : Form UInt32 where
  write n := .ofInt n.toNat
  read? _ _ j := (integer? 0 (UInt32.size - 1) j).map fun n => .ofNat n.toNat

def uint64 : Form UInt64 where
  write n := .ofInt n.toNat
  read? _ _ j := (integer? 0 (UInt64.size - 1) j).map fun n => .ofNat n.toNat

def boolean : Form Bool where
  write := .bool
  read? _ _
    | .bool b => some b
    | _ => none

def text : Form String where
  write := .ofText
  read? _ _ j := j.text?

/-- A single character, written as a text. -/
def character : Form Char where
  write c := .ofText (.singleton c)
  read? _ _ j := do
    let [c] := (← j.text?).toList | none
    return c

/-- A list of values, written as an array. -/
def list {α : Type} (item : Form α) : Form (List α) where
  write items := .array (items.map item.write)
  read?
    | source, limit + 1, .array items => items.mapM (item.read? source limit)
    | _, _, _ => none

/-- A value or nothing, written as null. -/
def nullable {α : Type} (value : Form α) : Form (Option α) where
  write
    | none => .null
    | some x => value.write x
  read?
    | _, _, .null => some none
    | source, limit, j => (value.read? source limit j).map some

/-- The value that a whole document stands for. -/
def ofJson? {α : Type} (form : Form α) (j : Json) : Option α :=
  form.read? .text depthLimit j

end Form

/-! ## Records -/

/-- Members with their names as texts, if all names are texts. -/
def named? (members : List (Bytes × Json)) : Option (List (String × Json)) :=
  members.mapM fun member => member.1.toText?.map (·, member.2)

/-- The members that have one of the given names. An object may have further members, but none of these
twice. An array lists the members in the order of the names and may stop early. -/
def members? (names : List String) : Json → Option (List (String × Json))
  | .array items => if items.length ≤ names.length then some (names.zip items) else none
  | .object members => do
    let known := (← named? members).filter fun member => names.contains member.1
    guard (known.map Prod.fst).Nodup
    return known
  | _ => none

/-- Reads the member `name`, which must be there. -/
def required? {α : Type} (members : List (String × Json)) (name : String) (read? : Json → Option α) :
    Option α :=
  (members.lookup name).bind read?

/-- Reads the member `name`, with a value for the case that it is not there. -/
def defaulted? {α : Type} (members : List (String × Json)) (name : String) (default : α)
    (read? : Json → Option α) : Option α :=
  match members.lookup name with
  | none => some default
  | some j => read? j

/-! ## Documents that are kept before they are read -/

/-- Whether a number lies in the range of double precision. -/
def isFinite (numeral : Numeral) : Bool :=
  (Binary.binary64.ofDecimal numeral.value.digits numeral.value.exponent).isSome

mutual

/-- Whether all strings and names are texts, all numbers are in range, and arrays and objects nest at most
`limit` deep. -/
def sound (limit : Nat) : Json → Bool
  | .null | .bool _ => true
  | .number numeral => isFinite numeral
  | .string bytes => bytes.toText?.isSome
  | .array items => 0 < limit && soundItems (limit - 1) items
  | .object members => 0 < limit && soundMembers (limit - 1) members

def soundItems (limit : Nat) : List Json → Bool
  | [] => true
  | item :: rest => item.sound limit && soundItems limit rest

def soundMembers (limit : Nat) : List (Bytes × Json) → Bool
  | [] => true
  | (name, value) :: rest =>
    name.toText?.isSome && value.sound limit && soundMembers limit rest

end

/-! ## Alternatives -/

/-- What an alternative without content holds: null, or in a kept document also an object without members. -/
def isUnit : Source → Json → Bool
  | _, .null => true
  | .kept, .object [] => true
  | _, _ => false

/-- The name of an alternative without content: a text, or an object with that name as its only member. -/
def variant? : Source → (limit : Nat) → Json → Option String
  | source, _ + 1, .object [(name, content)] => if isUnit source content then name.toText? else none
  | _, _, j => j.text?

/-- The name of an alternative that stands alone: a text, or in a kept document also its place in the list of
all names. -/
def name? (names : List String) (source : Source) (j : Json) : Option String :=
  match source, j.integer? with
  | .kept, some (.ofNat place) => names[place]?
  | _, _ => j.text?

/-- The form of values without content that are written as their names. -/
def Form.named {α : Type} (values : List α) (name : α → String) : Form α where
  write x := .ofText (name x)
  read? source limit j := do
    let text ← variant? source limit j
    values.find? fun x => name x = text

/-- An alternative whose name is the member `kind` of its own object, or the first item of an array: the name
and the object or array without it, which is kept until the name is known. -/
def tagged? (names : List String) (source : Source) : (limit : Nat) → Json → Option (String × Json)
  | limit + 1, .array (kind :: items) => do
    guard (soundItems limit items)
    return (← name? names source kind, .array items)
  | limit + 1, .object members => do
    guard (soundMembers limit members)
    let (kinds, others) := members.partition fun member => member.1 = .ofText "kind"
    let [(_, kind)] := kinds | none
    return (← name? names source kind, .object others)
  | _, _ => none

/-- An alternative with its name as the member `type` and its content as the member `value`, or both as an array
of two. The content comes with its source: if it stands before the name it is kept until the name is known. -/
def adjacent? (names : List String) (source : Source) :
    (limit : Nat) → Json → Option (String × Source × Json)
  | _ + 1, .array [type, value] => do
    return (← name? names source type, source, value)
  | limit + 1, .object members => do
    let known := (← named? members).filter fun member => member.1 = "type" || member.1 = "value"
    match known with
    | [("type", type), ("value", value)] => return (← variant? source limit type, source, value)
    | [("value", value), ("type", type)] =>
      guard (value.sound limit)
      return (← variant? source limit type, .kept, value)
    | _ => none
  | _, _ => none

end ClassDeps.Json
