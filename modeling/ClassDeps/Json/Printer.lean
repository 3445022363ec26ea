import ClassDeps.Json.Basic
import ClassDeps.Json.Quoted

/-!
# Writing JSON

The two written forms of a document: the compact one without blanks, and the indented one with an item or
member on each line.

## Main definitions

* `Json.toBytes` — the compact form
* `Json.toIndented` — the form with two blanks of indentation for each level
-/

namespace ClassDeps.Json

/-- Puts a comma between byte strings. -/
def separated (separator : Bytes) : List Bytes → Bytes
  | [] => []
  | [part] => part
  | part :: rest => part ++ separator ++ separated separator rest

mutual

/-- The compact form of a document. -/
def toBytes : Json → Bytes
  | .null => .ofText "null"
  | .bool true => .ofText "true"
  | .bool false => .ofText "false"
  | .number numeral => numeral.toBytes
  | .string bytes => Quoted.encode bytes
  | .array items => 91 :: separated [44] (itemsToBytes items) ++ [93]
  | .object members => 123 :: separated [44] (membersToBytes members) ++ [125]

def itemsToBytes : List Json → List Bytes
  | [] => []
  | item :: rest => item.toBytes :: itemsToBytes rest

def membersToBytes : List (Bytes × Json) → List Bytes
  | [] => []
  | (name, value) :: rest =>
    (Quoted.encode name ++ 58 :: value.toBytes) :: membersToBytes rest

end

/-- A new line with `level` steps of indentation. -/
def lineBreak (level : Nat) : Bytes :=
  10 :: List.replicate (2 * level) 32

/-- Parts in brackets, each on a line of its own; without parts only the brackets. -/
def block (left right : UInt8) (level : Nat) (parts : List Bytes) : Bytes :=
  if parts = [] then [left, right]
  else
    left :: lineBreak (level + 1) ++ separated (44 :: lineBreak (level + 1)) parts ++
      lineBreak level ++ [right]

mutual

/-- The indented form of a document that stands `level` steps from the margin. -/
def indented (level : Nat) : Json → Bytes
  | .array items => block 91 93 level (indentedItems (level + 1) items)
  | .object members => block 123 125 level (indentedMembers (level + 1) members)
  | leaf => leaf.toBytes

def indentedItems (level : Nat) : List Json → List Bytes
  | [] => []
  | item :: rest => item.indented level :: indentedItems level rest

def indentedMembers (level : Nat) : List (Bytes × Json) → List Bytes
  | [] => []
  | (name, value) :: rest =>
    (Quoted.encode name ++ 58 :: 32 :: value.indented level) :: indentedMembers level rest

end

/-- The indented form of a document. -/
def toIndented (j : Json) : Bytes :=
  j.indented 0

/-- The compact form as a text; it is well-formed UTF-8 if all strings of the document are. -/
def toText (j : Json) : String :=
  j.toBytes.toText?.getD ""

end ClassDeps.Json
