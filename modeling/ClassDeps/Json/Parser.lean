import ClassDeps.Json.Basic
import ClassDeps.Json.Quoted

/-!
# Reading JSON

A strict reader: no comments, no trailing commas, no leading zeros, and nothing but blanks after the
document. Blanks are the space, the tab, the line feed and the carriage return. Only the grammar is checked
here: how deep a document may nest, and whether its strings and numbers mean something, is for those who
read values from it.

## Main definitions

* `Json.ofBytes?` — the document that a byte string writes
-/

namespace ClassDeps.Json

/-- The characters that may stand between tokens. -/
def isBlank (b : UInt8) : Bool :=
  b == 32 || b == 9 || b == 10 || b == 13

/-- What follows the blanks at the front. -/
def skipBlanks (s : Bytes) : Bytes :=
  s.dropWhile isBlank

/-- What follows `word` at the front. -/
def afterWord? (word : String) (s : Bytes) : Option Bytes :=
  (Bytes.ofText word).isPrefixOf? s

mutual

/-- Reads a document off the front of a byte string. -/
def spanValue? : (fuel : Nat) → Bytes → Option (Json × Bytes)
  | 0, _ => none
  | fuel + 1, s =>
    match skipBlanks s with
    | [] => none
    | 34 :: rest => (Quoted.span? rest).map fun (bytes, rest) => (.string bytes, rest)
    | 91 :: rest =>
      match skipBlanks rest with
      | 93 :: rest => some (.array [], rest)
      | rest => (spanItems? fuel rest).map fun (items, rest) => (.array items, rest)
    | 123 :: rest =>
      match skipBlanks rest with
      | 125 :: rest => some (.object [], rest)
      | rest => (spanMembers? fuel rest).map fun (members, rest) => (.object members, rest)
    | 110 :: rest => (afterWord? "ull" rest).map fun rest => (.null, rest)
    | 116 :: rest => (afterWord? "rue" rest).map fun rest => (.bool true, rest)
    | 102 :: rest => (afterWord? "alse" rest).map fun rest => (.bool false, rest)
    | s => (Numeral.span? s).map fun (numeral, rest) => (.number numeral, rest)

/-- Reads the items of an array and its closing bracket. -/
def spanItems? : (fuel : Nat) → Bytes → Option (List Json × Bytes)
  | 0, _ => none
  | fuel + 1, s => do
    let (item, rest) ← spanValue? fuel s
    match skipBlanks rest with
    | 44 :: rest =>
      let (items, rest) ← spanItems? fuel rest
      return (item :: items, rest)
    | 93 :: rest => return ([item], rest)
    | _ => none

/-- Reads the members of an object and its closing brace. -/
def spanMembers? : (fuel : Nat) → Bytes → Option (List (Bytes × Json) × Bytes)
  | 0, _ => none
  | fuel + 1, s => do
    let 34 :: rest := skipBlanks s | none
    let (name, rest) ← Quoted.span? rest
    let 58 :: rest := skipBlanks rest | none
    let (value, rest) ← spanValue? fuel rest
    match skipBlanks rest with
    | 44 :: rest =>
      let (members, rest) ← spanMembers? fuel rest
      return ((name, value) :: members, rest)
    | 125 :: rest => return ([(name, value)], rest)
    | _ => none

end

/-- The document that a byte string writes. Each call of the reader but every second one takes a byte, so that
the fuel suffices. -/
def ofBytes? (s : Bytes) : Option Json := do
  let (j, rest) ← spanValue? (2 * s.length + 2) s
  guard (skipBlanks rest = [])
  return j

end ClassDeps.Json
