import ClassDeps.Class.Dependency
import ClassDeps.Decimal.Layout
import ClassDeps.Lru.Ratio
import ClassDeps.Text.Quoted

/-!
# Listings

What the commands show of records, dependencies and counts.

## Main definitions

* `Listing.constant` — a constant as a program would write it
* `Listing.classRecord`, `Listing.dependencies`, `Listing.stats`, `Listing.classNames` — whole listings
-/

namespace ClassDeps.Listing

/-- The text of a floating-point constant; infinities and what is no number have names. -/
def floating (format : Binary.Format) (bits : Nat) : String :=
  match format.decode bits with
  | .nan => "NaN"
  | .infinite negative => if negative then "-inf" else "inf"
  | .finite negative significand exponent =>
    ((Decimal.shortest format .up negative significand exponent).numeral .listing).toText

/-- Hexadecimal digits of the two's complement, at least four. -/
def hexadecimal (flags : Int32) : String :=
  let digits := Nat.toDigits 16 flags.toUInt32.toNat
  "0x" ++ String.ofList (List.replicate (4 - digits.length) '0' ++ digits)

/-- Items between commas. -/
def commas (items : List String) : String :=
  String.intercalate ", " items

def line (text : String) : String :=
  text ++ "\n"

/-- A line that is left out if there is nothing to show. -/
def optionalLine (label text : String) : String :=
  if text = "" then "" else line (label ++ text)

variable (symbols : SymbolTable)

mutual

/-- A constant as a program would write it. -/
def constant : Constant SymbolId → String
  | .int value => toString value.toInt
  | .long value => toString value.toInt ++ "L"
  | .float bits => floating Binary.binary32 bits.toNat ++ "f"
  | .double bits => floating Binary.binary64 bits.toNat
  | .boolean value => if value then "true" else "false"
  | .char value => Text.quoteChar value
  | .string value => Text.quote value
  | .type name => symbols.resolve name ++ ".class"
  | .enumerator type value => symbols.resolve type ++ "." ++ symbols.resolve value
  | .annotationUse type _ => "@" ++ symbols.resolve type
  | .array items => "\x7b" ++ commas (constants items) ++ "\x7d"

def constants : List (Constant SymbolId) → List String
  | [] => []
  | item :: rest => constant item :: constants rest

end

def names (ids : List SymbolId) : String :=
  commas (ids.map symbols.resolve)

/-- A line for names that is left out if there are none. -/
def namesLine (label : String) (ids : List SymbolId) : String :=
  if ids = [] then "" else line (label ++ names symbols ids)

def field (f : FieldRecord) : String :=
  let initial :=
    match f.constant with
    | none => ""
    | some value => " = " ++ constant symbols value
  line ("    " ++ symbols.resolve f.name ++ " " ++ symbols.resolve f.descriptor ++ initial)

def method (m : MethodRecord) : String :=
  let note := if m.isConstructor symbols then "  (constructor)" else ""
  line ("    " ++ symbols.resolve m.name ++ symbols.resolve m.descriptor ++ note)

def classRecord (c : ClassRecord) (remote : Bool) (subclasses : List SymbolId) : String :=
  line ("class " ++ symbols.resolve c.name) ++
    (if c.super = .absent then "" else line ("  super:       " ++ symbols.resolve c.super)) ++
    namesLine symbols "  interfaces:  " c.interfaces ++
    line ("  flags:       " ++ hexadecimal c.flags) ++
    optionalLine "  source:      " c.sourceFile ++
    optionalLine "  path:        " c.path ++
    line ("  remote:      " ++ if remote then "true" else "false") ++
    namesLine symbols "  subclasses:  " subclasses ++
    line s!"  fields ({c.fields.length}):" ++ String.join (c.fields.map (field symbols)) ++
    line s!"  methods ({c.methods.length}):" ++ String.join (c.methods.map (method symbols))

def member : MemberRecord → String
  | .field f => line ("  field  " ++ symbols.resolve f.name)
  | .method m => line ("  method " ++ symbols.resolve m.name ++ symbols.resolve m.descriptor)

/-- The listing of dependencies: each referencer with the members that it uses. -/
def dependencies (found : List Dependency) : String :=
  String.join <| found.map fun d =>
    line (symbols.resolve d.referencer) ++ String.join (d.members.map (member symbols))

def stats (classes : Nat) (memory : Lru.Stats) : String :=
  line s!"classes:    {classes}" ++
    line s!"symbols:    {symbols.size}" ++
    line s!"in memory:  {memory.entries}/{memory.capacity}" ++
    line (s!"lookups:    {memory.hits} hits, {memory.misses} misses (" ++
      memory.hitPercent.toText ++ "% hit ratio)") ++
    line s!"evictions:  {memory.evictions}"

/-- The names of classes in alphabetical order, one a line, and their number. -/
def classNames (ids : List SymbolId) : String :=
  let names := (ids.map symbols.resolve).mergeSort fun a b => decide (a ≤ b)
  String.join (names.map line) ++ "\n" ++ line s!"{names.length} classes"

end ClassDeps.Listing
