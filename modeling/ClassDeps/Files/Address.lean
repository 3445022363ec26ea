import ClassDeps.Bytes

/-!
# Addresses of store files

The path of a store is used as it is, unless it begins with `file:`. Then it is a URI: an authority, which can
only be this machine, a path, and options. Percent signs with two digits stand for bytes; the zero byte cuts off
the rest of the part that it stands in.

## Main definitions

* `Address` — where a store is
* `Address.ofPath?` — the address that a path stands for
-/

namespace ClassDeps

/-- Where a store is. -/
inductive Address where
  /-- In no file; no one else can open it. -/
  | nowhere
  /-- In the file at a path, which may be a new one or not. -/
  | file (path : String) (mayCreate : Bool)
  deriving DecidableEq

namespace Address

/-- Splits bytes at a separator. -/
def split (separator : UInt8) : Bytes → List Bytes
  | [] => [[]]
  | b :: rest =>
    if b = separator then [] :: split separator rest
    else match split separator rest with
      | [] => [[b]]
      | part :: parts => (b :: part) :: parts

/-- Splits bytes at the first separator; there is nothing behind it if there is none. -/
def cut (separator : UInt8) (b : Bytes) : Bytes × Bytes :=
  (b.takeWhile (· ≠ separator), (b.dropWhile (· ≠ separator)).drop 1)

/-- The byte that two hexadecimal digits stand for. -/
def escaped? (high low : UInt8) : Option UInt8 := do
  return (16 * (← Bytes.hexDigit? high) + (← Bytes.hexDigit? low)).toUInt8

/-- Replaces percent signs with two digits by bytes, up to the first zero byte. -/
def decode : Bytes → Bytes
  | 37 :: high :: low :: rest =>
    match escaped? high low with
    | some 0 => []
    | some b => b :: decode rest
    | none => 37 :: decode (high :: low :: rest)
  | b :: rest => b :: decode rest
  | [] => []

/-- The options of a URI with their values. Options without a name do not count. -/
def options (b : Bytes) : List (Bytes × Bytes) :=
  let pairs := (split 38 b).map fun option =>
    let (name, value) := cut 61 option
    (decode name, decode value)
  pairs.filter fun pair => pair.1 ≠ []

/-- The address of a named store; two names mean none. -/
def named (path : String) (mayCreate : Bool) : Address :=
  if path = "" || path = ":memory:" then .nowhere else .file path mayCreate

/-- What an option makes of an address; some options admit certain values only. -/
def withOption (path : String) (address : Address) (option : String × String) : Option Address :=
  match option with
  | ("mode", "ro") | ("mode", "rw") => some (named path false)
  | ("mode", "rwc") => some (named path true)
  | ("mode", "memory") => some .nowhere
  | ("cache", "shared") | ("cache", "private") => some address
  | ("vfs", "unix") | ("vfs", "unix-none") | ("vfs", "unix-dotfile") | ("vfs", "unix-excl") =>
    some address
  | ("mode", _) | ("cache", _) | ("vfs", _) => none
  | _ => some address

/-- An option as a pair of texts; bytes that are no text are no known name or value. -/
def optionTexts (option : Bytes × Bytes) : String × String :=
  (option.1.toText?.getD "", option.2.toText?.getD "")

/-- The address of a URI without its authority. A number sign ends it. -/
def ofParts? (b : Bytes) : Option Address := do
  let (path, rest) := cut 63 (cut 35 b).1
  let path ← (decode path).toText?
  ((options rest).map optionTexts).foldlM (withOption path) (named path true)

/-- The address of a URI without its scheme. -/
def ofUri? : Bytes → Option Address
  | 47 :: 47 :: rest =>
    let authority := rest.takeWhile (· ≠ 47)
    if authority = [] || authority = Bytes.ofText "localhost" then
      ofParts? (rest.dropWhile (· ≠ 47))
    else none
  | rest => ofParts? rest

def scheme : Bytes := .ofText "file:"

/-- The address that a path stands for, if it stands for any. -/
def ofPath? (path : String) : Option Address :=
  let b := Bytes.ofText path
  if b.contains 0 then none
  else if scheme.isPrefixOf b then ofUri? (b.drop scheme.length)
  else some (named path true)

end Address

end ClassDeps
