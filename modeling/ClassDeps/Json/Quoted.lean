import ClassDeps.Decimal.Digits

/-!
# Quoted strings

String literals of JSON. Writing escapes the quote, the backslash and the control characters below the blank
and leaves every other byte as it is. Reading undoes that, knows the escapes that writing does not use, and
joins two escaped UTF-16 units to one character. An escaped unit that has no partner becomes the three bytes
of its code point, which are no well-formed UTF-8.

## Main definitions

* `Quoted.encode` — the literal of a byte string
* `Quoted.scan?` — the pieces of a literal up to its closing quote
* `Quoted.assemble` — the byte string of the pieces
* `Quoted.span?` — reading a literal off the front of a byte string
-/

namespace ClassDeps.Json.Quoted

/-- The ASCII byte of a hexadecimal digit, lower case. -/
def hexByte (n : Nat) : UInt8 :=
  if n < 10 then 48 + n.toUInt8 else 87 + n.toUInt8

/-- How a byte stands in a literal. -/
def escape (b : UInt8) : Bytes :=
  match b with
  | 34 => [92, 34]
  | 92 => [92, 92]
  | 8 => [92, 98]
  | 9 => [92, 116]
  | 10 => [92, 110]
  | 12 => [92, 102]
  | 13 => [92, 114]
  | _ =>
    if b < 32 then [92, 117, 48, 48, hexByte (b.toNat / 16), hexByte (b.toNat % 16)] else [b]

/-- The literal of a byte string, without its opening quote. -/
def encodeTail (b : Bytes) : Bytes :=
  b.flatMap escape ++ [34]

def encode (b : Bytes) : Bytes :=
  34 :: encodeTail b

/-- A byte or an escaped UTF-16 unit. -/
inductive Piece where
  | byte (b : UInt8)
  | unit (u : Nat)
  deriving DecidableEq

/-- The byte that a backslash and a letter stand for. -/
def unescape? (letter : UInt8) : Option UInt8 :=
  match letter with
  | 34 => some 34
  | 92 => some 92
  | 47 => some 47
  | 98 => some 8
  | 102 => some 12
  | 110 => some 10
  | 114 => some 13
  | 116 => some 9
  | _ => none

/-- The number that four hexadecimal digits stand for. -/
def unit? (a b c d : UInt8) : Option Nat := do
  let a ← Bytes.hexDigit? a
  let b ← Bytes.hexDigit? b
  let c ← Bytes.hexDigit? c
  let d ← Bytes.hexDigit? d
  return ((a * 16 + b) * 16 + c) * 16 + d

/-- The pieces of a literal after its opening quote, and what follows its closing quote. -/
def scan? : Bytes → Option (List Piece × Bytes)
  | [] => none
  | 34 :: rest => some ([], rest)
  | 92 :: 117 :: a :: b :: c :: d :: rest => do
    let u ← unit? a b c d
    let (pieces, rest) ← scan? rest
    return (.unit u :: pieces, rest)
  | 92 :: letter :: rest => do
    let b ← unescape? letter
    let (pieces, rest) ← scan? rest
    return (.byte b :: pieces, rest)
  | b :: rest => do
    guard (32 ≤ b ∧ b ≠ 92)
    let (pieces, rest) ← scan? rest
    return (.byte b :: pieces, rest)

/-- The bytes of a code point in the pattern of UTF-8. -/
def codePointBytes (n : Nat) : Bytes :=
  if n < 0x80 then [n.toUInt8]
  else if n < 0x800 then [(0xC0 + n / 64).toUInt8, (0x80 + n % 64).toUInt8]
  else if n < 0x10000 then
    [(0xE0 + n / 4096).toUInt8, (0x80 + n / 64 % 64).toUInt8, (0x80 + n % 64).toUInt8]
  else
    [(0xF0 + n / 262144).toUInt8, (0x80 + n / 4096 % 64).toUInt8, (0x80 + n / 64 % 64).toUInt8,
      (0x80 + n % 64).toUInt8]

/-- Whether a unit is the first half of a pair. -/
def isHigh (u : Nat) : Bool := 0xD800 ≤ u && u < 0xDC00

def isLow (u : Nat) : Bool := 0xDC00 ≤ u && u < 0xE000

/-- The code point of a pair of halves. -/
def join (high low : Nat) : Nat :=
  0x10000 + (high - 0xD800) * 0x400 + (low - 0xDC00)

/-- The byte string of the pieces of a literal. -/
def assemble : List Piece → Bytes
  | [] => []
  | .byte b :: rest => b :: assemble rest
  | .unit high :: .unit low :: rest =>
    if isHigh high && isLow low then codePointBytes (join high low) ++ assemble rest
    else codePointBytes high ++ assemble (.unit low :: rest)
  | .unit u :: rest => codePointBytes u ++ assemble rest

/-- Reads the rest of a literal whose opening quote has been read. -/
def span? (s : Bytes) : Option (Bytes × Bytes) :=
  (scan? s).map fun (pieces, rest) => (assemble pieces, rest)

end ClassDeps.Json.Quoted
