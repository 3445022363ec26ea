import ClassDeps.Error

/-!
# Encoded keys

Keys of the stores are byte strings made of components: tags of one byte and integers of four bytes, most
significant byte first. Integers that are not negative are therefore ordered as their bytes are.

## Main definitions

* `Key.Component`, `Key.encode` — components and the bytes they are written as
* `Key.Reader` — a position in an encoded key
* `StoreKey` — types that can be keys of a store
-/

namespace ClassDeps

namespace Key

/-- A part of a composite key. -/
inductive Component where
  | tag (value : UInt8)
  | int32 (value : Int32)
  deriving DecidableEq

def Component.toBytes : Component → Bytes
  | tag value => [value]
  | int32 value => Bytes.ofInt32 value

def encode (components : List Component) : Bytes :=
  components.flatMap Component.toBytes

/-- An encoded key and how many of its bytes have been read. -/
structure Reader where
  bytes : Bytes
  position : Nat

namespace Reader

/-- A reader at the start of a key. -/
def ofBytes (bytes : Bytes) : Reader :=
  ⟨bytes, 0⟩

/-- What has not been read. -/
def rest (r : Reader) : Bytes :=
  r.bytes.drop r.position

def tag (r : Reader) : Except KeyFault (UInt8 × Reader) :=
  match r.rest with
  | [] => .error .noTag
  | b :: _ => .ok (b, { r with position := r.position + 1 })

def int32 (r : Reader) : Except KeyFault (Int32 × Reader) :=
  match r.rest with
  | a :: b :: c :: d :: _ => .ok (Bytes.toInt32 a b c d, { r with position := r.position + 4 })
  | _ => .error (.truncated r.position r.bytes.length)

/-- Fails if something has not been read. -/
def finish (r : Reader) : Except KeyFault Unit :=
  if r.position = r.bytes.length then .ok ()
  else .error (.trailing (r.bytes.length - r.position))

end Reader

end Key

/-- Types whose values are keys of a store. -/
class StoreKey (κ : Type) where
  encode : κ → Bytes
  decode : Bytes → Except KeyFault κ

instance : StoreKey Int32 where
  encode x := Key.encode [.int32 x]
  decode bytes := do
    let (x, r) ← (Key.Reader.ofBytes bytes).int32
    r.finish
    return x

end ClassDeps
