import ClassDeps.Key.Codec

/-!
# Declarations that can be referenced

Classes, their fields and their methods, over any type of names. Over symbols a declaration is the key of the
index of referencers: one tag byte and its names.

## Main definitions

* `Declaration` — a class, a field or a method
* `Declaration.owner` — the class that declares it
* `instStoreKeyDeclaration` — declarations as keys
-/

namespace ClassDeps

/-- A class, or a field or method of a class. -/
inductive Declaration (ν : Type) where
  | type (owner : ν)
  | field (owner name : ν)
  | method (owner name descriptor : ν)
  deriving DecidableEq, Ord

namespace Declaration

/-- The class that a declaration is or belongs to. -/
def owner {ν : Type} : Declaration ν → ν
  | type owner | field owner _ | method owner _ _ => owner

def components : Declaration Int32 → List Key.Component
  | type owner => [.tag 1, .int32 owner]
  | field owner name => [.tag 2, .int32 owner, .int32 name]
  | method owner name descriptor => [.tag 3, .int32 owner, .int32 name, .int32 descriptor]

/-- The declaration that a key stands for, and nothing else. -/
def decode (bytes : Bytes) : Except KeyFault (Declaration Int32) := do
  let (tag, r) ← (Key.Reader.ofBytes bytes).tag
  match tag with
  | 1 =>
    let (owner, r) ← r.int32
    r.finish
    return type owner
  | 2 =>
    let (owner, r) ← r.int32
    let (name, r) ← r.int32
    r.finish
    return field owner name
  | 3 =>
    let (owner, r) ← r.int32
    let (name, r) ← r.int32
    let (descriptor, r) ← r.int32
    r.finish
    return method owner name descriptor
  | _ => throw (.unknownTag tag)

instance instStoreKeyDeclaration : StoreKey (Declaration Int32) where
  encode d := Key.encode d.components
  decode := decode

end Declaration

end ClassDeps
