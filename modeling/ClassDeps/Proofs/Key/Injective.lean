import ClassDeps.Class.Declaration

/-!
# Keys are told apart by their encodings

Different keys have different encodings, so that a store keeps what belongs to them apart.

## Main definitions

* `LawfulStoreKey` — keys that are told apart by their encodings

## Main statements

* `StoreKey.encode_eq_iff` — keys with the same encoding are equal
* `Declaration.components_injective` — so are declarations
-/

namespace ClassDeps

/-- Keys that are told apart by their encodings. -/
class LawfulStoreKey (κ : Type) [StoreKey κ] : Prop where
  encode_injective : ∀ {a b : κ}, StoreKey.encode a = StoreKey.encode b → a = b

theorem StoreKey.encode_eq_iff {κ : Type} [StoreKey κ] [LawfulStoreKey κ] {a b : κ} :
    StoreKey.encode a = StoreKey.encode b ↔ a = b :=
  ⟨LawfulStoreKey.encode_injective, congrArg _⟩

namespace Key

theorem encode_int32_cons (x : Int32) (rest : List Component) :
    encode (.int32 x :: rest) = Bytes.ofInt32 x ++ encode rest := rfl

/-- An integer at the front of two equal keys is the same in both, and so is what follows. -/
theorem encode_int32_inj {x y : Int32} {rest others : List Component}
    (h : encode (.int32 x :: rest) = encode (.int32 y :: others)) :
    x = y ∧ encode rest = encode others := by
  rw [encode_int32_cons, encode_int32_cons] at h
  obtain ⟨hfirst, hrest⟩ := List.append_inj h rfl
  exact ⟨Bytes.ofInt32_injective hfirst, hrest⟩

theorem encode_tag_inj {tag other : UInt8} {rest others : List Component}
    (h : encode (.tag tag :: rest) = encode (.tag other :: others)) :
    tag = other ∧ encode rest = encode others :=
  List.cons.inj h

end Key

instance : LawfulStoreKey Int32 where
  encode_injective h := (Key.encode_int32_inj h).1

namespace Declaration

theorem components_injective {a b : Declaration Int32}
    (h : Key.encode a.components = Key.encode b.components) : a = b := by
  cases a <;> cases b <;> obtain ⟨htag, h⟩ := Key.encode_tag_inj h
  case type.type =>
    obtain ⟨howner, -⟩ := Key.encode_int32_inj h
    rw [howner]
  case field.field =>
    obtain ⟨howner, h⟩ := Key.encode_int32_inj h
    obtain ⟨hname, -⟩ := Key.encode_int32_inj h
    rw [howner, hname]
  case method.method =>
    obtain ⟨howner, h⟩ := Key.encode_int32_inj h
    obtain ⟨hname, h⟩ := Key.encode_int32_inj h
    obtain ⟨hdescriptor, -⟩ := Key.encode_int32_inj h
    rw [howner, hname, hdescriptor]
  all_goals exact absurd htag (by decide)

instance : LawfulStoreKey (Declaration Int32) where
  encode_injective := components_injective

end Declaration

end ClassDeps
