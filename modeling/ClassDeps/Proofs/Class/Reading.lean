import ClassDeps.Class.Dialect

/-!
# What readers of members and classes read

A field, a method or a class is read from the members of an object, each component from its own member. It is read if
and only if all components are.

## Main definitions

* `Dialect.FieldRead`, `MethodRead`, `ShapeRead` — the components are read from the members of an object

## Main statements

* `Dialect.read?_field_eq_some_iff`, `read?_method_eq_some_iff`, `read?_shape_eq_some_iff` — what is read
-/

namespace ClassDeps.Dialect

open Json

variable {ν ω : Type}

/-- The components of a field are read from members. -/
structure FieldRead (d : Dialect ν ω) (found : List (String × Json)) (source : Source) (limit : Nat)
    (x : Field ν ω) : Prop where
  name : required? found "name" (d.name.read? source limit) = some x.name
  descriptor : required? found "descriptor" (d.name.read? source limit) = some x.descriptor
  flags : d.readFlags found source limit = some x.flags
  genericSignature : d.readOptionalName found d.words.genericSignature source limit = some x.genericSignature
  constant : d.readOptionalConstant found d.words.constant source limit = some x.constant
  visible : readList found d.words.visible source limit d.annotationUse = some x.visible
  invisible : readList found d.words.invisible source limit d.annotationUse = some x.invisible

/-- The components of a method are read from members. -/
structure MethodRead (d : Dialect ν ω) (found : List (String × Json)) (source : Source) (limit : Nat)
    (x : Method ν ω) : Prop where
  name : required? found "name" (d.name.read? source limit) = some x.name
  descriptor : required? found "descriptor" (d.name.read? source limit) = some x.descriptor
  flags : d.readFlags found source limit = some x.flags
  genericSignature : d.readOptionalName found d.words.genericSignature source limit = some x.genericSignature
  exceptions : readList found d.words.exceptions source limit d.name = some x.exceptions
  visible : readList found d.words.visible source limit d.annotationUse = some x.visible
  invisible : readList found d.words.invisible source limit d.annotationUse = some x.invisible
  visibleParameters :
    readList found d.words.visibleParameters source limit d.annotations = some x.visibleParameters
  invisibleParameters :
    readList found d.words.invisibleParameters source limit d.annotations = some x.invisibleParameters
  default : d.readOptionalConstant found d.words.default source limit = some x.default

/-- The components of a class are read from members. -/
structure ShapeRead (d : Dialect ν ω) (found : List (String × Json)) (source : Source) (limit : Nat)
    (c : ClassShape ν ω) : Prop where
  name : required? found d.words.className (d.name.read? source limit) = some c.name
  super : d.readOptionalName found d.words.super source limit = some c.super
  interfaces : readList found d.words.interfaces source limit d.name = some c.interfaces
  flags : d.readFlags found source limit = some c.flags
  genericSignature : d.readOptionalName found d.words.genericSignature source limit = some c.genericSignature
  sourceFile : defaulted? found d.words.sourceFile "" (Form.text.read? source limit) = some c.sourceFile
  path : defaulted? found "path" "" (Form.text.read? source limit) = some c.path
  visible : readList found d.words.visible source limit d.annotationUse = some c.visible
  invisible : readList found d.words.invisible source limit d.annotationUse = some c.invisible
  fields : readList found "fields" source limit d.field = some c.fields
  methods : readList found "methods" source limit d.method = some c.methods
  references : readList found "references" source limit d.declaration = some c.references

variable {d : Dialect ν ω} {source : Source} {limit : Nat} {j : Json}

/-- A step of a reader that succeeds, and the steps after it. -/
theorem bind_of_some {α β : Type} {step : Option α} {next : α → Option β} {a : α} {b : β} (hstep : step = some a)
    (hnext : next a = some b) : step.bind next = some b :=
  Option.bind_eq_some_iff.2 ⟨a, hstep, hnext⟩

theorem read?_field_eq_some_iff {x : Field ν ω} : d.field.read? source limit j = some x ↔
    ∃ below found, limit = below + 1 ∧ members? d.fieldNames j = some found ∧ d.FieldRead found source below x := by
  constructor
  · intro hread
    cases limit with
    | zero => cases hread
    | succ limit =>
      obtain ⟨found, hfound, hread⟩ := Option.bind_eq_some_iff.1 hread
      obtain ⟨name, hname, hread⟩ := Option.bind_eq_some_iff.1 hread
      obtain ⟨descriptor, hdescriptor, hread⟩ := Option.bind_eq_some_iff.1 hread
      obtain ⟨flags, hflags, hread⟩ := Option.bind_eq_some_iff.1 hread
      obtain ⟨generic, hgeneric, hread⟩ := Option.bind_eq_some_iff.1 hread
      obtain ⟨constant, hconstant, hread⟩ := Option.bind_eq_some_iff.1 hread
      obtain ⟨visible, hvisible, hread⟩ := Option.bind_eq_some_iff.1 hread
      obtain ⟨invisible, hinvisible, hread⟩ := Option.bind_eq_some_iff.1 hread
      obtain rfl := Option.some.inj hread
      exact ⟨limit, found, rfl, hfound,
        ⟨hname, hdescriptor, hflags, hgeneric, hconstant, hvisible, hinvisible⟩⟩
  · rintro ⟨below, found, rfl, hfound, h⟩
    exact bind_of_some hfound <| bind_of_some h.name <| bind_of_some h.descriptor <| bind_of_some h.flags <|
      bind_of_some h.genericSignature <| bind_of_some h.constant <| bind_of_some h.visible <|
      bind_of_some h.invisible rfl

theorem read?_method_eq_some_iff {x : Method ν ω} : d.method.read? source limit j = some x ↔
    ∃ below found, limit = below + 1 ∧ members? d.methodNames j = some found ∧ d.MethodRead found source below x := by
  constructor
  · intro hread
    cases limit with
    | zero => cases hread
    | succ limit =>
      obtain ⟨found, hfound, hread⟩ := Option.bind_eq_some_iff.1 hread
      obtain ⟨name, hname, hread⟩ := Option.bind_eq_some_iff.1 hread
      obtain ⟨descriptor, hdescriptor, hread⟩ := Option.bind_eq_some_iff.1 hread
      obtain ⟨flags, hflags, hread⟩ := Option.bind_eq_some_iff.1 hread
      obtain ⟨generic, hgeneric, hread⟩ := Option.bind_eq_some_iff.1 hread
      obtain ⟨exceptions, hexceptions, hread⟩ := Option.bind_eq_some_iff.1 hread
      obtain ⟨visible, hvisible, hread⟩ := Option.bind_eq_some_iff.1 hread
      obtain ⟨invisible, hinvisible, hread⟩ := Option.bind_eq_some_iff.1 hread
      obtain ⟨visibles, hvisibles, hread⟩ := Option.bind_eq_some_iff.1 hread
      obtain ⟨invisibles, hinvisibles, hread⟩ := Option.bind_eq_some_iff.1 hread
      obtain ⟨default, hdefault, hread⟩ := Option.bind_eq_some_iff.1 hread
      obtain rfl := Option.some.inj hread
      exact ⟨limit, found, rfl, hfound, ⟨hname, hdescriptor, hflags, hgeneric, hexceptions, hvisible, hinvisible,
        hvisibles, hinvisibles, hdefault⟩⟩
  · rintro ⟨below, found, rfl, hfound, h⟩
    exact bind_of_some hfound <| bind_of_some h.name <| bind_of_some h.descriptor <| bind_of_some h.flags <|
      bind_of_some h.genericSignature <| bind_of_some h.exceptions <| bind_of_some h.visible <|
      bind_of_some h.invisible <| bind_of_some h.visibleParameters <| bind_of_some h.invisibleParameters <|
      bind_of_some h.default rfl

theorem read?_shape_eq_some_iff {c : ClassShape ν ω} : d.shape.read? source limit j = some c ↔
    ∃ below found, limit = below + 1 ∧ members? d.shapeNames j = some found ∧ d.ShapeRead found source below c := by
  constructor
  · intro hread
    cases limit with
    | zero => cases hread
    | succ limit =>
      obtain ⟨found, hfound, hread⟩ := Option.bind_eq_some_iff.1 hread
      obtain ⟨name, hname, hread⟩ := Option.bind_eq_some_iff.1 hread
      obtain ⟨super, hsuper, hread⟩ := Option.bind_eq_some_iff.1 hread
      obtain ⟨interfaces, hinterfaces, hread⟩ := Option.bind_eq_some_iff.1 hread
      obtain ⟨flags, hflags, hread⟩ := Option.bind_eq_some_iff.1 hread
      obtain ⟨generic, hgeneric, hread⟩ := Option.bind_eq_some_iff.1 hread
      obtain ⟨file, hfile, hread⟩ := Option.bind_eq_some_iff.1 hread
      obtain ⟨path, hpath, hread⟩ := Option.bind_eq_some_iff.1 hread
      obtain ⟨visible, hvisible, hread⟩ := Option.bind_eq_some_iff.1 hread
      obtain ⟨invisible, hinvisible, hread⟩ := Option.bind_eq_some_iff.1 hread
      obtain ⟨fields, hfields, hread⟩ := Option.bind_eq_some_iff.1 hread
      obtain ⟨methods, hmethods, hread⟩ := Option.bind_eq_some_iff.1 hread
      obtain ⟨references, hreferences, hread⟩ := Option.bind_eq_some_iff.1 hread
      obtain rfl := Option.some.inj hread
      exact ⟨limit, found, rfl, hfound, ⟨hname, hsuper, hinterfaces, hflags, hgeneric, hfile, hpath, hvisible,
        hinvisible, hfields, hmethods, hreferences⟩⟩
  · rintro ⟨below, found, rfl, hfound, h⟩
    exact bind_of_some hfound <| bind_of_some h.name <| bind_of_some h.super <| bind_of_some h.interfaces <|
      bind_of_some h.flags <| bind_of_some h.genericSignature <| bind_of_some h.sourceFile <| bind_of_some h.path <|
      bind_of_some h.visible <| bind_of_some h.invisible <| bind_of_some h.fields <| bind_of_some h.methods <|
      bind_of_some h.references rfl

end ClassDeps.Dialect
