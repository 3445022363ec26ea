import ClassDeps.Class.Spelling
import ClassDeps.Proofs.Decimal.Range
import ClassDeps.Proofs.Json.Members
import Mathlib.Data.List.Nodup

/-!
# Class shapes read back

What a dialect writes of a class it reads back, within the limit that the depth of the written document allows.
A dialect has to keep its words apart and to be exact on names and floating-point constants; the dialect of
stored records is such a dialect.

## Main definitions

* `Dialect.Lawful` — a dialect with distinct words and exact leaves
* `Dialect.fieldMembers`, `methodMembers`, `shapeMembers` — the members of what is written

## Main statements

* `Dialect.Lawful.readConstant_writeConstant` — constants are read back, by induction on them
* `Dialect.Lawful.exact_field`, `exact_method`, `exact_declaration`, `exact_shape` — so are members and classes
* `Dialect.lawful_record` — records are written in a lawful dialect
-/

namespace ClassDeps.Dialect

open Json

variable {ν ω : Type}

/-- A dialect that keeps its words apart and reads back names and floating-point constants. -/
structure Lawful (d : Dialect ν ω) : Prop where
  nodup_fieldNames : d.fieldNames.Nodup
  nodup_methodNames : d.methodNames.Nodup
  nodup_shapeNames : d.shapeNames.Nodup
  annotationType : d.words.annotationType ∉ ["constant", "members"]
  exact_name : d.name.Exact
  exact_optionalName : d.optionalName.Exact
  sound_name : ∀ (limit : Nat) (x : ν), (d.name.write x).sound limit
  depth_name : ∀ x : ν, (d.name.write x).depth = 0
  depth_optionalName : ∀ x : ω, (d.optionalName.write x).depth = 0
  exact_float : d.float.Exact
  exact_double : d.double.Exact

variable {d : Dialect ν ω}

/-! ## Alternatives -/

theorem adjacent?_alternative (names : List String) (source : Source) (limit : Nat) (type : String)
    (value : Json) :
    adjacent? names source (limit + 1) (alternative type value) = some (type, source, value) := by
  have hnamed : named? [(Bytes.ofText "type", ofText type), (Bytes.ofText "value", value)] =
      some [("type", ofText type), ("value", value)] :=
    named?_record [("type", .ofText type), ("value", value)]
  simp only [alternative, Json.record, List.map_cons, List.map_nil, adjacent?, hnamed,
    Option.bind_eq_bind, Option.bind_some]
  simp [variant?_ofText]

theorem depth_alternative_le {type : String} {value : Json} {limit : Nat} :
    (alternative type value).depth ≤ limit + 1 ↔ value.depth ≤ limit := by
  simp [alternative]

/-- An alternative is read if its content is. -/
theorem map_eq_ite_alternative {α β : Type} {type : String} {value : Json} {limit : Nat} {x : α}
    {read : Option α} (hread : read = if value.depth ≤ limit then some x else none) (f : α → β) :
    read.map f = if (alternative type value).depth ≤ limit + 1 then some (f x) else none := by
  rw [hread, Option.map_if, if_congr depth_alternative_le rfl rfl]

/-- The members of the type and constant of an enumerator. -/
def enumeratorMembers (d : Dialect ν ω) (type constant : ν) : List (String × Json) :=
  [(d.words.annotationType, d.name.write type), ("constant", d.name.write constant)]

/-- The members of an annotation. -/
def annotationMembers (d : Dialect ν ω) (type : ν) (elements : List (ν × Constant ν)) :
    List (String × Json) :=
  [(d.words.annotationType, d.name.write type), ("members", .array (d.writeElements elements))]

/-! ## Constants and annotations -/

namespace Lawful

theorem nodup_annotationMembers (h : d.Lawful) (type : ν) (elements : List (ν × Constant ν)) :
    ((d.annotationMembers type elements).map Prod.fst).Nodup := by
  have hwords := h.annotationType
  simp_all [annotationMembers]

theorem nodup_enumeratorMembers (h : d.Lawful) (type constant : ν) :
    ((d.enumeratorMembers type constant).map Prod.fst).Nodup := by
  have hwords := h.annotationType
  simp_all [enumeratorMembers]

theorem readEnumerator_record (h : d.Lawful) (source : Source) (limit : Nat) (type constant : ν) :
    d.readEnumerator source limit (.record (d.enumeratorMembers type constant)) =
      if (Json.record (d.enumeratorMembers type constant)).depth ≤ limit
      then some (.enumerator type constant) else none := by
  cases limit with
  | zero => exact (if_neg (not_depth_record_le_zero _)).symm
  | succ limit =>
    have hnodup := h.nodup_enumeratorMembers type constant
    have hfound : members? [d.words.annotationType, "constant"] (.record (d.enumeratorMembers type constant)) =
        some (d.enumeratorMembers type constant) :=
      members?_record (by simp [enumeratorMembers]) hnodup
    have htype := (h.exact_name.gives source limit type).required hnodup
      (by simp [enumeratorMembers] : (d.words.annotationType, _) ∈ _)
    have hconstant := (h.exact_name.gives source limit constant).required hnodup
      (by simp [enumeratorMembers] : ("constant", _) ∈ _)
    refine Gives.eq_ite (.bind (.of_eq hfound) (.bind htype (.bind hconstant (.pure _)))) ?_
    simp [enumeratorMembers]

theorem not_depth_writeConstant_le_zero (c : Constant ν) : ¬ (d.writeConstant c).depth ≤ 0 := by
  cases c <;> exact not_depth_record_le_zero _

mutual

/-- By induction on the constant; one level of the document is one of the limit. -/
theorem readConstant_writeConstant (h : d.Lawful) : (c : Constant ν) → (source : Source) → (limit : Nat) →
    d.readConstant source limit (d.writeConstant c) =
      if (d.writeConstant c).depth ≤ limit then some c else none
  | c, source, 0 => by
    rw [if_neg (not_depth_writeConstant_le_zero c), readConstant]
  | .int value, source, limit + 1 => by
    simp only [writeConstant, readConstant, adjacent?_alternative, Option.bind_eq_bind, Option.bind_some]
    exact map_eq_ite_alternative (Form.exact_int32 source limit value) _
  | .long value, source, limit + 1 => by
    simp only [writeConstant, readConstant, adjacent?_alternative, Option.bind_eq_bind, Option.bind_some]
    exact map_eq_ite_alternative (Form.exact_int64 source limit value) _
  | .float bits, source, limit + 1 => by
    simp only [writeConstant, readConstant, adjacent?_alternative, Option.bind_eq_bind, Option.bind_some]
    exact map_eq_ite_alternative (h.exact_float source limit bits) _
  | .double bits, source, limit + 1 => by
    simp only [writeConstant, readConstant, adjacent?_alternative, Option.bind_eq_bind, Option.bind_some]
    exact map_eq_ite_alternative (h.exact_double source limit bits) _
  | .boolean value, source, limit + 1 => by
    simp only [writeConstant, readConstant, adjacent?_alternative, Option.bind_eq_bind, Option.bind_some]
    exact map_eq_ite_alternative (Form.exact_boolean source limit value) _
  | .char value, source, limit + 1 => by
    simp only [writeConstant, readConstant, adjacent?_alternative, Option.bind_eq_bind, Option.bind_some]
    exact map_eq_ite_alternative (Form.exact_character source limit value) _
  | .string value, source, limit + 1 => by
    simp only [writeConstant, readConstant, adjacent?_alternative, Option.bind_eq_bind, Option.bind_some]
    exact map_eq_ite_alternative (Form.exact_text source limit value) _
  | .type name, source, limit + 1 => by
    simp only [writeConstant, readConstant, adjacent?_alternative, Option.bind_eq_bind, Option.bind_some]
    exact map_eq_ite_alternative (h.exact_name source limit name) _
  | .enumerator type constant, source, limit + 1 => by
    simp only [writeConstant, readConstant, adjacent?_alternative, Option.bind_eq_bind, Option.bind_some]
    exact (h.readEnumerator_record source limit type constant).trans
      (if_congr depth_alternative_le.symm rfl rfl)
  | .annotationUse type elements, source, limit + 1 => by
    simp only [writeConstant, readConstant, adjacent?_alternative, Option.bind_eq_bind, Option.bind_some]
    exact map_eq_ite_alternative (readAnnotationUse_record h type elements source limit) _
  | .array items, source, limit + 1 => by
    simp only [writeConstant, readConstant, adjacent?_alternative, Option.bind_eq_bind, Option.bind_some]
    exact map_eq_ite_alternative (readItems_writeItems h items source limit) _

theorem readItems_writeItems (h : d.Lawful) (items : List (Constant ν)) (source : Source) : (limit : Nat) →
    d.readItems source limit (.array (d.writeItems items)) =
      if (array (d.writeItems items)).depth ≤ limit then some items else none
  | 0 => (if_neg (not_depth_array_le_zero _)).symm
  | limit + 1 => by
    rw [readItems, mapM_writeItems h items source limit, if_congr depth_array_le rfl rfl]

theorem mapM_writeItems (h : d.Lawful) : (items : List (Constant ν)) → (source : Source) → (limit : Nat) →
    (d.writeItems items).mapM (d.readConstant source limit) =
      if ∀ item ∈ d.writeItems items, item.depth ≤ limit then some items else none
  | [], source, limit => by simp [writeItems]
  | item :: rest, source, limit => by
    have hitem := Gives.of_eq_ite (readConstant_writeConstant h item source limit)
    have hrest := Gives.of_eq_ite (mapM_writeItems h rest source limit)
    rw [writeItems, List.mapM_cons]
    exact Gives.eq_ite (.bind hitem (.bind hrest (.pure (item :: rest)))) (by simp)

theorem readAnnotationUse_record (h : d.Lawful) (type : ν) : (elements : List (ν × Constant ν)) →
    (source : Source) → (limit : Nat) →
    d.readAnnotationUse source limit (.record (d.annotationMembers type elements)) =
      if (Json.record (d.annotationMembers type elements)).depth ≤ limit
      then some ⟨type, elements⟩ else none
  | elements, source, 0 => (if_neg (not_depth_record_le_zero _)).symm
  | elements, source, limit + 1 => by
    have hnodup := h.nodup_annotationMembers type elements
    have hfound : members? [d.words.annotationType, "members"]
        (.record (d.annotationMembers type elements)) = some (d.annotationMembers type elements) :=
      members?_record (by simp [annotationMembers]) hnodup
    have hread : Gives (d.readElements source limit (.array (d.writeElements elements)))
        ((array (d.writeElements elements)).depth ≤ limit) elements := by
      refine .of_eq_ite ?_
      cases limit with
      | zero => exact (if_neg (not_depth_array_le_zero _)).symm
      | succ limit => simpa [readElements] using mapM_writeElements h elements source limit
    have htype := (h.exact_name.gives source limit type).required hnodup
      (by simp [annotationMembers] : (d.words.annotationType, _) ∈ _)
    have helements := hread.defaulted hnodup (by simp [annotationMembers] : ("members", _) ∈ _) []
    refine Gives.eq_ite (.bind (.of_eq hfound) (.bind htype (.bind helements (.pure _)))) ?_
    simp [annotationMembers]

theorem mapM_writeElements (h : d.Lawful) : (elements : List (ν × Constant ν)) → (source : Source) →
    (limit : Nat) →
    (d.writeElements elements).mapM (d.readElement source limit) =
      if ∀ element ∈ d.writeElements elements, element.depth ≤ limit then some elements else none
  | [], source, limit => by simp [writeElements]
  | (name, value) :: rest, source, 0 => by
    rw [writeElements, List.mapM_cons, readElement,
      if_neg fun hdepth => not_depth_record_le_zero _ (hdepth _ List.mem_cons_self)]
    rfl
  | (name, value) :: rest, source, limit + 1 => by
    -- An element is an object around its constant, which is where a level of the limit goes.
    have hfound : members? ["name", "value"]
        (.record [("name", d.name.write name), ("value", d.writeConstant value)]) = _ :=
      members?_record (by simp) (by simp)
    have hname := (h.exact_name.gives source limit name).required (by simp)
      (by simp : ("name", _) ∈ [("name", d.name.write name), ("value", d.writeConstant value)])
    have hvalue := (Gives.of_eq_ite (readConstant_writeConstant h value source limit)).required (by simp)
      (by simp : ("value", _) ∈ [("name", d.name.write name), ("value", d.writeConstant value)])
    have hrest := Gives.of_eq_ite (mapM_writeElements h rest source (limit + 1))
    rw [writeElements, List.mapM_cons]
    refine Gives.eq_ite (.bind (.bind (.of_eq hfound) (.bind hname (.bind hvalue (.pure _))))
      (.bind hrest (.pure _))) ?_
    simp

end

theorem exact_constant (h : d.Lawful) : d.constant.Exact :=
  fun source limit c => h.readConstant_writeConstant c source limit

theorem exact_annotationUse (h : d.Lawful) : d.annotationUse.Exact :=
  fun source limit a => h.readAnnotationUse_record a.type a.elements source limit

theorem exact_annotations (h : d.Lawful) : d.annotations.Exact :=
  h.exact_annotationUse.list

/-! ## Members -/

theorem exact_optionalConstant (h : d.Lawful) : (Form.nullable d.constant).Exact := by
  refine h.exact_constant.nullable fun c hnull => ?_
  have hdepth : (d.writeConstant c).depth = 0 := congrArg depth hnull
  exact not_depth_writeConstant_le_zero c (Nat.le_of_eq hdepth)

end Lawful

theorem gives_readFlags (d : Dialect ν ω) {members : List (String × Json)} (flags : Int32)
    (hnodup : (members.map Prod.fst).Nodup) (hmem : ("flags", Form.int32.write flags) ∈ members)
    (source : Source) (limit : Nat) :
    Gives (d.readFlags members source limit) ((Form.int32.write flags).depth ≤ limit) flags := by
  have hread := Form.exact_int32.gives source limit flags
  unfold readFlags
  split
  · exact hread.defaulted hnodup hmem _
  · exact hread.required hnodup hmem

/-! A field or method has the member of its optional constant between, or after, its other members. -/

section OptionalConstant

variable (d : Dialect ν ω) {before after : List (String × Json)} {name : String} {names : List String}
  (value : Option (Constant ν))

theorem sublist_map_fst (hall : (before ++ (name, .null) :: after).map Prod.fst = names) :
    ((before ++ d.constantMember name value ++ after).map Prod.fst).Sublist names := by
  have hconstant : ((d.constantMember name value).map Prod.fst).Sublist [name] := by
    rw [constantMember]
    split <;> simp
  rw [← hall, List.append_cons, List.map_append, List.map_append, List.map_append, List.map_append]
  exact ((List.Sublist.refl _).append hconstant).append (List.Sublist.refl _)

theorem nodup_constantMember (hall : (before ++ (name, .null) :: after).map Prod.fst = names)
    (hnodup : names.Nodup) : ((before ++ d.constantMember name value ++ after).map Prod.fst).Nodup :=
  (d.sublist_map_fst value hall).nodup hnodup

theorem members?_constantMember (hall : (before ++ (name, .null) :: after).map Prod.fst = names)
    (hnodup : names.Nodup) :
    members? names (.record (before ++ d.constantMember name value ++ after)) =
      some (before ++ d.constantMember name value ++ after) :=
  members?_record (fun _ hmem => (d.sublist_map_fst value hall).subset (List.mem_map_of_mem hmem))
    (d.nodup_constantMember value hall hnodup)

/-- An optional constant is read back, be its member written or left out. -/
theorem Lawful.gives_optionalConstant {d : Dialect ν ω} (h : d.Lawful)
    (hall : (before ++ (name, .null) :: after).map Prod.fst = names) (hnodup : names.Nodup)
    (source : Source) (limit : Nat) :
    Gives (d.readOptionalConstant (before ++ d.constantMember name value ++ after) name source limit)
      (∀ member ∈ d.constantMember name value, member.2.depth ≤ limit) value := by
  have hnames := d.nodup_constantMember value hall hnodup
  by_cases homitted : (d.omitsAbsent && value.isNone) = true
  -- A member that is left out is read as absent, since no other member has its name.
  · have hnone : value = none := by simp_all
    have hmember : d.constantMember name value = [] := if_pos homitted
    have hmissing : name ∉ (before ++ [] ++ after).map Prod.fst := by
      rw [← hall, List.map_append, List.map_cons, List.nodup_middle, List.nodup_cons] at hnodup
      simpa using hnodup.1
    refine .of_eq_ite ?_
    rw [readOptionalConstant, hmember, defaulted?_of_not_mem hmissing, hnone, if_pos (List.forall_mem_nil _)]
  · have hmember : d.constantMember name value = [(name, (Form.nullable d.constant).write value)] :=
      if_neg homitted
    rw [hmember] at hnames ⊢
    have hread := (h.exact_optionalConstant.gives source limit value).defaulted hnames
      (by simp : (name, _) ∈ before ++ [(name, (Form.nullable d.constant).write value)] ++ after) none
    rw [List.forall_mem_singleton]
    exact hread

end OptionalConstant

/-! ## Fields -/

/-- The members of a field before that of its constant. -/
def fieldFront (d : Dialect ν ω) (f : Field ν ω) : List (String × Json) :=
  [("name", d.name.write f.name), ("descriptor", d.name.write f.descriptor),
    ("flags", Form.int32.write f.flags), (d.words.genericSignature, d.optionalName.write f.genericSignature)]

/-- The members of a field after that of its constant. -/
def fieldBack (d : Dialect ν ω) (f : Field ν ω) : List (String × Json) :=
  [(d.words.visible, d.annotations.write f.visible), (d.words.invisible, d.annotations.write f.invisible)]

/-- The members of a field. -/
def fieldMembers (d : Dialect ν ω) (f : Field ν ω) : List (String × Json) :=
  d.fieldFront f ++ d.constantMember d.words.constant f.constant ++ d.fieldBack f

theorem map_fst_field (d : Dialect ν ω) (f : Field ν ω) :
    (d.fieldFront f ++ (d.words.constant, .null) :: d.fieldBack f).map Prod.fst = d.fieldNames := rfl

theorem Lawful.exact_field (h : d.Lawful) : d.field.Exact := by
  intro source limit f
  cases limit with
  | zero => exact (if_neg (not_depth_record_le_zero _)).symm
  | succ limit =>
    have hall := d.map_fst_field f
    have hfound := d.members?_constantMember f.constant hall h.nodup_fieldNames
    have hnodup := d.nodup_constantMember f.constant hall h.nodup_fieldNames
    have hconstant := h.gives_optionalConstant f.constant hall h.nodup_fieldNames source limit
    rw [← fieldMembers] at hfound hnodup hconstant
    have hname := (h.exact_name.gives source limit f.name).required hnodup
      (by simp [fieldMembers, fieldFront] : ("name", _) ∈ d.fieldMembers f)
    have hdescriptor := (h.exact_name.gives source limit f.descriptor).required hnodup
      (by simp [fieldMembers, fieldFront] : ("descriptor", _) ∈ d.fieldMembers f)
    have hflags := d.gives_readFlags f.flags hnodup
      (by simp [fieldMembers, fieldFront] : ("flags", _) ∈ d.fieldMembers f) source limit
    have hgeneric := (h.exact_optionalName.gives source limit f.genericSignature).defaulted hnodup
      (by simp [fieldMembers, fieldFront] : (d.words.genericSignature, _) ∈ d.fieldMembers f) d.absent
    have hvisible := (h.exact_annotations.gives source limit f.visible).defaulted hnodup
      (by simp [fieldMembers, fieldBack] : (d.words.visible, _) ∈ d.fieldMembers f) []
    have hinvisible := (h.exact_annotations.gives source limit f.invisible).defaulted hnodup
      (by simp [fieldMembers, fieldBack] : (d.words.invisible, _) ∈ d.fieldMembers f) []
    refine Gives.eq_ite (.bind (.of_eq hfound) (.bind hname (.bind hdescriptor (.bind hflags
      (.bind hgeneric (.bind hconstant (.bind hvisible (.bind hinvisible (.pure f))))))))) ?_
    simp only [field, depth_record_le, List.forall_mem_append, List.forall_mem_cons]
    simp [and_assoc]

/-! ## Methods -/

/-- The members of a method before that of its default value. -/
def methodFront (d : Dialect ν ω) (m : Method ν ω) : List (String × Json) :=
  [("name", d.name.write m.name), ("descriptor", d.name.write m.descriptor),
    ("flags", Form.int32.write m.flags),
    (d.words.genericSignature, d.optionalName.write m.genericSignature),
    (d.words.exceptions, (Form.list d.name).write m.exceptions),
    (d.words.visible, d.annotations.write m.visible),
    (d.words.invisible, d.annotations.write m.invisible),
    (d.words.visibleParameters, (Form.list d.annotations).write m.visibleParameters),
    (d.words.invisibleParameters, (Form.list d.annotations).write m.invisibleParameters)]

/-- The members of a method. -/
def methodMembers (d : Dialect ν ω) (m : Method ν ω) : List (String × Json) :=
  d.methodFront m ++ d.constantMember d.words.default m.default

theorem map_fst_method (d : Dialect ν ω) (m : Method ν ω) :
    (d.methodFront m ++ [(d.words.default, Json.null)]).map Prod.fst = d.methodNames := rfl

theorem Lawful.exact_method (h : d.Lawful) : d.method.Exact := by
  intro source limit m
  cases limit with
  | zero => exact (if_neg (not_depth_record_le_zero _)).symm
  | succ limit =>
    have hall := d.map_fst_method m
    have hfound := d.members?_constantMember m.default hall h.nodup_methodNames
    have hnodup := d.nodup_constantMember m.default hall h.nodup_methodNames
    have hdefault := h.gives_optionalConstant m.default hall h.nodup_methodNames source limit
    -- The default value comes last, so that nothing stands after its member.
    rw [List.append_nil, ← methodMembers] at hfound hnodup hdefault
    have hname := (h.exact_name.gives source limit m.name).required hnodup
      (by simp [methodMembers, methodFront] : ("name", _) ∈ d.methodMembers m)
    have hdescriptor := (h.exact_name.gives source limit m.descriptor).required hnodup
      (by simp [methodMembers, methodFront] : ("descriptor", _) ∈ d.methodMembers m)
    have hflags := d.gives_readFlags m.flags hnodup
      (by simp [methodMembers, methodFront] : ("flags", _) ∈ d.methodMembers m) source limit
    have hgeneric := (h.exact_optionalName.gives source limit m.genericSignature).defaulted hnodup
      (by simp [methodMembers, methodFront] : (d.words.genericSignature, _) ∈ d.methodMembers m) d.absent
    have hexceptions := (h.exact_name.list.gives source limit m.exceptions).defaulted hnodup
      (by simp [methodMembers, methodFront] : (d.words.exceptions, _) ∈ d.methodMembers m) []
    have hvisible := (h.exact_annotations.gives source limit m.visible).defaulted hnodup
      (by simp [methodMembers, methodFront] : (d.words.visible, _) ∈ d.methodMembers m) []
    have hinvisible := (h.exact_annotations.gives source limit m.invisible).defaulted hnodup
      (by simp [methodMembers, methodFront] : (d.words.invisible, _) ∈ d.methodMembers m) []
    have hvisibleParameters :=
      (h.exact_annotations.list.gives source limit m.visibleParameters).defaulted hnodup
        (by simp [methodMembers, methodFront] : (d.words.visibleParameters, _) ∈ d.methodMembers m) []
    have hinvisibleParameters :=
      (h.exact_annotations.list.gives source limit m.invisibleParameters).defaulted hnodup
        (by simp [methodMembers, methodFront] : (d.words.invisibleParameters, _) ∈ d.methodMembers m) []
    refine Gives.eq_ite (.bind (.of_eq hfound) (.bind hname (.bind hdescriptor (.bind hflags
      (.bind hgeneric (.bind hexceptions (.bind hvisible (.bind hinvisible (.bind hvisibleParameters
        (.bind hinvisibleParameters (.bind hdefault (.pure m)))))))))))) ?_
    simp only [method, depth_record_le, List.forall_mem_append, List.forall_mem_cons]
    simp [and_assoc]

/-! ## Declarations -/

theorem Lawful.exact_declaration (h : d.Lawful) : d.declaration.Exact := by
  intro source limit declaration
  cases limit with
  | zero => cases declaration <;> exact (if_neg (not_depth_record_le_zero _)).symm
  | succ limit =>
    have hname (x : ν) : d.name.read? .kept limit (d.name.write x) = some x := by
      rw [h.exact_name, h.depth_name, if_pos (Nat.zero_le limit)]
    have hdepth (x : ν) : (d.name.write x).depth ≤ limit := by simp [h.depth_name]
    have htagged (kind : String) (members : List (String × Json)) (hkind : ∀ member ∈ members, member.1 ≠ "kind")
        (hsound : ∀ member ∈ members, member.2.sound limit) :
        tagged? ["class", "field", "method"] source (limit + 1) (.record (("kind", .ofText kind) :: members)) =
          some (kind, .record members) :=
      (tagged?_record_cons _ source limit kind hkind).trans (if_pos hsound)
    -- The alternative is taken off first; what is left is read as a record of names.
    cases declaration with
    | type owner =>
      have htagged := htagged "class" [("class", d.name.write owner)] (by simp) (by simp [h.sound_name])
      have hfound : members? ["class"] (.record [("class", d.name.write owner)]) = some _ :=
        members?_record (by simp) (by simp)
      simp [declaration, htagged, hfound, required?, hname, hdepth]
    | field owner name =>
      have htagged := htagged "field" [("class", d.name.write owner), ("name", d.name.write name)] (by simp)
        (by simp [h.sound_name])
      have hfound : members? ["class", "name"]
          (.record [("class", d.name.write owner), ("name", d.name.write name)]) = some _ :=
        members?_record (by simp) (by simp)
      simp [declaration, htagged, hfound, required?, List.lookup_cons, hname, hdepth]
    | method owner name descriptor =>
      have htagged := htagged "method" [("class", d.name.write owner), ("name", d.name.write name),
        ("descriptor", d.name.write descriptor)] (by simp) (by simp [h.sound_name])
      have hfound : members? ["class", "name", "descriptor"]
          (.record [("class", d.name.write owner), ("name", d.name.write name),
            ("descriptor", d.name.write descriptor)]) = some _ :=
        members?_record (by simp) (by simp)
      simp [declaration, htagged, hfound, required?, List.lookup_cons, hname, hdepth]

/-! ## Classes -/

/-- The members of a class. -/
def shapeMembers (d : Dialect ν ω) (c : ClassShape ν ω) : List (String × Json) :=
  [(d.words.className, d.name.write c.name),
    (d.words.super, d.optionalName.write c.super),
    (d.words.interfaces, (Form.list d.name).write c.interfaces),
    ("flags", Form.int32.write c.flags),
    (d.words.genericSignature, d.optionalName.write c.genericSignature),
    (d.words.sourceFile, Form.text.write c.sourceFile),
    ("path", Form.text.write c.path),
    (d.words.visible, d.annotations.write c.visible),
    (d.words.invisible, d.annotations.write c.invisible),
    ("fields", (Form.list d.field).write c.fields),
    ("methods", (Form.list d.method).write c.methods),
    ("references", (Form.list d.declaration).write c.references)]

theorem map_fst_shape (d : Dialect ν ω) (c : ClassShape ν ω) : (d.shapeMembers c).map Prod.fst = d.shapeNames := rfl

theorem Lawful.exact_shape (h : d.Lawful) : d.shape.Exact := by
  intro source limit c
  cases limit with
  | zero => exact (if_neg (not_depth_record_le_zero _)).symm
  | succ limit =>
    have hnodup : ((d.shapeMembers c).map Prod.fst).Nodup := d.map_fst_shape c ▸ h.nodup_shapeNames
    have hfound : members? d.shapeNames (.record (d.shapeMembers c)) = some (d.shapeMembers c) :=
      members?_record (fun member hmem => d.map_fst_shape c ▸ List.mem_map_of_mem hmem) hnodup
    have hname := (h.exact_name.gives source limit c.name).required hnodup
      (by simp [shapeMembers] : (d.words.className, _) ∈ d.shapeMembers c)
    have hsuper := (h.exact_optionalName.gives source limit c.super).defaulted hnodup
      (by simp [shapeMembers] : (d.words.super, _) ∈ d.shapeMembers c) d.absent
    have hinterfaces := (h.exact_name.list.gives source limit c.interfaces).defaulted hnodup
      (by simp [shapeMembers] : (d.words.interfaces, _) ∈ d.shapeMembers c) []
    have hflags := d.gives_readFlags c.flags hnodup
      (by simp [shapeMembers] : ("flags", _) ∈ d.shapeMembers c) source limit
    have hgeneric := (h.exact_optionalName.gives source limit c.genericSignature).defaulted hnodup
      (by simp [shapeMembers] : (d.words.genericSignature, _) ∈ d.shapeMembers c) d.absent
    have hsourceFile := (Form.exact_text.gives source limit c.sourceFile).defaulted hnodup
      (by simp [shapeMembers] : (d.words.sourceFile, _) ∈ d.shapeMembers c) ""
    have hpath := (Form.exact_text.gives source limit c.path).defaulted hnodup
      (by simp [shapeMembers] : ("path", _) ∈ d.shapeMembers c) ""
    have hvisible := (h.exact_annotations.gives source limit c.visible).defaulted hnodup
      (by simp [shapeMembers] : (d.words.visible, _) ∈ d.shapeMembers c) []
    have hinvisible := (h.exact_annotations.gives source limit c.invisible).defaulted hnodup
      (by simp [shapeMembers] : (d.words.invisible, _) ∈ d.shapeMembers c) []
    have hfields := (h.exact_field.list.gives source limit c.fields).defaulted hnodup
      (by simp [shapeMembers] : ("fields", _) ∈ d.shapeMembers c) []
    have hmethods := (h.exact_method.list.gives source limit c.methods).defaulted hnodup
      (by simp [shapeMembers] : ("methods", _) ∈ d.shapeMembers c) []
    have hreferences := (h.exact_declaration.list.gives source limit c.references).defaulted hnodup
      (by simp [shapeMembers] : ("references", _) ∈ d.shapeMembers c) []
    refine Gives.eq_ite (.bind (.of_eq hfound) (.bind hname (.bind hsuper (.bind hinterfaces
      (.bind hflags (.bind hgeneric (.bind hsourceFile (.bind hpath (.bind hvisible (.bind hinvisible
        (.bind hfields (.bind hmethods (.bind hreferences (.pure c)))))))))))))) ?_
    simp only [shape, depth_record_le, List.forall_mem_cons]
    simp

/-! ## Stored records -/

theorem exact_bitsForm {α : Type} {bits : Form α} (h : bits.Exact) : (bitsForm bits).Exact := by
  intro source limit x
  cases limit with
  | zero => exact (if_neg (not_depth_record_le_zero _)).symm
  | succ limit =>
    have hfound : members? ["bits"] (.record [("bits", bits.write x)]) = some _ :=
      members?_record (by simp) (by simp)
    simp only [Json.record, List.map_cons, List.map_nil] at hfound
    have hread : (bitsForm bits).read? source (limit + 1) ((bitsForm bits).write x) =
        bits.read? source limit (bits.write x) := by
      simp [bitsForm, Json.record, hfound, required?]
    rw [hread, h]
    exact if_congr (by simp [bitsForm]) rfl rfl

/-- A 32-bit integer is within the range of double precision. -/
theorem sound_int32 (limit : Nat) (n : Int32) : (Form.int32.write n).sound limit := by
  have hle := n.le_toInt
  have hlt := n.toInt_lt
  exact isFinite_ofInt (by omega)

/-- Stored records are written in a lawful dialect. -/
theorem lawful_record : Dialect.record.Lawful where
  nodup_fieldNames := by decide
  nodup_methodNames := by decide
  nodup_shapeNames := by decide
  annotationType := by decide
  exact_name := Form.exact_int32
  exact_optionalName := Form.exact_int32
  sound_name := sound_int32
  depth_name n := depth_ofInt n.toInt
  depth_optionalName n := depth_ofInt n.toInt
  exact_float := exact_bitsForm Form.exact_uint32
  exact_double := exact_bitsForm Form.exact_uint64

end ClassDeps.Dialect
