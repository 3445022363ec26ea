import ClassDeps.Class.Dependency
import ClassDeps.Proofs.Class.Exact
import ClassDeps.Proofs.Json.Intact

/-!
# Members read back

Which kind of member an object describes is said among the members of the object, so that the object is kept until
all of it has been looked at. What a dialect writes of fields and methods passes that look within the limit, and
then the members, and the dependencies that list them, are read back.

## Main definitions

* `Dialect.Intact` — a dialect whose leaves are texts and numbers in range

## Main statements

* `gives_tagged` — an alternative that is named in its own object
* `Dialect.Intact.field`, `method`, `shape` — what is written of members and classes can be kept
* `Dialect.Lawful.exact_member` — members are read back
* `Dependency.exact_form` — so are dependencies
-/

namespace ClassDeps

open Json

namespace Dialect

variable {ν ω : Type} {d : Dialect ν ω}

/-- A dialect whose leaves are texts and numbers in range. -/
structure Intact (d : Dialect ν ω) : Prop where
  name : d.name.Intact
  optionalName : d.optionalName.Intact
  float : d.float.Intact
  double : d.double.Intact

theorem isIntact_alternative {type : String} {value : Json} :
    (alternative type value).isIntact = true ↔ value.isIntact = true := by
  simp [alternative]

namespace Intact

mutual

theorem writeConstant (h : d.Intact) : (c : Constant ν) → (d.writeConstant c).isIntact = true
  | .int value => isIntact_alternative.2 (Form.intact_int32 value)
  | .long value => isIntact_alternative.2 (Form.intact_int64 value)
  | .float bits => isIntact_alternative.2 (h.float bits)
  | .double bits => isIntact_alternative.2 (h.double bits)
  | .boolean value => isIntact_alternative.2 (Form.intact_boolean value)
  | .char value => isIntact_alternative.2 (Form.intact_character value)
  | .string value => isIntact_alternative.2 (Form.intact_text value)
  | .type name => isIntact_alternative.2 (h.name name)
  | .enumerator type constant => by
    rw [Dialect.writeConstant, isIntact_alternative]
    simp [h.name type, h.name constant]
  | .annotationUse type elements => by
    rw [Dialect.writeConstant, isIntact_alternative]
    simpa [h.name type] using writeElements h elements
  | .array items => by
    rw [Dialect.writeConstant, isIntact_alternative, isIntact_array]
    exact writeItems h items

theorem writeItems (h : d.Intact) : (items : List (Constant ν)) →
    ∀ item ∈ d.writeItems items, item.isIntact = true
  | [] => List.forall_mem_nil _
  | item :: rest => List.forall_mem_cons.2 ⟨writeConstant h item, writeItems h rest⟩

theorem writeElements (h : d.Intact) : (elements : List (ν × Constant ν)) →
    ∀ element ∈ d.writeElements elements, element.isIntact = true
  | [] => List.forall_mem_nil _
  | (name, value) :: rest => by
    rw [Dialect.writeElements, List.forall_mem_cons]
    refine ⟨?_, writeElements h rest⟩
    simp [h.name name, writeConstant h value]

end

theorem constant (h : d.Intact) : d.constant.Intact :=
  h.writeConstant

theorem annotationUse (h : d.Intact) : d.annotationUse.Intact := by
  intro a
  simpa [Dialect.annotationUse, h.name a.type] using h.writeElements a.elements

theorem annotations (h : d.Intact) : d.annotations.Intact :=
  h.annotationUse.list

theorem constantMember (h : d.Intact) (name : String) (value : Option (Constant ν)) :
    ∀ member ∈ d.constantMember name value, member.2.isIntact = true := by
  rw [Dialect.constantMember]
  split
  · exact List.forall_mem_nil _
  · rw [List.forall_mem_singleton]
    exact h.constant.nullable value

theorem fieldMembers (h : d.Intact) (f : Field ν ω) : ∀ member ∈ d.fieldMembers f, member.2.isIntact = true := by
  simp only [Dialect.fieldMembers, fieldFront, fieldBack, List.forall_mem_append, List.forall_mem_cons]
  exact ⟨⟨⟨h.name _, h.name _, Form.intact_int32 _, h.optionalName _, List.forall_mem_nil _⟩,
    h.constantMember _ _⟩, h.annotations _, h.annotations _, List.forall_mem_nil _⟩

theorem methodMembers (h : d.Intact) (m : Method ν ω) :
    ∀ member ∈ d.methodMembers m, member.2.isIntact = true := by
  simp only [Dialect.methodMembers, methodFront, List.forall_mem_append, List.forall_mem_cons]
  exact ⟨⟨h.name _, h.name _, Form.intact_int32 _, h.optionalName _, h.name.list _, h.annotations _,
    h.annotations _, h.annotations.list _, h.annotations.list _, List.forall_mem_nil _⟩, h.constantMember _ _⟩

theorem field (h : d.Intact) : d.field.Intact :=
  fun f => isIntact_record.2 (h.fieldMembers f)

theorem method (h : d.Intact) : d.method.Intact :=
  fun m => isIntact_record.2 (h.methodMembers m)

theorem declaration (h : d.Intact) : d.declaration.Intact := by
  intro key
  cases key <;> simp [Dialect.declaration, h.name _]

theorem shape (h : d.Intact) : d.shape.Intact := by
  intro c
  simp only [Dialect.shape, isIntact_record, List.forall_mem_cons]
  exact ⟨h.name _, h.optionalName _, h.name.list _, Form.intact_int32 _, h.optionalName _, Form.intact_text _,
    Form.intact_text _, h.annotations _, h.annotations _, h.field.list _, h.method.list _, h.declaration.list _,
    List.forall_mem_nil _⟩

end Intact

/-! ## Members -/

/-- An alternative that is named in its own object is found if the members of the object nest within the limit. -/
theorem gives_tagged (names : List String) (source : Source) (limit : Nat) (kind : String)
    {members : List (String × Json)} (hkind : ∀ member ∈ members, member.1 ≠ "kind")
    (hintact : ∀ member ∈ members, member.2.isIntact = true) :
    Gives (tagged? names source (limit + 1) (withKind kind (.record members)))
      (∀ member ∈ members, member.2.depth ≤ limit) (kind, .record members) := by
  have hsound : (∀ member ∈ members, member.2.depth ≤ limit) ↔ ∀ member ∈ members, member.2.sound limit :=
    forall₂_congr fun member hmem => by rw [sound_iff, hintact member hmem, eq_self, true_and]
  exact (Gives.of_eq_ite (tagged?_record_cons names source limit kind hkind)).congr hsound

theorem fst_mem_fieldNames (d : Dialect ν ω) (f : Field ν ω) :
    ∀ member ∈ d.fieldMembers f, member.1 ∈ d.fieldNames := fun _ hmem =>
  (d.sublist_map_fst f.constant (d.map_fst_field f)).subset (List.mem_map_of_mem hmem)

theorem fst_mem_methodNames (d : Dialect ν ω) (m : Method ν ω) :
    ∀ member ∈ d.methodMembers m, member.1 ∈ d.methodNames := by
  have hsublist := d.sublist_map_fst m.default (d.map_fst_method m)
  rw [List.append_nil] at hsublist
  exact fun _ hmem => hsublist.subset (List.mem_map_of_mem hmem)

/-- The kind stands in front of the members of what is described. -/
theorem depth_withKind_le {kind : String} {members : List (String × Json)} {limit : Nat} :
    (withKind kind (.record members)).depth ≤ limit + 1 ↔ ∀ member ∈ members, member.2.depth ≤ limit := by
  have hwrite : withKind kind (.record members) = .record (("kind", .ofText kind) :: members) := rfl
  simp [hwrite]

/-- What is read of members is put together from their kind and the object without it. -/
theorem Lawful.exact_member (h : d.Lawful) (hintact : d.Intact) (hfield : "kind" ∉ d.fieldNames)
    (hmethod : "kind" ∉ d.methodNames) : d.member.Exact := by
  intro source limit x
  cases limit with
  | zero => cases x <;> exact (if_neg (not_depth_record_le_zero _)).symm
  | succ limit =>
    cases x with
    | field f =>
      have hkind : ∀ member ∈ d.fieldMembers f, member.1 ≠ "kind" :=
        fun member hmem heq => hfield (heq ▸ d.fst_mem_fieldNames f member hmem)
      have htagged := gives_tagged ["field", "method"] source limit "field" hkind
        (hintact.fieldMembers f)
      have hread := (h.exact_field.gives .kept (limit + 1) f).map (Member.field (ω := ω))
      have hdepth : (d.field.write f).depth ≤ limit + 1 ↔ ∀ member ∈ d.fieldMembers f, member.2.depth ≤ limit :=
        depth_record_le
      refine Gives.eq_ite (.bind htagged hread) ?_
      rw [hdepth, and_self]
      exact depth_withKind_le
    | method m =>
      have hkind : ∀ member ∈ d.methodMembers m, member.1 ≠ "kind" :=
        fun member hmem heq => hmethod (heq ▸ d.fst_mem_methodNames m member hmem)
      have htagged := gives_tagged ["field", "method"] source limit "method" hkind
        (hintact.methodMembers m)
      have hread := (h.exact_method.gives .kept (limit + 1) m).map (Member.method (ω := ω))
      have hdepth : (d.method.write m).depth ≤ limit + 1 ↔ ∀ member ∈ d.methodMembers m, member.2.depth ≤ limit :=
        depth_record_le
      refine Gives.eq_ite (.bind htagged hread) ?_
      rw [hdepth, and_self]
      exact depth_withKind_le

theorem intact_bitsForm {α : Type} {bits : Form α} (h : bits.Intact) : (bitsForm bits).Intact := by
  intro x
  simpa [bitsForm] using h x

theorem intact_record : Dialect.record.Intact where
  name := Form.intact_int32
  optionalName := Form.intact_int32
  float := intact_bitsForm Form.intact_uint32
  double := intact_bitsForm Form.intact_uint64

/-- The members of stored records are read back. -/
theorem exact_memberRecord : Dialect.record.member.Exact :=
  lawful_record.exact_member intact_record (by decide) (by decide)

end Dialect

/-- Dependencies are read back. -/
theorem Dependency.exact_form : Dependency.form.Exact := by
  intro source limit d
  cases limit with
  | zero => exact (if_neg (not_depth_record_le_zero _)).symm
  | succ limit =>
    let members : List (String × Json) := [("class_qname", Dialect.record.name.write d.referencer),
      ("members", (Form.list Dialect.record.member).write d.members)]
    have hnodup : (members.map Prod.fst).Nodup := by simp [members]
    have hfound : members? ["class_qname", "members"] (.record members) = some members :=
      members?_record (by simp [members]) hnodup
    have hreferencer := (Dialect.lawful_record.exact_name.gives source limit d.referencer).required hnodup
      (by simp [members] : ("class_qname", _) ∈ members)
    have hmembers := (Dialect.exact_memberRecord.list.gives source limit d.members).required hnodup
      (by simp [members] : ("members", _) ∈ members)
    refine Gives.eq_ite (.bind (.of_eq hfound) (.bind hreferencer (.bind hmembers (.pure d)))) ?_
    simp [form]

end ClassDeps
