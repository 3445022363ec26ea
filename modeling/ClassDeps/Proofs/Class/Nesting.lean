import ClassDeps.Proofs.Class.Exact
import ClassDeps.Proofs.Class.Interned

/-!
# How deep stored records nest

The stored form of a class does not nest as its document does: annotations without elements get a list of them,
and floating-point constants become objects. How deep it nests depends on the shape of the class, not on its
names.

## Main definitions

* `ClassShape.nesting` — the depth of the stored form of a class

## Main statements

* `ClassShape.depth_write` — the depth of a stored record is the nesting of the class
* `ClassShape.nesting_map` — other names do not change it
* `ClassShape.nesting_normal` — nor does normalisation
-/

namespace ClassDeps

open Json

namespace Dialect.Lawful

variable {ν ω : Type} {d : Dialect ν ω}

/-! ## Depth and names -/

theorem depth_alternative (type : String) (value : Json) :
    (alternative type value).depth = value.depth + 1 := by
  simp [alternative, Json.record, depth, membersDepth]

theorem depth_list_map {α β : Type} {form : Form α} {other : Form β} {first : α → β} {xs : List α}
    (h : ∀ x ∈ xs, (other.write (first x)).depth = (form.write x).depth) :
    ((Form.list other).write (xs.map first)).depth = ((Form.list form).write xs).depth := by
  have hitems : itemsDepth ((xs.map first).map other.write) = itemsDepth (xs.map form.write) := by
    induction xs with
    | nil => rfl
    | cons x xs ih =>
      rw [List.forall_mem_cons] at h
      simp only [List.map_cons, itemsDepth, h.1, ih h.2]
  exact congrArg (· + 1) hitems

mutual

theorem depth_writeConstant_map (h : d.Lawful) (f : ν → ν) : (c : Constant ν) →
    (d.writeConstant (c.map f)).depth = (d.writeConstant c).depth
  | .int _ | .long _ | .float _ | .double _ | .boolean _ | .char _ | .string _ => rfl
  | .type name => by
    simp only [Constant.map, writeConstant, depth_alternative, h.depth_name]
  | .enumerator type constant => by
    simp only [Constant.map, writeConstant, depth_alternative, Json.record, List.map_cons,
      List.map_nil, depth, membersDepth, h.depth_name]
  | .annotationUse type elements => by
    simp only [Constant.map, writeConstant, depth_alternative, Json.record, List.map_cons,
      List.map_nil, depth, membersDepth, h.depth_name, itemsDepth_writeElements_map h f elements]
  | .array items => by
    simp only [Constant.map, writeConstant, depth_alternative, depth,
      itemsDepth_writeItems_map h f items]

theorem itemsDepth_writeItems_map (h : d.Lawful) (f : ν → ν) : (items : List (Constant ν)) →
    itemsDepth (d.writeItems (mapItems f items)) = itemsDepth (d.writeItems items)
  | [] => rfl
  | item :: rest => by
    simp only [mapItems, writeItems, itemsDepth, depth_writeConstant_map h f item,
      itemsDepth_writeItems_map h f rest]

theorem itemsDepth_writeElements_map (h : d.Lawful) (f : ν → ν) :
    (elements : List (ν × Constant ν)) →
    itemsDepth (d.writeElements (mapElements f elements)) = itemsDepth (d.writeElements elements)
  | [] => rfl
  | (name, value) :: rest => by
    simp only [mapElements, writeElements, Json.record, List.map_cons, List.map_nil, itemsDepth, depth,
      membersDepth, h.depth_name, depth_writeConstant_map h f value,
      itemsDepth_writeElements_map h f rest]

end

theorem depth_annotationUse_map (h : d.Lawful) (f : ν → ν) (a : AnnotationUse ν) :
    (d.annotationUse.write (a.map f)).depth = (d.annotationUse.write a).depth := by
  simp only [AnnotationUse.map, annotationUse, Json.record, List.map_cons, List.map_nil, depth,
    membersDepth, h.depth_name, itemsDepth_writeElements_map h f a.elements]

theorem depth_annotations_map (h : d.Lawful) (f : ν → ν) (as : List (AnnotationUse ν)) :
    (d.annotations.write (as.map (AnnotationUse.map f))).depth = (d.annotations.write as).depth :=
  depth_list_map fun a _ => h.depth_annotationUse_map f a

theorem depth_parameters_map (h : d.Lawful) (f : ν → ν) (ps : List (List (AnnotationUse ν))) :
    ((Form.list d.annotations).write (ps.map (List.map (AnnotationUse.map f)))).depth =
      ((Form.list d.annotations).write ps).depth :=
  depth_list_map fun as _ => h.depth_annotations_map f as

theorem depth_names_map (h : d.Lawful) (f : ν → ν) (names : List ν) :
    ((Form.list d.name).write (names.map f)).depth = ((Form.list d.name).write names).depth :=
  depth_list_map fun name _ => by rw [h.depth_name, h.depth_name]

theorem membersDepth_constantMember_map (h : d.Lawful) (f : ν → ν) (name : String)
    (value : Option (Constant ν)) :
    membersDepth ((d.constantMember name (value.map (Constant.map f))).map
        fun member => (Bytes.ofText member.1, member.2)) =
      membersDepth ((d.constantMember name value).map
        fun member => (Bytes.ofText member.1, member.2)) := by
  cases value with
  | none => rfl
  | some c =>
    simp only [constantMember, Option.map_some, Option.isNone_some, Bool.and_false, Bool.false_eq_true,
      if_false, Form.nullable, constant, List.map_cons, List.map_nil, membersDepth,
      h.depth_writeConstant_map f c]

theorem membersDepth_append (members others : List (Bytes × Json)) :
    membersDepth (members ++ others) = max (membersDepth members) (membersDepth others) := by
  induction members with
  | nil => simp [membersDepth]
  | cons member members ih => simp [membersDepth, ih, Nat.max_assoc]

theorem depth_field_map (h : d.Lawful) (f : ν → ν) (g : ω → ω) (x : Field ν ω) :
    (d.field.write (x.map f g)).depth = (d.field.write x).depth := by
  simp only [field, Field.map, Json.record, List.map_append, List.map_cons, List.map_nil, depth,
    membersDepth_append, membersDepth, h.depth_name, h.depth_optionalName,
    h.membersDepth_constantMember_map f, h.depth_annotations_map f]

theorem depth_method_map (h : d.Lawful) (f : ν → ν) (g : ω → ω) (x : Method ν ω) :
    (d.method.write (x.map f g)).depth = (d.method.write x).depth := by
  simp only [method, Method.map, Json.record, List.map_append, List.map_cons, List.map_nil, depth,
    membersDepth_append, membersDepth, h.depth_name, h.depth_optionalName, h.depth_names_map f,
    h.membersDepth_constantMember_map f, h.depth_annotations_map f, h.depth_parameters_map f]

theorem depth_declaration_map (h : d.Lawful) (f : ν → ν) (x : Declaration ν) :
    (d.declaration.write (x.map f)).depth = (d.declaration.write x).depth := by
  cases x <;>
    simp only [declaration, Declaration.map, Json.record, List.map_cons, List.map_nil, depth,
      membersDepth, h.depth_name]

theorem depth_shape_map (h : d.Lawful) (f : ν → ν) (g : ω → ω) (c : ClassShape ν ω) :
    (d.shape.write (c.map f g)).depth = (d.shape.write c).depth := by
  have hfields : ((Form.list d.field).write (c.fields.map (Field.map f g))).depth =
      ((Form.list d.field).write c.fields).depth :=
    depth_list_map fun x _ => h.depth_field_map f g x
  have hmethods : ((Form.list d.method).write (c.methods.map (Method.map f g))).depth =
      ((Form.list d.method).write c.methods).depth :=
    depth_list_map fun x _ => h.depth_method_map f g x
  have hreferences : ((Form.list d.declaration).write (c.references.map (Declaration.map f))).depth =
      ((Form.list d.declaration).write c.references).depth :=
    depth_list_map fun x _ => h.depth_declaration_map f x
  simp only [shape, ClassShape.map, Json.record, List.map_cons, List.map_nil, depth, membersDepth,
    h.depth_name, h.depth_optionalName, h.depth_names_map f, h.depth_annotations_map f, hfields,
    hmethods, hreferences]

end Dialect.Lawful

/-! ## The nesting of a class -/

namespace ClassShape

/-- How deep the record of a class nests when it is stored, whatever the numbers of its names. -/
def nesting {ν ω : Type} (c : ClassShape ν ω) : Nat :=
  (Dialect.record.shape.write (c.map (fun _ => 0) (fun _ => 0))).depth

theorem depth_write (record : ClassRecord) :
    (Dialect.record.shape.write record).depth = record.nesting :=
  (Dialect.lawful_record.depth_shape_map _ _ record).symm

/-- Other names do not change the nesting. -/
theorem nesting_map {ν ν' ω : Type} (f : ν → ν') (g : Option ν → ω) (c : ClassShape ν (Option ν)) :
    (c.map f g).nesting = c.nesting := by
  -- The nesting is taken after all names became 0, which forgets what they were mapped to before.
  have hmap : (c.map f g).map (fun _ => (0 : SymbolId)) (fun _ => (0 : SymbolId)) =
      c.map (fun _ => 0) (fun _ => 0) :=
    c.map_map (p := fun _ => True) (fun _ _ => rfl) (fun _ _ => rfl) fun _ _ => trivial
  rw [nesting, hmap, nesting]

/-- The path of a class does not change how deep its record nests. -/
theorem nesting_path_le {ν ω : Type} {c : ClassShape ν ω} {limit : Nat} (h : c.nesting ≤ limit) (path : String) :
    ({ c with path } : ClassShape ν ω).nesting ≤ limit := by
  cases limit with
  | zero => exact absurd h (not_depth_record_le_zero _)
  | succ limit =>
    simp only [nesting, Dialect.shape, depth_record_le, List.forall_mem_cons] at h ⊢
    exact h

/-- A class nests no deeper without what its body uses. -/
theorem nesting_withoutReferences_le {ν ω : Type} {c : ClassShape ν ω} {limit : Nat}
    (h : c.nesting ≤ limit) : c.withoutReferences.nesting ≤ limit := by
  cases limit with
  | zero => exact absurd h (not_depth_record_le_zero _)
  | succ limit =>
    -- The two documents differ in one member, and an empty array is the flattest that it can be.
    simp only [nesting, Dialect.shape, depth_record_le, List.forall_mem_cons] at h
    obtain ⟨hname, hsuper, hinterfaces, hflags, hgeneric, hsource, hpath, hvisible, hinvisible, hfields,
      hmethods, hreferences, hnil⟩ := h
    have hempty : ((Form.list Dialect.record.declaration).write []).depth ≤ limit :=
      Nat.le_trans (Nat.succ_le_succ (Nat.zero_le _)) hreferences
    simp only [nesting, Dialect.shape, depth_record_le, List.forall_mem_cons]
    exact ⟨hname, hsuper, hinterfaces, hflags, hgeneric, hsource, hpath, hvisible, hinvisible, hfields,
      hmethods, hempty, hnil⟩

theorem nesting_normal (c : ClassDocument) : c.normal.nesting = c.nesting := by
  have hmap : c.normal.map (fun _ => (0 : SymbolId)) (fun _ => (0 : SymbolId)) =
      c.map (fun _ => 0) (fun _ => 0) := by
    simp only [ClassShape.map, normal, List.map_map]
    rfl
  rw [nesting, hmap, nesting]

/-- A record nests as deep as the document that it was made from. -/
theorem nesting_of_intern {document : ClassDocument} {record : ClassRecord} {t u : SymbolTable}
    (h : document.intern t = (.ok record, u)) : record.nesting = document.nesting := by
  rw [(eq_map_of_intern h).2, nesting_map, nesting_normal]

end ClassShape

end ClassDeps
