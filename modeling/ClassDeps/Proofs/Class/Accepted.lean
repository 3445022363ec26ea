import ClassDeps.Proofs.Class.Nesting
import ClassDeps.Proofs.Class.Reading

/-!
# The nesting of accepted documents

A reader enters one level of the limit for each array and object of a document. What is stored for the document can
have one level more, and no more than one: the list of the elements of an annotation that names none, the lists
that a document leaves out, and the bits of a floating-point constant.

## Main definitions

* `Dialect.Bounded`, `Dialect.BoundedAt` — values whose stored form nests at most one level deeper

## Main statements

* `Dialect.nesting_le_of_read` — a class read within a limit nests at most one level deeper when it is stored
-/

namespace ClassDeps.Dialect

open Json

variable {ν ω : Type} {d : Dialect ν ω}

/-- The stored form of values that are read within a limit nests at most one level deeper. -/
def Bounded {α : Type} (read? : Source → Nat → Json → Option α) (stored : α → Json) : Prop :=
  ∀ (source : Source) (limit : Nat) (j : Json) (x : α), read? source limit j = some x →
    (stored x).depth ≤ limit + 1

/-- How a constant is stored, without its names. -/
def storedConstant (c : Constant ν) : Json :=
  record.writeConstant (c.map fun _ => 0)

/-- How the constants of an array are stored. -/
def storedItems (items : List (Constant ν)) : Json :=
  .array (record.writeItems (mapItems (fun _ => 0) items))

/-- How the elements of an annotation are stored. -/
def storedElements (elements : List (ν × Constant ν)) : Json :=
  .array (record.writeElements (mapElements (fun _ => 0) elements))

/-- How an annotation is stored. -/
def storedUse (a : AnnotationUse ν) : Json :=
  record.annotationUse.write (a.map fun _ => 0)

theorem depth_storedItems_le {items : List (Constant ν)} {limit : Nat} :
    (storedItems items).depth ≤ limit + 1 ↔ ∀ item ∈ items, (storedConstant item).depth ≤ limit := by
  rw [storedItems, depth_array_le]
  induction items with
  | nil => simp [mapItems, writeItems]
  | cons item rest ih => simp [mapItems, writeItems, ih, storedConstant]

theorem depth_storedElements_le {elements : List (ν × Constant ν)} {limit : Nat} :
    (storedElements elements).depth ≤ limit + 2 ↔
      ∀ element ∈ elements, (storedConstant element.2).depth ≤ limit := by
  rw [storedElements, depth_array_le]
  induction elements with
  | nil => simp [mapElements, writeElements]
  | cons element rest ih =>
    simp [mapElements, writeElements, ih, storedConstant, lawful_record.depth_name]

theorem depth_storedUse_le {a : AnnotationUse ν} {limit : Nat} :
    (storedUse a).depth ≤ limit + 1 ↔ (storedElements a.elements).depth ≤ limit := by
  simp [storedUse, annotationUse, AnnotationUse.map, storedElements, lawful_record.depth_name]

theorem mapM_eq_some {α β : Type} {read? : α → Option β} {xs : List α} {ys : List β}
    (h : xs.mapM read? = some ys) : ∀ y ∈ ys, ∃ x, read? x = some y := by
  induction xs generalizing ys with
  | nil =>
    cases h
    exact List.forall_mem_nil _
  | cons x xs ih =>
    simp only [List.mapM_cons, Option.bind_eq_bind, Option.pure_def, Option.bind_eq_some_iff,
      Option.some.injEq] at h
    obtain ⟨y, hy, ys, hys, rfl⟩ := h
    exact List.forall_mem_cons.2 ⟨⟨x, hy⟩, ih hys⟩

/-- A member that can be left out has its default or is read. -/
theorem eq_or_read_of_defaulted? {α : Type} {members : List (String × Json)} {name : String}
    {default x : α} {read? : Json → Option α} (h : defaulted? members name default read? = some x) :
    x = default ∨ ∃ j, read? j = some x := by
  unfold defaulted? at h
  split at h
  · exact .inl (Option.some.inj h).symm
  · exact .inr ⟨_, h⟩

theorem exists_of_readEnumerator {source : Source} {limit : Nat} {j : Json} {c : Constant ν}
    (h : d.readEnumerator source limit j = some c) : ∃ type constant, c = .enumerator type constant := by
  unfold readEnumerator at h
  split at h
  · simp only [Option.bind_eq_bind, Option.pure_def, Option.bind_eq_some_iff, Option.some.injEq] at h
    obtain ⟨found, -, type, -, constant, -, rfl⟩ := h
    exact ⟨type, constant, rfl⟩
  · cases h

/-! ## Constants and annotations -/

/-- What constants, annotations and their parts, which are read from each other, may nest if they are read within a
limit. An element has the object around it as a level of its own. -/
structure BoundedAt (d : Dialect ν ω) (limit : Nat) : Prop where
  constant : ∀ source j (c : Constant ν), d.readConstant source limit j = some c →
    (storedConstant c).depth ≤ limit + 1
  items : ∀ source j items, d.readItems source limit j = some items → (storedItems items).depth ≤ limit + 1
  annotationUse : ∀ source j a, d.readAnnotationUse source limit j = some a →
    (storedUse a).depth ≤ limit + 1
  elements : ∀ source j elements, d.readElements source limit j = some elements →
    (storedElements elements).depth ≤ limit + 1
  element : ∀ source j element, d.readElement source limit j = some element →
    (storedConstant element.2).depth ≤ limit

namespace BoundedAt

variable {source : Source} {limit : Nat} {j : Json}

theorem constant_succ (h : d.BoundedAt limit) {c : Constant ν}
    (hread : d.readConstant source (limit + 1) j = some c) : (storedConstant c).depth ≤ limit + 2 := by
  simp only [readConstant, Option.bind_eq_bind, Option.bind_eq_some_iff] at hread
  obtain ⟨⟨type, source, value⟩, -, hread⟩ := hread
  simp only at hread
  split at hread
  -- The bits of a floating-point number are an object, and so is an enumerator.
  case h_3 | h_4 =>
    obtain ⟨bits, -, rfl⟩ := Option.map_eq_some_iff.1 hread
    exact depth_alternative_le.2 (Nat.le_add_left 1 limit)
  case h_9 =>
    obtain ⟨type, constant, rfl⟩ := exists_of_readEnumerator hread
    exact depth_alternative_le.2 (Nat.le_add_left 1 limit)
  case h_10 =>
    obtain ⟨a, ha, rfl⟩ := Option.map_eq_some_iff.1 hread
    exact depth_alternative_le.2 (h.annotationUse source value a ha)
  case h_11 =>
    obtain ⟨items, hitems, rfl⟩ := Option.map_eq_some_iff.1 hread
    exact depth_alternative_le.2 (h.items source value items hitems)
  case h_12 => cases hread
  all_goals
    obtain ⟨leaf, -, rfl⟩ := Option.map_eq_some_iff.1 hread
    exact depth_alternative_le.2 (Nat.zero_le (limit + 1))

theorem items_succ (h : d.BoundedAt limit) {items : List (Constant ν)}
    (hread : d.readItems source (limit + 1) j = some items) : (storedItems items).depth ≤ limit + 2 := by
  unfold readItems at hread
  split at hread
  · rename_i hlimit
    obtain rfl := Nat.succ.inj hlimit
    rw [depth_storedItems_le]
    intro item hitem
    obtain ⟨value, hvalue⟩ := mapM_eq_some hread item hitem
    exact h.constant source value item hvalue
  · cases hread

/-- This is where a level is added: a missing list of elements has no level, but the empty list has one. -/
theorem annotationUse_succ (h : d.BoundedAt limit) {a : AnnotationUse ν}
    (hread : d.readAnnotationUse source (limit + 1) j = some a) : (storedUse a).depth ≤ limit + 2 := by
  simp only [readAnnotationUse, Option.bind_eq_bind, Option.pure_def, Option.bind_eq_some_iff,
    Option.some.injEq] at hread
  obtain ⟨found, -, type, -, elements, helements, rfl⟩ := hread
  rw [depth_storedUse_le]
  obtain rfl | ⟨value, hvalue⟩ := eq_or_read_of_defaulted? helements
  · exact Nat.le_add_left 1 limit
  · exact h.elements source value elements hvalue

theorem elements_succ (h : d.BoundedAt limit) {elements : List (ν × Constant ν)}
    (hread : d.readElements source (limit + 1) j = some elements) :
    (storedElements elements).depth ≤ limit + 2 := by
  unfold readElements at hread
  split at hread
  · rename_i hlimit
    obtain rfl := Nat.succ.inj hlimit
    rw [depth_storedElements_le]
    intro element helement
    obtain ⟨value, hvalue⟩ := mapM_eq_some hread element helement
    exact h.element source value element hvalue
  · cases hread

theorem element_succ (h : d.BoundedAt limit) {element : ν × Constant ν}
    (hread : d.readElement source (limit + 1) j = some element) :
    (storedConstant element.2).depth ≤ limit + 1 := by
  simp only [readElement, Option.bind_eq_bind, Option.pure_def, Option.bind_eq_some_iff,
    Option.some.injEq] at hread
  obtain ⟨found, -, name, -, value, hrequired, rfl⟩ := hread
  obtain ⟨j', -, hvalue⟩ := Option.bind_eq_some_iff.1 hrequired
  exact h.constant source j' value hvalue

end BoundedAt

theorem boundedAt (d : Dialect ν ω) (limit : Nat) : d.BoundedAt limit := by
  induction limit with
  | zero =>
    refine ⟨?_, ?_, ?_, ?_, ?_⟩
    all_goals
      intro source j x hread
      cases hread
  | succ limit ih =>
    exact ⟨fun _ _ _ => ih.constant_succ, fun _ _ _ => ih.items_succ, fun _ _ _ => ih.annotationUse_succ,
      fun _ _ _ => ih.elements_succ, fun _ _ _ => ih.element_succ⟩

/-! ## Lists and members -/

theorem Bounded.list {α β : Type} {item : Form α} {stored : Form β} {convert : α → β}
    (h : Bounded item.read? fun x => stored.write (convert x)) :
    Bounded (Form.list item).read? fun xs => (Form.list stored).write (xs.map convert) := by
  intro source limit j xs hread
  simp only [Form.list] at hread ⊢
  split at hread
  · rw [depth_array_le, List.forall_mem_map, List.forall_mem_map]
    intro x hx
    obtain ⟨value, hvalue⟩ := mapM_eq_some hread x hx
    exact h _ _ value x hvalue
  · cases hread

/-- A list that may be left out nests at most one level deeper, too: an empty list is stored. -/
theorem Bounded.of_readList {α β : Type} {item : Form α} {stored : Form β} {convert : α → β}
    (h : Bounded item.read? fun x => stored.write (convert x)) {found : List (String × Json)}
    {name : String} {source : Source} {limit : Nat} {xs : List α}
    (hread : readList found name source limit item = some xs) :
    ((Form.list stored).write (xs.map convert)).depth ≤ limit + 1 := by
  obtain rfl | ⟨j, hj⟩ := eq_or_read_of_defaulted? hread
  · exact Nat.le_add_left 1 limit
  · exact h.list source limit j xs hj

theorem bounded_annotationUse :
    Bounded d.annotationUse.read? fun a => record.annotationUse.write (a.map fun _ => 0) :=
  fun source limit j a hread => (d.boundedAt limit).annotationUse source j a hread

theorem bounded_annotations : Bounded d.annotations.read?
    fun as => record.annotations.write (as.map (AnnotationUse.map fun _ => 0)) :=
  bounded_annotationUse.list

theorem depth_names_le (names : List ν) (limit : Nat) :
    ((Form.list record.name).write (names.map fun _ => 0)).depth ≤ limit + 1 := by
  simp [Form.list, lawful_record.depth_name]

theorem depth_constantMember_le {found : List (String × Json)} {name : String} (word : String)
    {source : Source} {limit : Nat} {value : Option (Constant ν)}
    (hread : d.readOptionalConstant found name source limit = some value) :
    ∀ member ∈ record.constantMember word (value.map (Constant.map fun _ => 0)),
      member.2.depth ≤ limit + 1 := by
  obtain rfl | ⟨j, hj⟩ := eq_or_read_of_defaulted? hread
  · simp [constantMember, Dialect.record]
  · cases value with
    | none => simp [constantMember, Dialect.record]
    | some c =>
      have hconstant : d.constant.read? source limit j = some c := by
        simp only [Form.nullable] at hj
        split at hj
        · cases hj
        · simpa using hj
      have hdepth := (d.boundedAt limit).constant source j c hconstant
      intro member hmember
      have hmember : member = (word, storedConstant c) := by
        simpa [constantMember, Form.nullable, constant, storedConstant] using hmember
      rw [hmember]
      exact hdepth

theorem bounded_field : Bounded d.field.read?
    fun x => record.field.write (x.map (fun _ => 0) (fun _ => 0)) := by
  intro source limit j x hread
  obtain ⟨limit, found, rfl, -, hread⟩ := read?_field_eq_some_iff.1 hread
  have hconstant := depth_constantMember_le record.words.constant hread.constant
  have hvisible := bounded_annotationUse.of_readList hread.visible
  have hinvisible := bounded_annotationUse.of_readList hread.invisible
  simp only [field, Field.map, depth_record_le, List.forall_mem_append, List.forall_mem_cons]
  refine ⟨⟨⟨?_, ?_, ?_, ?_, List.forall_mem_nil _⟩, hconstant⟩, hvisible, hinvisible,
    List.forall_mem_nil _⟩ <;> exact Nat.zero_le _

theorem bounded_method : Bounded d.method.read?
    fun x => record.method.write (x.map (fun _ => 0) (fun _ => 0)) := by
  intro source limit j x hread
  obtain ⟨limit, found, rfl, -, hread⟩ := read?_method_eq_some_iff.1 hread
  have hexceptions := depth_names_le x.exceptions limit
  have hvisible := bounded_annotationUse.of_readList hread.visible
  have hinvisible := bounded_annotationUse.of_readList hread.invisible
  have hvisibleParameters := bounded_annotations.of_readList hread.visibleParameters
  have hinvisibleParameters := bounded_annotations.of_readList hread.invisibleParameters
  have hdefault := depth_constantMember_le record.words.default hread.default
  simp only [method, Method.map, depth_record_le, List.forall_mem_append, List.forall_mem_cons]
  refine ⟨⟨?_, ?_, ?_, ?_, hexceptions, hvisible, hinvisible, hvisibleParameters,
    hinvisibleParameters, List.forall_mem_nil _⟩, hdefault⟩ <;> exact Nat.zero_le _

theorem bounded_declaration : Bounded d.declaration.read?
    fun x => record.declaration.write (x.map fun _ => 0) := by
  intro source limit j x _
  cases x <;> exact Nat.le_add_left 1 limit

/-! ## Classes -/

/-- A class that is read within a limit nests at most one level deeper when it is stored. -/
theorem nesting_le_of_read {source : Source} {limit : Nat} {j : Json} {c : ClassShape ν ω}
    (hread : d.shape.read? source limit j = some c) : c.nesting ≤ limit + 1 := by
  obtain ⟨limit, found, rfl, -, hread⟩ := read?_shape_eq_some_iff.1 hread
  have hinterfaces := depth_names_le c.interfaces limit
  have hvisible := bounded_annotationUse.of_readList hread.visible
  have hinvisible := bounded_annotationUse.of_readList hread.invisible
  have hfields := bounded_field.of_readList hread.fields
  have hmethods := bounded_method.of_readList hread.methods
  have hreferences := bounded_declaration.of_readList hread.references
  simp only [ClassShape.nesting, shape, ClassShape.map, depth_record_le, List.forall_mem_cons]
  refine ⟨?_, ?_, hinterfaces, ?_, ?_, ?_, ?_, hvisible, hinvisible, hfields, hmethods, hreferences,
    List.forall_mem_nil _⟩ <;> exact Nat.zero_le _

theorem nesting_le_of_ofBytes? {bytes : Bytes} {c : ClassShape ν ω} (hread : d.shape.ofBytes? bytes = some c) :
    c.nesting ≤ depthLimit + 1 := by
  rw [Form.ofBytes?, Option.bind_eq_bind, Option.bind_eq_some_iff] at hread
  obtain ⟨j, -, hread⟩ := hread
  exact nesting_le_of_read hread

end ClassDeps.Dialect
