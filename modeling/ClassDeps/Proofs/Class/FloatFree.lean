import ClassDeps.Proofs.Class.Exact
import ClassDeps.Proofs.Class.Reading

/-!
# Classes without floating-point constants

A document gives floating-point constants as decimal numerals, so that its dialect is not exact on them. On classes
without such constants it agrees with a dialect that is, and therefore reads back what it writes of them.

## Main definitions

* `Constant.FloatFree`, `Field.FloatFree`, `ClassShape.FloatFree`, … — no floating-point constant occurs
* `Form.Agrees` — one form does with some values what another one does
* `Dialect.withFloats` — a dialect with other forms of floating-point constants

## Main statements

* `Dialect.agrees_constant` — forms of floating-point constants do not matter where there are none, by induction on
  the reader
* `Dialect.agrees_shape` — so it is with classes
* `Dialect.read?_document` — documents without floating-point constants are read back
-/

namespace ClassDeps

open Json

variable {ν ω : Type}

/-! ## Constants without floating point -/

mutual

/-- No floating-point constant occurs in the constant. -/
def Constant.FloatFree : Constant ν → Prop
  | .float _ | .double _ => False
  | .annotationUse _ elements => elementsFloatFree elements
  | .array items => itemsFloatFree items
  | _ => True

def itemsFloatFree : List (Constant ν) → Prop
  | [] => True
  | item :: rest => item.FloatFree ∧ itemsFloatFree rest

def elementsFloatFree : List (ν × Constant ν) → Prop
  | [] => True
  | (_, value) :: rest => value.FloatFree ∧ elementsFloatFree rest

end

theorem itemsFloatFree_iff {items : List (Constant ν)} : itemsFloatFree items ↔ ∀ item ∈ items, item.FloatFree := by
  induction items with
  | nil => simp [itemsFloatFree]
  | cons item rest ih => rw [itemsFloatFree, ih, List.forall_mem_cons]

theorem elementsFloatFree_iff {elements : List (ν × Constant ν)} :
    elementsFloatFree elements ↔ ∀ element ∈ elements, element.2.FloatFree := by
  induction elements with
  | nil => simp [elementsFloatFree]
  | cons element rest ih => rw [elementsFloatFree, ih, List.forall_mem_cons]

/-- No floating-point constant occurs in the annotation. -/
def AnnotationUse.FloatFree (a : AnnotationUse ν) : Prop :=
  elementsFloatFree a.elements

/-- No floating-point constant occurs in the field. -/
structure Field.FloatFree (x : Field ν ω) : Prop where
  constant : ∀ c ∈ x.constant, c.FloatFree
  visible : ∀ a ∈ x.visible, a.FloatFree
  invisible : ∀ a ∈ x.invisible, a.FloatFree

/-- No floating-point constant occurs in the method. -/
structure Method.FloatFree (x : Method ν ω) : Prop where
  visible : ∀ a ∈ x.visible, a.FloatFree
  invisible : ∀ a ∈ x.invisible, a.FloatFree
  visibleParameters : ∀ as ∈ x.visibleParameters, ∀ a ∈ as, a.FloatFree
  invisibleParameters : ∀ as ∈ x.invisibleParameters, ∀ a ∈ as, a.FloatFree
  default : ∀ c ∈ x.default, c.FloatFree

/-- No floating-point constant occurs in the class. -/
structure ClassShape.FloatFree (c : ClassShape ν ω) : Prop where
  visible : ∀ a ∈ c.visible, a.FloatFree
  invisible : ∀ a ∈ c.invisible, a.FloatFree
  fields : ∀ x ∈ c.fields, x.FloatFree
  methods : ∀ x ∈ c.methods, x.FloatFree

/-! ## Forms that agree -/

namespace Json

variable {α β : Type} {p : α → Prop}

theorem mapM_eq_some_of_forall {read other : β → Option α} (h : ∀ {j x}, other j = some x → p x → read j = some x)
    {js : List β} {xs : List α} (hother : js.mapM other = some xs) (hxs : ∀ x ∈ xs, p x) :
    js.mapM read = some xs := by
  induction js generalizing xs with
  | nil => exact hother
  | cons j js ih =>
    simp only [List.mapM_cons, Option.bind_eq_bind, Option.bind_eq_some_iff, Option.pure_def,
      Option.some.injEq] at hother ⊢
    obtain ⟨x, hx, rest, hrest, rfl⟩ := hother
    rw [List.forall_mem_cons] at hxs
    exact ⟨x, h hx hxs.1, rest, ih hrest hxs.2, rfl⟩

/-- A form agrees with another one on some values: it writes them alike, and reads them where the other one does. -/
structure Form.Agrees (form other : Form α) (p : α → Prop) : Prop where
  write_eq : ∀ {x : α}, p x → form.write x = other.write x
  read_of_read : ∀ {source : Source} {limit : Nat} {j : Json} {x : α},
    other.read? source limit j = some x → p x → form.read? source limit j = some x

namespace Form.Agrees

variable {form other : Form α}

theorem list (h : form.Agrees other p) : (Form.list form).Agrees (Form.list other) fun xs => ∀ x ∈ xs, p x where
  write_eq hxs := congrArg Json.array (List.map_congr_left fun x hx => h.write_eq (hxs x hx))
  read_of_read := by
    intro source limit j xs hread hxs
    cases limit with
    | zero => cases hread
    | succ limit =>
      cases j with
      | array items => exact mapM_eq_some_of_forall h.read_of_read hread hxs
      | _ => cases hread

theorem nullable (h : form.Agrees other p) :
    (Form.nullable form).Agrees (Form.nullable other) fun x => ∀ y ∈ x, p y where
  write_eq := by
    intro x hx
    cases x with
    | none => rfl
    | some x => exact h.write_eq (hx x rfl)
  read_of_read := by
    intro source limit j x hread hx
    cases j with
    | null => exact hread
    | _ =>
      obtain ⟨y, hy, rfl⟩ := Option.map_eq_some_iff.1 hread
      exact Option.map_eq_some_iff.2 ⟨y, h.read_of_read hy (hx y rfl), rfl⟩

/-- A form that agrees with an exact one reads back what it writes. -/
theorem read?_write (h : form.Agrees other p) (hexact : other.Exact) {x : α} (hx : p x) {limit : Nat}
    (hdepth : (form.write x).depth ≤ limit) (source : Source) :
    form.read? source limit (form.write x) = some x := by
  rw [h.write_eq hx] at hdepth ⊢
  refine h.read_of_read ?_ hx
  rw [hexact, if_pos hdepth]

end Form.Agrees

end Json

namespace Dialect

/-- The dialect with other forms of floating-point constants. -/
def withFloats (d : Dialect ν ω) (float : Form UInt32) (double : Form UInt64) : Dialect ν ω :=
  { d with float, double }

variable (d : Dialect ν ω) (float : Form UInt32) (double : Form UInt64)

/-! ## Constants -/

mutual

theorem writeConstant_withFloats : (c : Constant ν) → c.FloatFree →
    d.writeConstant c = (d.withFloats float double).writeConstant c
  | .int _, _ | .long _, _ | .boolean _, _ | .char _, _ | .string _, _ | .type _, _ | .enumerator _ _, _ => rfl
  | .annotationUse type elements, h => by
    rw [writeConstant, writeConstant, writeElements_withFloats elements h]
    rfl
  | .array items, h => by rw [writeConstant, writeConstant, writeItems_withFloats items h]

theorem writeItems_withFloats : (items : List (Constant ν)) → itemsFloatFree items →
    d.writeItems items = (d.withFloats float double).writeItems items
  | [], _ => rfl
  | item :: rest, h => by
    rw [writeItems, writeItems, writeConstant_withFloats item h.1, writeItems_withFloats rest h.2]

theorem writeElements_withFloats : (elements : List (ν × Constant ν)) → elementsFloatFree elements →
    d.writeElements elements = (d.withFloats float double).writeElements elements
  | [], _ => rfl
  | (name, value) :: rest, h => by
    rw [writeElements, writeElements, writeConstant_withFloats value h.1, writeElements_withFloats rest h.2]
    rfl

end

mutual

/-- By induction on the limit of the reader, which goes down with each level of the document. -/
theorem readConstant_withFloats : (limit : Nat) → {source : Source} → {j : Json} → {c : Constant ν} →
    (d.withFloats float double).readConstant source limit j = some c → c.FloatFree →
    d.readConstant source limit j = some c
  | 0, _, _, _, hread, _ => by
    rw [readConstant] at hread
    cases hread
  | limit + 1, source, j, c, hread, hfree => by
    rw [readConstant, Option.bind_eq_bind, Option.bind_eq_some_iff] at hread ⊢
    obtain ⟨⟨type, source, value⟩, hadjacent, hread⟩ := hread
    refine ⟨⟨type, source, value⟩, hadjacent, ?_⟩
    simp only at hread ⊢
    split at hread
    case h_3 =>
      obtain ⟨bits, -, rfl⟩ := Option.map_eq_some_iff.1 hread
      cases hfree
    case h_4 =>
      obtain ⟨bits, -, rfl⟩ := Option.map_eq_some_iff.1 hread
      cases hfree
    case h_10 =>
      obtain ⟨a, ha, rfl⟩ := Option.map_eq_some_iff.1 hread
      exact Option.map_eq_some_iff.2 ⟨a, readAnnotationUse_withFloats limit ha hfree, rfl⟩
    case h_11 =>
      obtain ⟨items, hitems, rfl⟩ := Option.map_eq_some_iff.1 hread
      exact Option.map_eq_some_iff.2 ⟨items, readItems_withFloats limit hitems hfree, rfl⟩
    all_goals exact hread

theorem readItems_withFloats : (limit : Nat) → {source : Source} → {j : Json} → {items : List (Constant ν)} →
    (d.withFloats float double).readItems source limit j = some items → itemsFloatFree items →
    d.readItems source limit j = some items
  | 0, _, _, _, hread, _ => by
    cases hread
  | limit + 1, _, .array js, items, hread, hfree =>
    mapM_eq_some_of_forall (fun hitem => readConstant_withFloats limit hitem) hread (itemsFloatFree_iff.1 hfree)
  | _ + 1, _, .null, _, hread, _ | _ + 1, _, .bool _, _, hread, _ | _ + 1, _, .number _, _, hread, _
  | _ + 1, _, .string _, _, hread, _ | _ + 1, _, .object _, _, hread, _ => by cases hread

theorem readAnnotationUse_withFloats : (limit : Nat) → {source : Source} → {j : Json} → {a : AnnotationUse ν} →
    (d.withFloats float double).readAnnotationUse source limit j = some a → a.FloatFree →
    d.readAnnotationUse source limit j = some a
  | 0, _, _, _, hread, _ => by
    cases hread
  | limit + 1, source, j, a, hread, hfree => by
    simp only [readAnnotationUse, Option.bind_eq_bind, Option.bind_eq_some_iff, Option.pure_def] at hread ⊢
    obtain ⟨found, hfound, type, htype, elements, helements, hread⟩ := hread
    obtain rfl := Option.some.inj hread
    refine ⟨found, hfound, type, htype, elements, ?_, rfl⟩
    unfold defaulted? at helements ⊢
    split at helements
    · exact helements
    · exact readElements_withFloats limit helements hfree

theorem readElements_withFloats : (limit : Nat) → {source : Source} → {j : Json} →
    {elements : List (ν × Constant ν)} →
    (d.withFloats float double).readElements source limit j = some elements → elementsFloatFree elements →
    d.readElements source limit j = some elements
  | 0, _, _, _, hread, _ => by
    cases hread
  | limit + 1, _, .array js, elements, hread, hfree =>
    mapM_eq_some_of_forall (fun helement => readElement_withFloats limit helement) hread
      (elementsFloatFree_iff.1 hfree)
  | _ + 1, _, .null, _, hread, _ | _ + 1, _, .bool _, _, hread, _ | _ + 1, _, .number _, _, hread, _
  | _ + 1, _, .string _, _, hread, _ | _ + 1, _, .object _, _, hread, _ => by cases hread

theorem readElement_withFloats : (limit : Nat) → {source : Source} → {j : Json} → {element : ν × Constant ν} →
    (d.withFloats float double).readElement source limit j = some element → element.2.FloatFree →
    d.readElement source limit j = some element
  | 0, _, _, _, hread, _ => by
    cases hread
  | limit + 1, source, j, element, hread, hfree => by
    simp only [readElement, required?, Option.bind_eq_bind, Option.bind_eq_some_iff, Option.pure_def] at hread ⊢
    obtain ⟨found, hfound, name, hname, value, ⟨content, hcontent, hvalue⟩, hread⟩ := hread
    obtain rfl := Option.some.inj hread
    exact ⟨found, hfound, name, hname, value, ⟨content, hcontent, readConstant_withFloats limit hvalue hfree⟩, rfl⟩

end

theorem agrees_constant : d.constant.Agrees (d.withFloats float double).constant Constant.FloatFree where
  write_eq hfree := d.writeConstant_withFloats float double _ hfree
  read_of_read hread hfree := d.readConstant_withFloats float double _ hread hfree

theorem agrees_annotationUse :
    d.annotationUse.Agrees (d.withFloats float double).annotationUse AnnotationUse.FloatFree where
  write_eq hfree := by
    simp only [annotationUse, d.writeElements_withFloats float double _ hfree]
    rfl
  read_of_read hread hfree := d.readAnnotationUse_withFloats float double _ hread hfree

theorem agrees_annotations :
    d.annotations.Agrees (d.withFloats float double).annotations fun as => ∀ a ∈ as, a.FloatFree :=
  (d.agrees_annotationUse float double).list

/-! ## Members and classes -/

theorem constantMember_withFloats (name : String) {value : Option (Constant ν)} (hfree : ∀ c ∈ value, c.FloatFree) :
    d.constantMember name value = (d.withFloats float double).constantMember name value := by
  have hwrite := (d.agrees_constant float double).nullable.write_eq hfree
  rw [constantMember, constantMember, hwrite]
  rfl

variable {d float double} {found : List (String × Json)} {name : String} {source : Source} {limit : Nat}

theorem defaulted?_of_agrees {α : Type} {form other : Form α} {p : α → Prop} (h : form.Agrees other p)
    {default x : α} (hread : defaulted? found name default (other.read? source limit) = some x) (hx : p x) :
    defaulted? found name default (form.read? source limit) = some x := by
  unfold defaulted? at hread ⊢
  split at hread
  · exact hread
  · exact h.read_of_read hread hx

theorem readOptionalConstant_withFloats {value : Option (Constant ν)}
    (hread : (d.withFloats float double).readOptionalConstant found name source limit = some value)
    (hfree : ∀ c ∈ value, c.FloatFree) : d.readOptionalConstant found name source limit = some value :=
  defaulted?_of_agrees (d.agrees_constant float double).nullable hread hfree

theorem readList_of_agrees {α : Type} {form other : Form α} {p : α → Prop} (h : form.Agrees other p) {xs : List α}
    (hread : readList found name source limit other = some xs) (hxs : ∀ x ∈ xs, p x) :
    readList found name source limit form = some xs :=
  defaulted?_of_agrees h.list hread hxs

variable (d float double)

theorem agrees_field : d.field.Agrees (d.withFloats float double).field Field.FloatFree where
  write_eq hfree := by
    simp only [field, d.constantMember_withFloats float double _ hfree.constant,
      (d.agrees_annotations float double).write_eq hfree.visible,
      (d.agrees_annotations float double).write_eq hfree.invisible]
    rfl
  read_of_read := by
    intro source limit j x hread hfree
    obtain ⟨below, found, rfl, hfound, hread⟩ := read?_field_eq_some_iff.1 hread
    refine read?_field_eq_some_iff.2 ⟨below, found, rfl, hfound, ?_⟩
    exact { hread with
      constant := readOptionalConstant_withFloats hread.constant hfree.constant
      visible := readList_of_agrees (d.agrees_annotationUse float double) hread.visible hfree.visible
      invisible := readList_of_agrees (d.agrees_annotationUse float double) hread.invisible hfree.invisible }

theorem agrees_method : d.method.Agrees (d.withFloats float double).method Method.FloatFree where
  write_eq hfree := by
    simp only [method, d.constantMember_withFloats float double _ hfree.default,
      (d.agrees_annotations float double).write_eq hfree.visible,
      (d.agrees_annotations float double).write_eq hfree.invisible,
      (d.agrees_annotations float double).list.write_eq hfree.visibleParameters,
      (d.agrees_annotations float double).list.write_eq hfree.invisibleParameters]
    rfl
  read_of_read := by
    intro source limit j x hread hfree
    obtain ⟨below, found, rfl, hfound, hread⟩ := read?_method_eq_some_iff.1 hread
    refine read?_method_eq_some_iff.2 ⟨below, found, rfl, hfound, ?_⟩
    have huse := d.agrees_annotationUse float double
    have huses := d.agrees_annotations float double
    exact { hread with
      visible := readList_of_agrees huse hread.visible hfree.visible
      invisible := readList_of_agrees huse hread.invisible hfree.invisible
      visibleParameters := readList_of_agrees huses hread.visibleParameters hfree.visibleParameters
      invisibleParameters := readList_of_agrees huses hread.invisibleParameters hfree.invisibleParameters
      default := readOptionalConstant_withFloats hread.default hfree.default }

theorem agrees_shape : d.shape.Agrees (d.withFloats float double).shape ClassShape.FloatFree where
  write_eq hfree := by
    simp only [shape, (d.agrees_annotations float double).write_eq hfree.visible,
      (d.agrees_annotations float double).write_eq hfree.invisible,
      (d.agrees_field float double).list.write_eq hfree.fields,
      (d.agrees_method float double).list.write_eq hfree.methods]
    rfl
  read_of_read := by
    intro source limit j c hread hfree
    obtain ⟨below, found, rfl, hfound, hread⟩ := read?_shape_eq_some_iff.1 hread
    refine read?_shape_eq_some_iff.2 ⟨below, found, rfl, hfound, ?_⟩
    have huse := d.agrees_annotationUse float double
    exact { hread with
      visible := readList_of_agrees huse hread.visible hfree.visible
      invisible := readList_of_agrees huse hread.invisible hfree.invisible
      fields := readList_of_agrees (d.agrees_field float double) hread.fields hfree.fields
      methods := readList_of_agrees (d.agrees_method float double) hread.methods hfree.methods }

/-! ## Documents -/

/-- With bit patterns for floating-point constants, documents would be written in a lawful dialect. -/
theorem lawful_document : (document.withFloats (bitsForm Form.uint32) (bitsForm Form.uint64)).Lawful where
  nodup_fieldNames := by decide
  nodup_methodNames := by decide
  nodup_shapeNames := by decide
  annotationType := by decide
  exact_name := Form.exact_text
  exact_optionalName := Form.exact_text.nullable fun _ => by simp [Form.text, ofText]
  sound_name _ _ := by simp [withFloats, document, Form.text, ofText, sound]
  depth_name := depth_ofText
  depth_optionalName x := by cases x <;> rfl
  exact_float := exact_bitsForm Form.exact_uint32
  exact_double := exact_bitsForm Form.exact_uint64

/-- Documents without floating-point constants are read back within the limit. -/
theorem read?_document {c : ClassDocument} (hfree : c.FloatFree) {limit : Nat}
    (hdepth : (document.shape.write c).depth ≤ limit) (source : Source) :
    document.shape.read? source limit (document.shape.write c) = some c :=
  (document.agrees_shape (bitsForm Form.uint32) (bitsForm Form.uint64)).read?_write lawful_document.exact_shape
    hfree hdepth source

/-- References of documents are read back. -/
theorem exact_reference : document.declaration.Exact :=
  lawful_document.exact_declaration

end Dialect

end ClassDeps
