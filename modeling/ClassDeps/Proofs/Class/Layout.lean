import ClassDeps.Class.Spelling
import ClassDeps.Proofs.Json.Layout

/-!
# Layouts of stored records

Which members of a stored record have a default, and which value that is, said member by member. Names are spelled
out here, so that a member that got another name, or lost its default, would no longer fit.

## Main definitions

* `constantLayout`, `AnnotationUse.layout` — the layouts of constants and annotations
* `Field.layout`, `Method.layout`, `Declaration.layout` — those of what a class declares and references
* `ClassShape.layout` — the layout of a record

## Main statements

* `ClassShape.toJson_layout` — the layout of a record is a layout of what is written
* `ClassShape.isDistinct_layout` — its members have different names
-/

namespace ClassDeps

open Json

/-- The layout of a symbol. -/
def symbolLayout (id : SymbolId) : Layout :=
  .leaf (Form.int32.write id)

/-- The layout of bit patterns. -/
def bitsLayout {α : Type} (bits : Form α) (x : α) : Layout :=
  .record [("bits", .needed, .leaf (bits.write x))]

mutual

def constantLayout : Constant SymbolId → Layout
  | .int value => alternativeLayout "int" (.leaf (Form.int32.write value))
  | .long value => alternativeLayout "long" (.leaf (Form.int64.write value))
  | .float bits => alternativeLayout "float" (bitsLayout Form.uint32 bits)
  | .double bits => alternativeLayout "double" (bitsLayout Form.uint64 bits)
  | .boolean value => alternativeLayout "boolean" (.leaf (Form.boolean.write value))
  | .char value => alternativeLayout "char" (.leaf (Form.character.write value))
  | .string value => alternativeLayout "string" (.leaf (Form.text.write value))
  | .type name => alternativeLayout "class" (symbolLayout name)
  | .enumerator type constant =>
    alternativeLayout "enum" <| .record
      [("type_name", .needed, symbolLayout type), ("constant", .needed, symbolLayout constant)]
  | .annotationUse type elements =>
    alternativeLayout "annotation" <| .record
      [("type_name", .needed, symbolLayout type),
        ("members", .ofDefault (elements = []), .list (elementLayouts elements))]
  | .array items => alternativeLayout "array" (.list (itemLayouts items))

def itemLayouts : List (Constant SymbolId) → List Layout
  | [] => []
  | item :: rest => constantLayout item :: itemLayouts rest

def elementLayouts : List (SymbolId × Constant SymbolId) → List Layout
  | [] => []
  | (name, value) :: rest =>
    .record [("name", .needed, symbolLayout name), ("value", .needed, constantLayout value)] :: elementLayouts rest

end

/-- The layout of an element of an annotation. -/
def elementLayout (element : SymbolId × Constant SymbolId) : Layout :=
  .record [("name", .needed, symbolLayout element.1), ("value", .needed, constantLayout element.2)]

/-- The slot of a symbol that is absent by default. -/
def absentSlot (name : String) (id : SymbolId) : Slot :=
  (name, .ofDefault (id = .absent), symbolLayout id)

/-- The slot of a text that is empty by default. -/
def textSlot (name text : String) : Slot :=
  (name, .ofDefault (text = ""), .leaf (Form.text.write text))

def AnnotationUse.layout (a : AnnotationUse SymbolId) : Layout :=
  .record [("type_name", .needed, symbolLayout a.type), listSlot "members" elementLayout a.elements]

/-- The layout of annotations in a list of their own. -/
def annotationsLayout (as : List (AnnotationUse SymbolId)) : Layout :=
  .list (as.map AnnotationUse.layout)

def Field.layout (f : FieldRecord) : Layout :=
  .record
    [("name", .needed, symbolLayout f.name), ("descriptor", .needed, symbolLayout f.descriptor),
      ("flags", .needed, .leaf (Form.int32.write f.flags)),
      absentSlot "generic_signature" f.genericSignature,
      optionalSlot "constant_value" constantLayout f.constant,
      listSlot "runtime_visible_annotations" AnnotationUse.layout f.visible,
      listSlot "runtime_invisible_annotations" AnnotationUse.layout f.invisible]

def Method.layout (m : MethodRecord) : Layout :=
  .record
    [("name", .needed, symbolLayout m.name), ("descriptor", .needed, symbolLayout m.descriptor),
      ("flags", .needed, .leaf (Form.int32.write m.flags)),
      absentSlot "generic_signature" m.genericSignature,
      listSlot "thrown_exceptions" symbolLayout m.exceptions,
      listSlot "runtime_visible_annotations" AnnotationUse.layout m.visible,
      listSlot "runtime_invisible_annotations" AnnotationUse.layout m.invisible,
      listSlot "runtime_visible_parameter_annotations" annotationsLayout m.visibleParameters,
      listSlot "runtime_invisible_parameter_annotations" annotationsLayout m.invisibleParameters,
      optionalSlot "annotation_default" constantLayout m.default]

/-- The slot of the kind of a declaration. -/
def kindSlot (kind : String) : Slot :=
  ("kind", .needed, .leaf (.ofText kind))

def Declaration.layout : DeclarationKey → Layout
  | .type owner => .record [kindSlot "class", ("class", .needed, symbolLayout owner)]
  | .field owner name => .record
    [kindSlot "field", ("class", .needed, symbolLayout owner), ("name", .needed, symbolLayout name)]
  | .method owner name descriptor => .record
    [kindSlot "method", ("class", .needed, symbolLayout owner), ("name", .needed, symbolLayout name),
      ("descriptor", .needed, symbolLayout descriptor)]

def ClassShape.layout (c : ClassRecord) : Layout :=
  .record
    [("qualified_name", .needed, symbolLayout c.name),
      absentSlot "super_qualified_name" c.super,
      listSlot "super_interfaces" symbolLayout c.interfaces,
      ("flags", .needed, .leaf (Form.int32.write c.flags)),
      absentSlot "generic_signature" c.genericSignature,
      textSlot "source_file_name" c.sourceFile,
      textSlot "path" c.path,
      listSlot "runtime_visible_annotations" AnnotationUse.layout c.visible,
      listSlot "runtime_invisible_annotations" AnnotationUse.layout c.invisible,
      listSlot "fields" Field.layout c.fields,
      listSlot "methods" Method.layout c.methods,
      listSlot "references" Declaration.layout c.references]

/-! ## What is written -/

theorem map_itemLayouts (items : List (Constant SymbolId)) : itemLayouts items = items.map constantLayout := by
  induction items with
  | nil => rfl
  | cons item rest ih => rw [itemLayouts, ih, List.map_cons]

theorem map_elementLayouts (elements : List (SymbolId × Constant SymbolId)) :
    elementLayouts elements = elements.map elementLayout := by
  induction elements with
  | nil => rfl
  | cons element rest ih =>
    rw [elementLayouts, ih, List.map_cons]
    rfl

theorem toJson_annotationUse_of (type : SymbolId) {elements : List (SymbolId × Constant SymbolId)}
    (h : Layout.itemsToJson (elementLayouts elements) = Dialect.record.writeElements elements) :
    (Layout.record [("type_name", .needed, symbolLayout type),
        ("members", .ofDefault (elements = []), .list (elementLayouts elements))]).toJson =
      Dialect.record.annotationUse.write ⟨type, elements⟩ := by
  change Json.record (("type_name", (symbolLayout type).toJson) :: Layout.slotsToJson [("members", _, _)]) = _
  rw [Layout.slotsToJson_ofDefault, Layout.toJson, h]
  rfl

mutual

theorem toJson_constantLayout : (c : Constant SymbolId) →
    (constantLayout c).toJson = Dialect.record.writeConstant c
  | .int _ | .long _ | .float _ | .double _ | .boolean _ | .char _ | .string _ | .type _ | .enumerator _ _ => rfl
  | .annotationUse type elements =>
    congrArg (Dialect.alternative "annotation") (toJson_annotationUse_of type (toJson_elementLayouts elements))
  | .array items =>
    congrArg (fun items => Dialect.alternative "array" (.array items)) (toJson_itemLayouts items)

theorem toJson_itemLayouts : (items : List (Constant SymbolId)) →
    Layout.itemsToJson (itemLayouts items) = Dialect.record.writeItems items
  | [] => rfl
  | item :: rest => by
    rw [itemLayouts, Layout.itemsToJson, toJson_constantLayout item, toJson_itemLayouts rest, Dialect.writeItems]

theorem toJson_elementLayouts : (elements : List (SymbolId × Constant SymbolId)) →
    Layout.itemsToJson (elementLayouts elements) = Dialect.record.writeElements elements
  | [] => rfl
  | (name, value) :: rest => by
    rw [elementLayouts, Layout.itemsToJson, toJson_elementLayouts rest, Dialect.writeElements,
      ← toJson_constantLayout value]
    rfl

end

theorem AnnotationUse.toJson_layout (a : AnnotationUse SymbolId) :
    a.layout.toJson = Dialect.record.annotationUse.write a := by
  rw [layout, listSlot, ← map_elementLayouts]
  exact toJson_annotationUse_of a.type (toJson_elementLayouts a.elements)

theorem toJson_annotationsLayout (as : List (AnnotationUse SymbolId)) :
    (annotationsLayout as).toJson = Dialect.record.annotations.write as :=
  Layout.toJson_list AnnotationUse.toJson_layout as

theorem slotsToJson_constantSlot (name : String) (value : Option (Constant SymbolId))
    (slots : List Slot) :
    Layout.slotsToJson (optionalSlot name constantLayout value :: slots) =
      Dialect.record.constantMember name value ++ Layout.slotsToJson slots := by
  cases value with
  | none => rfl
  | some c =>
    change (name, (constantLayout c).toJson) :: _ = _
    rw [toJson_constantLayout]
    rfl

theorem Field.toJson_layout (f : FieldRecord) : f.layout.toJson = Dialect.record.field.write f := by
  simp only [layout, Layout.toJson, absentSlot, Layout.slotsToJson_needed, Layout.slotsToJson_ofDefault,
    slotsToJson_constantSlot, Layout.slotsToJson_listSlot AnnotationUse.toJson_layout]
  rfl

theorem Method.toJson_layout (m : MethodRecord) : m.layout.toJson = Dialect.record.method.write m := by
  have hsymbol (id : SymbolId) : (symbolLayout id).toJson = Form.int32.write id := rfl
  simp only [layout, Layout.toJson, absentSlot, Layout.slotsToJson_needed, Layout.slotsToJson_ofDefault,
    slotsToJson_constantSlot, Layout.slotsToJson_listSlot hsymbol,
    Layout.slotsToJson_listSlot AnnotationUse.toJson_layout, Layout.slotsToJson_listSlot toJson_annotationsLayout]
  rw [show Layout.slotsToJson [] = [] from rfl, List.append_nil]
  rfl

theorem Declaration.toJson_layout (key : DeclarationKey) :
    key.layout.toJson = Dialect.record.declaration.write key := by
  cases key <;> rfl

/-- The layout of a record is a layout of what is written. -/
theorem ClassShape.toJson_layout (c : ClassRecord) : c.layout.toJson = Dialect.record.shape.write c := by
  have hsymbol (id : SymbolId) : (symbolLayout id).toJson = Form.int32.write id := rfl
  simp only [layout, Layout.toJson, absentSlot, textSlot, Layout.slotsToJson_needed, Layout.slotsToJson_ofDefault,
    Layout.slotsToJson_listSlot hsymbol, Layout.slotsToJson_listSlot AnnotationUse.toJson_layout,
    Layout.slotsToJson_listSlot Field.toJson_layout, Layout.slotsToJson_listSlot Method.toJson_layout,
    Layout.slotsToJson_listSlot Declaration.toJson_layout]
  rfl

/-! ## Different names -/

theorem isDistinct_annotationUse_of (type : SymbolId) {elements : List (SymbolId × Constant SymbolId)}
    (h : ∀ element ∈ elements, (elementLayout element).isDistinct) :
    (AnnotationUse.layout ⟨type, elements⟩).isDistinct = true := by
  have helements := Layout.isDistinct_list h
  simpa [AnnotationUse.layout, listSlot, symbolLayout, Layout.isDistinct, Layout.slotsDistinct] using helements

mutual

theorem isDistinct_constantLayout : (c : Constant SymbolId) → (constantLayout c).isDistinct
  | .int _ | .long _ | .boolean _ | .char _ | .string _ | .type _ => Layout.isDistinct_alternativeLayout rfl
  | .float _ | .double _ | .enumerator _ _ => Layout.isDistinct_alternativeLayout rfl
  | .annotationUse type elements => by
    rw [constantLayout, map_elementLayouts]
    exact Layout.isDistinct_alternativeLayout (isDistinct_annotationUse_of type (isDistinct_elementLayouts elements))
  | .array items => by
    rw [constantLayout, map_itemLayouts]
    exact Layout.isDistinct_alternativeLayout (Layout.isDistinct_list (isDistinct_itemLayouts items))

theorem isDistinct_itemLayouts : (items : List (Constant SymbolId)) →
    ∀ item ∈ items, (constantLayout item).isDistinct
  | [] => List.forall_mem_nil _
  | item :: rest => List.forall_mem_cons.2 ⟨isDistinct_constantLayout item, isDistinct_itemLayouts rest⟩

theorem isDistinct_elementLayouts : (elements : List (SymbolId × Constant SymbolId)) →
    ∀ element ∈ elements, (elementLayout element).isDistinct
  | [] => List.forall_mem_nil _
  | (name, value) :: rest => by
    have hvalue := isDistinct_constantLayout value
    refine List.forall_mem_cons.2 ⟨?_, isDistinct_elementLayouts rest⟩
    simpa [elementLayout, symbolLayout, Layout.isDistinct, Layout.slotsDistinct] using hvalue

end

theorem AnnotationUse.isDistinct_layout (a : AnnotationUse SymbolId) : a.layout.isDistinct :=
  isDistinct_annotationUse_of a.type (isDistinct_elementLayouts a.elements)

/-- The slot of a list has different names if its items have. -/
theorem isDistinct_listSlot {α : Type} {layout : α → Layout} (h : ∀ x, (layout x).isDistinct) (name : String)
    (xs : List α) : (listSlot name layout xs).2.2.isDistinct :=
  Layout.isDistinct_list fun x _ => h x

theorem isDistinct_symbolLayout (id : SymbolId) : (symbolLayout id).isDistinct :=
  rfl

theorem isDistinct_annotationsLayout (as : List (AnnotationUse SymbolId)) : (annotationsLayout as).isDistinct :=
  Layout.isDistinct_list fun a _ => a.isDistinct_layout

theorem isDistinct_constantSlot (name : String) (value : Option (Constant SymbolId)) :
    (optionalSlot name constantLayout value).2.2.isDistinct := by
  cases value with
  | none => rfl
  | some c => exact isDistinct_constantLayout c

theorem Field.isDistinct_layout (f : FieldRecord) : f.layout.isDistinct := by
  have hnames : Dialect.record.fieldNames.Nodup := by decide
  have hannotations := isDistinct_listSlot AnnotationUse.isDistinct_layout
  refine Layout.isDistinct_record.2 ⟨hnames, ?_⟩
  simp only [List.forall_mem_cons]
  exact ⟨rfl, rfl, rfl, rfl, isDistinct_constantSlot _ _, hannotations _ _, hannotations _ _,
    List.forall_mem_nil _⟩

theorem Method.isDistinct_layout (m : MethodRecord) : m.layout.isDistinct := by
  have hnames : Dialect.record.methodNames.Nodup := by decide
  have hsymbols := isDistinct_listSlot isDistinct_symbolLayout
  have hannotations := isDistinct_listSlot AnnotationUse.isDistinct_layout
  have hparameters := isDistinct_listSlot isDistinct_annotationsLayout
  refine Layout.isDistinct_record.2 ⟨hnames, ?_⟩
  simp only [List.forall_mem_cons]
  exact ⟨rfl, rfl, rfl, rfl, hsymbols _ _, hannotations _ _, hannotations _ _, hparameters _ _, hparameters _ _,
    isDistinct_constantSlot _ _, List.forall_mem_nil _⟩

theorem Declaration.isDistinct_layout (key : DeclarationKey) : key.layout.isDistinct := by
  cases key <;> simp [layout, kindSlot, symbolLayout, Layout.isDistinct, Layout.slotsDistinct]

/-- The members of a record have different names, and so have those of its parts. -/
theorem ClassShape.isDistinct_layout (c : ClassRecord) : c.layout.isDistinct := by
  have hnames : Dialect.record.shapeNames.Nodup := by decide
  have hsymbols := isDistinct_listSlot isDistinct_symbolLayout
  have hannotations := isDistinct_listSlot AnnotationUse.isDistinct_layout
  refine Layout.isDistinct_record.2 ⟨hnames, ?_⟩
  simp only [List.forall_mem_cons]
  exact ⟨rfl, rfl, hsymbols _ _, rfl, rfl, rfl, rfl, hannotations _ _, hannotations _ _,
    isDistinct_listSlot Field.isDistinct_layout _ _, isDistinct_listSlot Method.isDistinct_layout _ _,
    isDistinct_listSlot Declaration.isDistinct_layout _ _, List.forall_mem_nil _⟩

end ClassDeps
