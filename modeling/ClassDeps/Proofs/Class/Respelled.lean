import ClassDeps.Proofs.Class.Layout
import ClassDeps.Proofs.Class.Members
import ClassDeps.Proofs.Class.Nesting
import ClassDeps.Proofs.Json.Tolerant

/-!
# Stored records in other spellings

All whole spellings of a stored record are read as the record, however its members are ordered, whichever of its
defaults are left out and whatever is added to it. A spelling that lacks a needed member, or has a known one twice, is
not read at all. Both hold at every level of a record at once, because each reader is shown to take the spellings of
its own layout.

## Main statements

* `reads_constant` — spellings of constants are read, by induction on the constant
* `reads_field`, `reads_method`, `reads_declaration`, `reads_shape` — so are those of members and classes
* `ClassShape.read_respelled` — the spellings of a stored record
-/

namespace ClassDeps

open Json

/-! ## Reading constants -/

theorem reads_symbol (source : Source) (limit : Nat) (id : SymbolId) :
    Reads (Form.int32.read? source limit) limit (symbolLayout id) id :=
  .leaf Form.exact_int32 source limit id

theorem reads_bitsForm {α : Type} {bits : Form α} (h : bits.Exact) (source : Source) (limit : Nat) (x : α) :
    Reads ((bitsForm bits).read? source limit) limit (bitsLayout bits x) x := by
  cases limit with
  | zero => exact Reads.zero_record _ _ x
  | succ limit =>
    refine Reads.of_record (.record rfl fun found broken hfound => ?_) fun _ => rfl
    rw [← bind_pure (required? found "bits" _)]
    exact .needed hfound (.leaf h source limit x) fun broken hfound => .finish hfound x

theorem reads_enumerator (source : Source) (limit : Nat) (type constant : SymbolId) :
    Reads (Dialect.record.readEnumerator source limit) limit
      (.record [("type_name", .needed, symbolLayout type), ("constant", .needed, symbolLayout constant)])
      (.enumerator type constant) := by
  cases limit with
  | zero => exact Reads.zero_record _ _ _
  | succ limit =>
    refine Reads.of_record (.record rfl fun found broken hfound => ?_) fun _ => rfl
    refine .needed hfound (reads_symbol source limit type) fun broken hfound => ?_
    refine .needed hfound (reads_symbol source limit constant) fun broken hfound => ?_
    exact .finish hfound _

/-- An annotation is read if its elements are. -/
theorem reads_annotationUse_of {elements : List (SymbolId × Constant SymbolId)} {source : Source}
    (h : ∀ limit, ∀ element ∈ elements,
      Reads (Dialect.record.readElement source limit) limit (elementLayout element) element)
    (limit : Nat) (type : SymbolId) :
    Reads (Dialect.record.readAnnotationUse source limit) limit (AnnotationUse.layout ⟨type, elements⟩)
      ⟨type, elements⟩ := by
  cases limit with
  | zero => exact Reads.zero_record _ _ _
  | succ limit =>
    have hread : Reads (Dialect.record.readElements source limit) limit (.list (elements.map elementLayout))
        elements := by
      cases limit with
      | zero => exact Reads.zero_list _ _ _
      | succ limit => exact Reads.array (fun _ => rfl) (h limit)
    refine Reads.record rfl fun found broken hfound => ?_
    refine .needed hfound (reads_symbol source limit type) fun broken hfound => ?_
    refine .unlessDefault hfound hread fun broken hfound => ?_
    exact .finish hfound _

mutual

/-- By induction on the constant; one level of the document is one of the limit. -/
theorem reads_constant : (c : Constant SymbolId) → (source : Source) → (limit : Nat) →
    Reads (Dialect.record.readConstant source limit) limit (constantLayout c) c
  | c, source, 0 => by cases c <;> exact Reads.zero_record _ _ _
  | .int value, source, limit + 1 => by
    refine Reads.of_record (.adjacent fun source => ?_) fun members => by rw [Dialect.readConstant]
    exact (Reads.leaf Form.exact_int32 source limit value).map Constant.int
  | .long value, source, limit + 1 => by
    refine Reads.of_record (.adjacent fun source => ?_) fun members => by rw [Dialect.readConstant]
    exact (Reads.leaf Form.exact_int64 source limit value).map Constant.long
  | .float bits, source, limit + 1 => by
    refine Reads.of_record (.adjacent fun source => ?_) fun members => by rw [Dialect.readConstant]
    exact (reads_bitsForm Form.exact_uint32 source limit bits).map Constant.float
  | .double bits, source, limit + 1 => by
    refine Reads.of_record (.adjacent fun source => ?_) fun members => by rw [Dialect.readConstant]
    exact (reads_bitsForm Form.exact_uint64 source limit bits).map Constant.double
  | .boolean value, source, limit + 1 => by
    refine Reads.of_record (.adjacent fun source => ?_) fun members => by rw [Dialect.readConstant]
    exact (Reads.leaf Form.exact_boolean source limit value).map Constant.boolean
  | .char value, source, limit + 1 => by
    refine Reads.of_record (.adjacent fun source => ?_) fun members => by rw [Dialect.readConstant]
    exact (Reads.leaf Form.exact_character source limit value).map Constant.char
  | .string value, source, limit + 1 => by
    refine Reads.of_record (.adjacent fun source => ?_) fun members => by rw [Dialect.readConstant]
    exact (Reads.leaf Form.exact_text source limit value).map Constant.string
  | .type name, source, limit + 1 => by
    refine Reads.of_record (.adjacent fun source => ?_) fun members => by rw [Dialect.readConstant]
    exact (reads_symbol source limit name).map Constant.type
  | .enumerator type constant, source, limit + 1 => by
    refine Reads.of_record (.adjacent fun source => ?_) fun members => by rw [Dialect.readConstant]
    exact reads_enumerator source limit type constant
  | .annotationUse type elements, source, limit + 1 => by
    rw [constantLayout, map_elementLayouts]
    refine Reads.of_record (.adjacent fun source => ?_) fun members => by rw [Dialect.readConstant]
    have helements := fun limit => reads_elements elements source limit
    exact (reads_annotationUse_of helements limit type).map fun a => Constant.annotationUse a.type a.elements
  | .array items, source, limit + 1 => by
    rw [constantLayout, map_itemLayouts]
    refine Reads.of_record (.adjacent fun source => ?_) fun members => by rw [Dialect.readConstant]
    have hitems := fun limit => reads_items items source limit
    have hread : Reads (Dialect.record.readItems source limit) limit (.list (items.map constantLayout)) items := by
      cases limit with
      | zero => exact Reads.zero_list _ _ _
      | succ limit => exact Reads.array (fun _ => rfl) (hitems limit)
    exact hread.map Constant.array

theorem reads_items : (items : List (Constant SymbolId)) → (source : Source) → (limit : Nat) →
    ∀ item ∈ items, Reads (Dialect.record.readConstant source limit) limit (constantLayout item) item
  | [], _, _ => List.forall_mem_nil _
  | item :: rest, source, limit =>
    List.forall_mem_cons.2 ⟨reads_constant item source limit, reads_items rest source limit⟩

theorem reads_elements : (elements : List (SymbolId × Constant SymbolId)) → (source : Source) → (limit : Nat) →
    ∀ element ∈ elements, Reads (Dialect.record.readElement source limit) limit (elementLayout element) element
  | [], _, _ => List.forall_mem_nil _
  | (name, value) :: rest, source, limit => by
    rw [List.forall_mem_cons]
    refine ⟨?_, reads_elements rest source limit⟩
    cases limit with
    | zero => exact Reads.zero_record _ _ _
    | succ limit =>
      refine Reads.record rfl fun found broken hfound => ?_
      refine .needed hfound (reads_symbol source limit name) fun broken hfound => ?_
      refine .needed hfound (reads_constant value source limit) fun broken hfound => ?_
      exact .finish hfound _

end

/-! ## Reading members and classes -/

theorem reads_annotationUse (source : Source) (limit : Nat) (a : AnnotationUse SymbolId) :
    Reads (Dialect.record.annotationUse.read? source limit) limit a.layout a :=
  reads_annotationUse_of (fun limit => reads_elements a.elements source limit) limit a.type

theorem reads_annotations (source : Source) (limit : Nat) (as : List (AnnotationUse SymbolId)) :
    Reads (Dialect.record.annotations.read? source limit) limit (annotationsLayout as) as :=
  .list (fun limit a _ => reads_annotationUse source limit a) limit

theorem reads_optionalConstant (source : Source) (limit : Nat) (c : Constant SymbolId) :
    Reads ((Form.nullable Dialect.record.constant).read? source limit) limit (constantLayout c) (some c) := by
  have hread := reads_constant c source limit
  cases c <;> exact Reads.nullable Dialect.record.constant hread

namespace Json.Gives

variable {α β : Type} {limit : Nat} {found : List (String × Json)} {name : String}
  {slots : List Slot} {broken : Bool} {x : α}

/-- A list that is empty by default. -/
theorem listed {item : Form β} {source : Source} {layout : β → Layout} {ys : List β} {rest : List β → Option α}
    (h : Finds limit found (listSlot name layout ys :: slots) broken)
    (hread : ∀ limit y, Reads (item.read? source limit) limit (layout y) y)
    (hrest : ∀ broken, Finds limit found slots broken → Gives (rest ys) (broken = false) x) :
    Gives (Dialect.readList found name source limit item >>= rest) (broken = false) x :=
  unlessDefault h (.list (fun limit y _ => hread limit y) limit) hrest

/-- A symbol that is absent by default. -/
theorem unlessAbsent {source : Source} {id : SymbolId} {rest : SymbolId → Option α}
    (h : Finds limit found (absentSlot name id :: slots) broken)
    (hrest : ∀ broken, Finds limit found slots broken → Gives (rest id) (broken = false) x) :
    Gives (Dialect.record.readOptionalName found name source limit >>= rest) (broken = false) x :=
  unlessDefault h (reads_symbol source limit id) hrest

end Json.Gives

theorem reads_field (source : Source) (limit : Nat) (f : FieldRecord) :
    Reads (Dialect.record.field.read? source limit) limit f.layout f := by
  cases limit with
  | zero => exact Reads.zero_record _ _ f
  | succ limit =>
    refine Reads.record rfl fun found broken hfound => ?_
    refine .needed hfound (reads_symbol source limit f.name) fun broken hfound => ?_
    refine .needed hfound (reads_symbol source limit f.descriptor) fun broken hfound => ?_
    refine .needed hfound (.leaf Form.exact_int32 source limit f.flags) fun broken hfound => ?_
    refine .unlessAbsent hfound fun broken hfound => ?_
    refine .optional hfound (fun c _ => reads_optionalConstant source limit c) fun broken hfound => ?_
    refine .listed hfound (reads_annotationUse source) fun broken hfound => ?_
    refine .listed hfound (reads_annotationUse source) fun broken hfound => ?_
    exact .finish hfound f

theorem reads_method (source : Source) (limit : Nat) (m : MethodRecord) :
    Reads (Dialect.record.method.read? source limit) limit m.layout m := by
  cases limit with
  | zero => exact Reads.zero_record _ _ m
  | succ limit =>
    refine Reads.record rfl fun found broken hfound => ?_
    refine .needed hfound (reads_symbol source limit m.name) fun broken hfound => ?_
    refine .needed hfound (reads_symbol source limit m.descriptor) fun broken hfound => ?_
    refine .needed hfound (.leaf Form.exact_int32 source limit m.flags) fun broken hfound => ?_
    refine .unlessAbsent hfound fun broken hfound => ?_
    refine .listed hfound (reads_symbol source) fun broken hfound => ?_
    refine .listed hfound (reads_annotationUse source) fun broken hfound => ?_
    refine .listed hfound (reads_annotationUse source) fun broken hfound => ?_
    refine .listed hfound (reads_annotations source) fun broken hfound => ?_
    refine .listed hfound (reads_annotations source) fun broken hfound => ?_
    refine .optional hfound (fun c _ => reads_optionalConstant source limit c) fun broken hfound => ?_
    exact .finish hfound m

theorem reads_declaration (source : Source) (limit : Nat) (key : DeclarationKey) :
    Reads (Dialect.record.declaration.read? source limit) limit key.layout key := by
  cases limit with
  | zero => cases key <;> exact Reads.zero_record _ _ _
  | succ limit =>
    -- Each name is looked for anew among the members, which are the same ones each time.
    let read? (found : Option (List (String × Json))) (name : String) : Option SymbolId := do
      required? (← found) name (Form.int32.read? .kept limit)
    cases key with
    | type owner =>
      refine Reads.tagged (by simp) (.again (e := fun m => do
        return Declaration.type (← read? m "class")) rfl rfl fun found broken hfound => ?_)
      exact .needed hfound (reads_symbol .kept limit owner) fun broken hfound => .finish hfound _
    | field owner name =>
      refine Reads.tagged (by simp) (.again (e := fun m => do
        return Declaration.field (← read? m "class") (← read? m "name")) rfl rfl fun found broken hfound => ?_)
      refine .needed hfound (reads_symbol .kept limit owner) fun broken hfound => ?_
      exact .needed hfound (reads_symbol .kept limit name) fun broken hfound => .finish hfound _
    | method owner name descriptor =>
      refine Reads.tagged (by simp) (.again (e := fun m => do
        return Declaration.method (← read? m "class") (← read? m "name") (← read? m "descriptor")) rfl rfl
          fun found broken hfound => ?_)
      refine .needed hfound (reads_symbol .kept limit owner) fun broken hfound => ?_
      refine .needed hfound (reads_symbol .kept limit name) fun broken hfound => ?_
      exact .needed hfound (reads_symbol .kept limit descriptor) fun broken hfound => .finish hfound _

theorem reads_shape (source : Source) (limit : Nat) (c : ClassRecord) :
    Reads (Dialect.record.shape.read? source limit) limit c.layout c := by
  cases limit with
  | zero => exact Reads.zero_record _ _ c
  | succ limit =>
    refine Reads.record rfl fun found broken hfound => ?_
    refine .needed hfound (reads_symbol source limit c.name) fun broken hfound => ?_
    refine .unlessAbsent hfound fun broken hfound => ?_
    refine .listed hfound (reads_symbol source) fun broken hfound => ?_
    refine .needed hfound (.leaf Form.exact_int32 source limit c.flags) fun broken hfound => ?_
    refine .unlessAbsent hfound fun broken hfound => ?_
    refine .unlessDefault hfound (.leaf Form.exact_text source limit c.sourceFile) fun broken hfound => ?_
    refine .unlessDefault hfound (.leaf Form.exact_text source limit c.path) fun broken hfound => ?_
    refine .listed hfound (reads_annotationUse source) fun broken hfound => ?_
    refine .listed hfound (reads_annotationUse source) fun broken hfound => ?_
    refine .listed hfound (reads_field source) fun broken hfound => ?_
    refine .listed hfound (reads_method source) fun broken hfound => ?_
    refine .listed hfound (reads_declaration source) fun broken hfound => ?_
    exact .finish hfound c

/-! ## Stored records -/

/-- A stored record is a spelling of its layout, and every spelling of its layout is read as the record, unless a
needed member is missing or a known one is repeated in it: then nothing is read. -/
theorem ClassShape.read_respelled (c : ClassRecord) (hnesting : c.nesting ≤ depthLimit) :
    c.layout.toJson = Dialect.record.shape.write c ∧
      Respells c.layout false (Dialect.record.shape.write c) ∧
      ∀ (broken : Bool) (j : Json), Respells c.layout broken j →
        Dialect.record.shape.ofBytes? j.toBytes = if broken then none else some c := by
  have hwritten : c.layout.toJson = Dialect.record.shape.write c := c.toJson_layout
  refine ⟨hwritten, hwritten ▸ respells_self c.layout c.isDistinct_layout, fun broken j hspelled => ?_⟩
  have hsound : c.layout.toJson.sound depthLimit := by
    rw [hwritten, sound_iff, depth_write]
    exact ⟨Dialect.intact_record.shape c, hnesting⟩
  have hread := reads_shape .text depthLimit c hsound broken j hspelled
  rw [Form.ofBytes?_toBytes, Form.ofJson?]
  cases broken with
  | false => exact (hread c).2 ⟨rfl, rfl⟩
  | true => exact Option.eq_none_iff_forall_ne_some.2 fun y hy => Bool.noConfusion ((hread y).1 hy).1

/-- A class that refers to a field of another one. -/
def referringRecord : ClassRecord :=
  { ClassRecord.new 1 33 with references := [.field 4 5] }

/-- Members of its record in another order, without those whose values are defaults and with an unknown one. -/
def referringMembers : List (String × Json) :=
  [("size", .ofInt 12),
    ("references", .array [.record [("name", .ofInt 5), ("kind", .ofText "field"), ("class", .ofInt 4)]]),
    ("flags", .ofInt 33), ("qualified_name", .ofInt 1)]

theorem respells_referringMembers : Respells referringRecord.layout false (.record referringMembers) := by
  have hreference : Respells (Declaration.layout (.field 4 5)) false
      (.record [("name", .ofInt 5), ("kind", .ofText "field"), ("class", .ofInt 4)]) := by
    refine .record (.cons (b := false) ?_ (.cons (b := false) ?_ (.cons (b := false) ?_ .nil))) ?_
    · exact .given (by decide) (.leaf _)
    · exact .given (by decide) (.leaf _)
    · exact .given (by decide) (.leaf _)
    · simp [kindSlot]
  have hreferences : RespellsSlots [listSlot "references" Declaration.layout [.field 4 5]] false referringMembers :=
    .cons (b := false) (.given (by decide) (.list (.cons (b := false) hreference .nil))) .nil
  refine .record (.cons (b := false) (.given (by decide) (.leaf _)) <| .cons (b := false) .idle <|
    .cons (b := false) .idle <| .cons (b := false) (.given (by decide) (.leaf _)) <| .cons (b := false) .idle <|
    .cons (b := false) .idle <| .cons (b := false) .idle <| .cons (b := false) .idle <| .cons (b := false) .idle <|
    .cons (b := false) .idle <| .cons (b := false) .idle hreferences) fun member hmem hnot => ?_
  simp only [referringMembers, List.mem_cons, List.not_mem_nil, or_false] at hmem
  obtain rfl | rfl | rfl | rfl := hmem
  · exact .integer 12 (by decide) (by decide)
  · exact absurd (by decide : "references" ∈ Dialect.record.shapeNames) hnot
  · exact absurd (by decide : "flags" ∈ Dialect.record.shapeNames) hnot
  · exact absurd (by decide : "qualified_name" ∈ Dialect.record.shapeNames) hnot

/-- The record is read from these members, and from nothing that lacks its flags or has them twice. -/
theorem ClassShape.read_respelled_referring :
    referringRecord.nesting ≤ depthLimit ∧
      Dialect.record.shape.ofBytes? (Json.record referringMembers).toBytes = some referringRecord ∧
      Dialect.record.shape.ofBytes? (Json.record (("flags", .null) :: referringMembers)).toBytes = none ∧
      Dialect.record.shape.ofBytes?
        (Json.record (referringMembers.filter fun member => member.1 ≠ "flags")).toBytes = none := by
  have hnesting : referringRecord.nesting ≤ depthLimit := by decide
  have hread := (read_respelled referringRecord hnesting).2.2
  have hnames : Dialect.record.shapeNames.Nodup := by decide
  have hflags : "flags" ∈ Dialect.record.shapeNames := by decide
  have htwice := respells_referringMembers.twice (k := .null) hnames hflags (.tail _ (.tail _ (.head _)))
  have hwithout := respells_referringMembers.without_needed hnames (.tail _ (.tail _ (.tail _ (.head _))))
  exact ⟨hnesting, hread _ _ respells_referringMembers, hread _ _ htwice, hread _ _ hwithout⟩

end ClassDeps
