import ClassDeps.Config
import ClassDeps.Proofs.Class.FloatFree
import ClassDeps.Proofs.Class.Members

/-!
# What is written is read back

Whatever is kept or exchanged as a document, the text that is written for a value is read back as that value, up to
the nesting that readers accept. So the text tells values apart.

## Main definitions

* `RecordType` — the types that are written as documents
* `RecordType.Supported` — the values whose text says all about them

## Main statements

* `Json.Form.exact_named`, `Config.exact_form` — settings are read back
* `RecordType.read?_write` — so is every supported value, within any limit
* `RecordType.ofBytes?_toBytes`, `text_determines_value` — from its text, which determines it
-/

namespace ClassDeps

open Json

/-! ## Settings -/

theorem Json.Form.exact_named {α : Type} {values : List α} {name : α → String}
    (h : ∀ x, values.find? (fun y => name y = name x) = some x) : (Form.named values name).Exact := by
  refine exact_of_leaf (fun x => depth_ofText (name x)) fun source limit x => ?_
  have hvariant := Json.variant?_ofText source limit (name x)
  simp only [Form.named, hvariant, Option.bind_eq_bind, Option.bind_some, h]

namespace Config

theorem exact_journalForm : journalForm.Exact :=
  Form.exact_named fun x => by cases x <;> decide

theorem exact_synchronousForm : synchronousForm.Exact :=
  Form.exact_named fun x => by cases x <;> decide

/-- The members of settings. -/
def members (c : Config) : List (String × Json) :=
  [("version", Form.uint32.write c.version), ("cacheSize", Form.uint64.write c.cacheSize),
    ("journalMode", journalForm.write c.journalMode), ("synchronous", synchronousForm.write c.synchronous)] ++
    c.storeDirectory.toList.map fun path => ("storeDir", .ofText path)

theorem sublist_memberNames (c : Config) : (c.members.map Prod.fst).Sublist memberNames := by
  obtain ⟨version, cacheSize, journalMode, synchronous, directory⟩ := c
  cases directory <;> simp [members, memberNames]

/-- The directory is read back, be its member written or left out. -/
theorem gives_storeDirectory (c : Config) (hnodup : (c.members.map Prod.fst).Nodup) (source : Source)
    (limit : Nat) :
    Gives (defaulted? c.members "storeDir" none ((Form.nullable Form.text).read? source limit)) True
      c.storeDirectory := by
  cases hdirectory : c.storeDirectory with
  | none =>
    refine .of_eq (defaulted?_of_not_mem ?_ none _)
    simp [members, hdirectory]
  | some path =>
    have hmember : ("storeDir", ofText path) ∈ c.members := by simp [members, hdirectory]
    have hread : (Form.nullable Form.text).read? source limit (.ofText path) = some (some path) := by
      simp [Form.nullable, Form.text, ofText, text?]
    exact (Gives.of_eq hread).defaulted hnodup hmember none

/-- Settings are read back. -/
theorem exact_form : Config.form.Exact := by
  intro source limit c
  cases limit with
  | zero => exact (if_neg (not_depth_record_le_zero _)).symm
  | succ limit =>
    have hnodup : (c.members.map Prod.fst).Nodup := c.sublist_memberNames.nodup (by decide)
    have hfound : members? memberNames (.record c.members) = some c.members :=
      members?_record (fun _ hmem => c.sublist_memberNames.subset (List.mem_map_of_mem hmem)) hnodup
    have hversion := (Form.exact_uint32.gives source limit c.version).defaulted hnodup
      (by simp [members] : ("version", _) ∈ c.members) standard.version
    have hcacheSize := (Form.exact_uint64.gives source limit c.cacheSize).defaulted hnodup
      (by simp [members] : ("cacheSize", _) ∈ c.members) standard.cacheSize
    have hjournalMode := (exact_journalForm.gives source limit c.journalMode).defaulted hnodup
      (by simp [members] : ("journalMode", _) ∈ c.members) standard.journalMode
    have hsynchronous := (exact_synchronousForm.gives source limit c.synchronous).defaulted hnodup
      (by simp [members] : ("synchronous", _) ∈ c.members) standard.synchronous
    have hdirectory := c.gives_storeDirectory hnodup source limit
    refine Gives.eq_ite (.bind (.of_eq hfound) (.bind hversion (.bind hcacheSize (.bind hjournalMode
      (.bind hsynchronous (.bind hdirectory (.pure c))))))) ?_
    simp [form]

end Config

/-! ## Types that are written as documents -/

/-- The types that are written as documents. -/
inductive RecordType where
  | classRecord
  | field
  | method
  | member
  | annotation
  | constant
  | key
  | dependency
  | reference
  | settings
  | classDocument

namespace RecordType

/-- The values of a type. -/
def Value : RecordType → Type
  | classRecord => ClassRecord
  | field => FieldRecord
  | method => MethodRecord
  | member => MemberRecord
  | annotation => AnnotationUse SymbolId
  | constant => Constant SymbolId
  | key => DeclarationKey
  | dependency => Dependency
  | reference => Declaration String
  | settings => Config
  | classDocument => ClassDocument

/-- How the values of a type are written and read. -/
def form : (type : RecordType) → Form type.Value
  | classRecord => Dialect.record.shape
  | field => Dialect.record.field
  | method => Dialect.record.method
  | member => Dialect.record.member
  | annotation => Dialect.record.annotationUse
  | constant => Dialect.record.constant
  | key => Dialect.record.declaration
  | dependency => Dependency.form
  | reference => Dialect.document.declaration
  | settings => Config.form
  | classDocument => Dialect.document.shape

/-- The values whose text says all about them: all, but for documents with floating-point constants, which are
written as decimal numerals. -/
def Supported : (type : RecordType) → type.Value → Prop
  | classDocument, c => ClassShape.FloatFree c
  | _, _ => True

/-- Every supported value is read back within the limits that its document keeps to. -/
theorem read?_write (type : RecordType) {x : type.Value} (hsupported : type.Supported x) {limit : Nat}
    (hdepth : (type.form.write x).depth ≤ limit) (source : Source) :
    type.form.read? source limit (type.form.write x) = some x := by
  have hof {form : Form type.Value} (hexact : form.Exact) (hdepth : (form.write x).depth ≤ limit) :
      form.read? source limit (form.write x) = some x := by rw [hexact, if_pos hdepth]
  cases type with
  | classRecord => exact hof Dialect.lawful_record.exact_shape hdepth
  | field => exact hof Dialect.lawful_record.exact_field hdepth
  | method => exact hof Dialect.lawful_record.exact_method hdepth
  | member => exact hof Dialect.exact_memberRecord hdepth
  | annotation => exact hof Dialect.lawful_record.exact_annotationUse hdepth
  | constant => exact hof Dialect.lawful_record.exact_constant hdepth
  | key => exact hof Dialect.lawful_record.exact_declaration hdepth
  | dependency => exact hof Dependency.exact_form hdepth
  | reference => exact hof Dialect.exact_reference hdepth
  | settings => exact hof Config.exact_form hdepth
  | classDocument => exact Dialect.read?_document hsupported hdepth source

theorem ofBytes?_toBytes (type : RecordType) {x : type.Value} (hsupported : type.Supported x)
    (hdepth : (type.form.write x).depth ≤ depthLimit) : type.form.ofBytes? (type.form.toBytes x) = some x :=
  (type.form.ofBytes?_toBytes (type.form.write x)).trans (type.read?_write hsupported hdepth .text)

/-- The text of a value within the limit of readers is read back as the value, and is the text of no other one. -/
theorem text_determines_value (type : RecordType) {x : type.Value} (hsupported : type.Supported x)
    (hdepth : (type.form.write x).depth ≤ depthLimit) :
    type.form.ofBytes? (type.form.toBytes x) = some x ∧
      ∀ y : type.Value, type.Supported y → type.form.toBytes y = type.form.toBytes x → y = x := by
  refine ⟨type.ofBytes?_toBytes hsupported hdepth, fun y hy heq => ?_⟩
  -- The same text is the same document, so that the other value keeps to the limit, too.
  have hwrite : type.form.write y = type.form.write x := Json.toBytes_injective heq
  have hread := type.ofBytes?_toBytes hy (hwrite ▸ hdepth)
  rw [heq, type.ofBytes?_toBytes hsupported hdepth] at hread
  exact (Option.some.inj hread).symm

/-- A method with bits that are no number, an integer of 64 bits and an annotation inside of an array. -/
def nestedDefault : MemberRecord :=
  .method { MethodRecord.new 1 2 0 with
    visibleParameters := [[], [⟨3, []⟩]]
    default := some (.array [.double 0x7ff0000000000001, .long Int64.minValue,
      .annotationUse 3 [(4, .char 'é'), (5, .array [])]]) }

/-- A document with a constant in an annotation and members that are absent. -/
def nestedDocument : ClassDocument :=
  { ClassDocument.new "A" with
    visible := [⟨"N", [("value", .array [.enumerator "E" "X", .string "\""])]⟩]
    fields := [⟨"x", "I", 0, none, some (.int (-1)), [], []⟩, ⟨"y", "J", 0, some "", none, [], []⟩] }

theorem text_determines_nested :
    (member.form.ofBytes? (member.form.toBytes nestedDefault) = some nestedDefault) ∧
      classDocument.form.ofBytes? (classDocument.form.toBytes nestedDocument) = some nestedDocument := by
  have hfree : nestedDocument.FloatFree := {
    visible := by
      simp [nestedDocument, AnnotationUse.FloatFree, elementsFloatFree, Constant.FloatFree, itemsFloatFree]
    invisible := List.forall_mem_nil _
    fields := by
      simp only [nestedDocument, List.forall_mem_cons]
      exact ⟨⟨by simp [Constant.FloatFree], by simp, by simp⟩, ⟨by simp, by simp, by simp⟩, List.forall_mem_nil _⟩
    methods := List.forall_mem_nil _ }
  exact ⟨(text_determines_value member trivial (by decide +kernel)).1,
    (text_determines_value classDocument hfree (by decide +kernel)).1⟩

end RecordType

end ClassDeps
