import ClassDeps.Proofs.Class.Renaming
import ClassDeps.Proofs.Symbols.Numbering

/-!
# What interning does

Interning a document adds the names of its normal form to the table, in their order, and gives the normal form
with every name replaced by its number. It succeeds exactly if no name is empty, all method descriptors have a
closing parenthesis and the table has room.

## Main definitions

* `Interning.Describes` — what a computation adds to a table, what it gives and when it succeeds
* `ClassShape.WellFormed` — the documents that can be interned

## Main statements

* `Interning.Describes.bind`, `Interning.Describes.mapM` — descriptions follow the computation
* `ClassShape.describes_intern` — the description of interning a document
* `ClassShape.intern_eq_ok_iff` — when interning succeeds, and with which record
* `ClassShape.map_number_map_symbol?` — the names of a record are those of the document
-/

namespace ClassDeps

open SymbolTable (limit)

namespace Interning

variable {α β : Type}

theorem run_bind_of_ok {m : Interning α} {f : α → Interning β} {t u : SymbolTable} {a : α} (h : m t = (.ok a, u)) :
    (m >>= f) t = f a u := by
  change (match m t with | (a, s) => ExceptT.bindCont f a s) = _
  rw [h]
  rfl

theorem run_bind_of_error {m : Interning α} {f : α → Interning β} {t u : SymbolTable} {error : CacheError}
    (h : m t = (.error error, u)) : (m >>= f) t = (.error error, u) := by
  change (match m t with | (a, s) => ExceptT.bindCont f a s) = _
  rw [h]
  rfl

theorem run_bind_eq_ok_iff {m : Interning α} {f : α → Interning β} {t u : SymbolTable} {b : β} :
    (m >>= f) t = (.ok b, u) ↔ ∃ a s, m t = (.ok a, s) ∧ f a s = (.ok b, u) := by
  rcases hfirst : m t with ⟨error | a, s⟩
  · rw [run_bind_of_error hfirst]
    constructor
    · intro h
      cases h
    · rintro ⟨a, s, h, -⟩
      cases h
  · rw [run_bind_of_ok hfirst]
    constructor
    · intro h
      exact ⟨a, s, rfl, h⟩
    · rintro ⟨a, s, h, h'⟩
      cases h
      exact h'

/-- A computation succeeds if a condition holds and there is room for some names, and only if the condition
holds. It adds these names, and its result is a value that the table with them determines; for the value it does
not matter what is added later. -/
structure Describes (m : Interning α) (ok : Prop) (names : List String) (value : SymbolTable → α) :
    Prop where
  run : ∀ t : SymbolTable, ok → (t.extend names).size ≤ limit →
    m t = (.ok (value (t.extend names)), t.extend names)
  eq_of_run : ∀ (t u : SymbolTable) (a : α), m t = (.ok a, u) →
    ok ∧ u = t.extend names ∧ a = value u ∧ (t.size ≤ limit → u.size ≤ limit)
  stable : ∀ t u : SymbolTable, t ≤ u → (∀ name ∈ names, name ∈ t.symbols) → value u = value t

namespace Describes

theorem pure (a : α) : Describes (Pure.pure a) True [] fun _ => a where
  run _ _ _ := rfl
  eq_of_run t u b hrun := by
    cases hrun
    exact ⟨trivial, rfl, rfl, fun hsize => hsize⟩
  stable _ _ _ _ := rfl

/-- The names of two steps are added one after the other. -/
theorem bind {m : Interning α} {f : α → Interning β} {ok ok' : Prop} {names names' : List String}
    {value : SymbolTable → α} {value' : α → SymbolTable → β} (hm : Describes m ok names value)
    (hf : ∀ a, Describes (f a) ok' names' (value' a)) :
    Describes (m >>= f) (ok ∧ ok') (names ++ names') fun t => value' (value t) t where
  run t hok hroom := by
    rw [SymbolTable.extend_append] at hroom ⊢
    have hgrow := SymbolTable.le_extend (t.extend names) names'
    have hfirst := hm.run t hok.1 (Nat.le_trans (SymbolTable.size_le_of_le hgrow) hroom)
    -- The value of the first step may be read off the table that the second step leaves.
    have hvalue := hm.stable _ _ hgrow fun name hmem => SymbolTable.mem_extend.2 (.inr hmem)
    rw [hvalue]
    exact run_bind_eq_ok_iff.2 ⟨_, _, hfirst, (hf _).run _ hok.2 hroom⟩
  eq_of_run t u b hrun := by
    obtain ⟨a, s, hfirst, hsecond⟩ := run_bind_eq_ok_iff.1 hrun
    obtain ⟨hok, rfl, rfl, hsize⟩ := hm.eq_of_run t s a hfirst
    obtain ⟨hok', rfl, rfl, hsize'⟩ := (hf _).eq_of_run _ u b hsecond
    have hvalue := hm.stable _ _ (SymbolTable.le_extend (t.extend names) names')
      fun name hmem => SymbolTable.mem_extend.2 (.inr hmem)
    exact ⟨⟨hok, hok'⟩, (SymbolTable.extend_append t names names').symm, by rw [hvalue],
      fun h => hsize' (hsize h)⟩
  stable t u hgrow hmem := by
    rw [List.forall_mem_append] at hmem
    rw [hm.stable t u hgrow hmem.1, (hf _).stable t u hgrow hmem.2]

theorem of_eq {m : Interning α} {ok ok' : Prop} {names names' : List String}
    {value value' : SymbolTable → α} (h : Describes m ok names value) (hok : ok' ↔ ok)
    (hnames : names' = names) (hvalue : ∀ t, value' t = value t) : Describes m ok' names' value' := by
  obtain rfl : value' = value := funext hvalue
  rw [propext hok, hnames]
  exact h

theorem mapM {γ : Type} {f : γ → Interning β} {ok : γ → Prop} {names : γ → List String}
    {value : γ → SymbolTable → β} (h : ∀ x, Describes (f x) (ok x) (names x) (value x)) (xs : List γ) :
    Describes (xs.mapM f) (∀ x ∈ xs, ok x) (xs.flatMap names) fun t => xs.map fun x => value x t := by
  induction xs with
  | nil => exact (pure []).of_eq (by simp) rfl fun _ => rfl
  | cons x xs ih =>
    rw [List.mapM_cons]
    refine ((h x).bind fun y => ih.bind fun ys => pure (y :: ys)).of_eq ?_ ?_ fun _ => rfl
    · simp
    · simp

end Describes

/-! ## Names -/

theorem describes_name (text : String) :
    Describes (name text) True [text] fun t => t.number text where
  run t _ hroom := by
    have hintern := SymbolTable.intern_eq_ok hroom
    simp only [name, SymbolTable.extend_cons, SymbolTable.extend_nil, hintern]
  eq_of_run t u id hrun := by
    unfold name at hrun
    split at hrun
    · rename_i hintern
      obtain ⟨hu, hid, hsize⟩ := SymbolTable.eq_add_of_intern hintern
      cases hrun
      exact ⟨trivial, hu, hid, hsize⟩
    · cases hrun
  stable t u hgrow hmem := SymbolTable.number_of_le hgrow (hmem text List.mem_cons_self)

/-- A check before a computation is part of its condition. -/
theorem Describes.unless {m : Interning α} {ok : Prop} {names : List String} {value : SymbolTable → α}
    (h : Describes m ok names value) (refused : Prop) [Decidable refused] (error : CacheError) :
    Describes (if refused then throw error else m) (¬refused ∧ ok) names value := by
  by_cases hrefused : refused
  · rw [if_pos hrefused]
    exact {
      run := fun t hok => absurd hrefused hok.1
      eq_of_run := fun t u a hrun => by cases hrun
      stable := h.stable }
  · rw [if_neg hrefused]
    exact h.of_eq (by simp [hrefused]) rfl fun _ => rfl

theorem describes_required (what text : String) :
    Describes (required what text) ("" ∉ [text]) [text] fun t => t.number text :=
  ((describes_name text).unless (text = "") _).of_eq (by simp [eq_comm]) rfl fun _ => rfl

theorem describes_optional (text : Option String) :
    Describes (optional text) True (normalName text).toList fun t => t.optionalNumber (normalName text) := by
  cases text with
  | none => exact Describes.pure _
  | some text =>
    by_cases hempty : text = ""
    · simp only [optional, normalName, hempty]
      exact Describes.pure _
    · have hnormal : normalName (some text) = some text := by simp [normalName, hempty]
      rw [optional, if_neg hempty, hnormal]
      exact describes_name text

/-! ## Constants and annotations -/

mutual

theorem describes_constant : (c : Constant String) →
    Describes (constant c) ("" ∉ c.names) c.names fun t => c.map t.number
  | .int value | .long value | .float value | .double value | .boolean value | .char value
  | .string value => (Describes.pure _).of_eq (by simp [Constant.names]) rfl fun _ => rfl
  | .type name => by
    rw [constant]
    refine ((describes_required _ name).bind fun id => Describes.pure _).of_eq ?_ rfl fun _ => rfl
    simp [Constant.names]
  | .enumerator type value => by
    rw [constant]
    refine ((describes_required _ type).bind fun id => (describes_required _ value).bind fun id' =>
      Describes.pure _).of_eq ?_ rfl fun _ => rfl
    simp [Constant.names, not_or]
  | .annotationUse type elements => by
    rw [constant]
    refine ((describes_required _ type).bind fun id => (describes_elements elements).bind fun xs =>
      Describes.pure _).of_eq ?_ (by simp [Constant.names]) fun _ => rfl
    simp [Constant.names, not_or]
  | .array items => by
    rw [constant]
    refine ((describes_items items).bind fun xs => Describes.pure _).of_eq ?_
      (by simp [Constant.names]) fun _ => rfl
    simp [Constant.names]

theorem describes_items : (items : List (Constant String)) →
    Describes (constantItems items) ("" ∉ itemsNames items) (itemsNames items)
      fun t => mapItems t.number items
  | [] => (Describes.pure _).of_eq (by simp [itemsNames]) rfl fun _ => rfl
  | item :: rest => by
    rw [constantItems]
    refine ((describes_constant item).bind fun x => (describes_items rest).bind fun xs =>
      Describes.pure _).of_eq ?_ (by simp [itemsNames]) fun _ => rfl
    simp [itemsNames, not_or]

theorem describes_elements : (elements : List (String × Constant String)) →
    Describes (constantElements elements) ("" ∉ elementsNames elements) (elementsNames elements)
      fun t => mapElements t.number elements
  | [] => (Describes.pure _).of_eq (by simp [elementsNames]) rfl fun _ => rfl
  | (name, value) :: rest => by
    rw [constantElements]
    refine ((describes_required _ name).bind fun id => (describes_constant value).bind fun x =>
      (describes_elements rest).bind fun xs => Describes.pure _).of_eq ?_
      (by simp [elementsNames]) fun _ => rfl
    simp [elementsNames, not_or]

end

theorem describes_annotationUse (a : AnnotationUse String) :
    Describes (annotationUse a) ("" ∉ a.names) a.names fun t => a.map t.number := by
  refine ((describes_required _ a.type).bind fun id => (describes_elements a.elements).bind fun xs =>
    Describes.pure _).of_eq ?_ (by simp [AnnotationUse.names]) fun _ => rfl
  simp [AnnotationUse.names, not_or]

theorem describes_annotations (as : List (AnnotationUse String)) :
    Describes (annotations as) ("" ∉ annotationsNames as) (annotationsNames as)
      fun t => as.map (AnnotationUse.map t.number) :=
  (Describes.mapM describes_annotationUse as).of_eq (by simp [annotationsNames]) rfl fun _ => rfl

theorem describes_parameters (ps : List (List (AnnotationUse String))) :
    Describes (ps.mapM annotations) ("" ∉ ps.flatMap annotationsNames) (ps.flatMap annotationsNames)
      fun t => ps.map (List.map (AnnotationUse.map t.number)) :=
  (Describes.mapM describes_annotations ps).of_eq (by simp) rfl fun _ => rfl

theorem describes_optionalConstant (c : Option (Constant String)) :
    Describes (optionalConstant c) ("" ∉ optionalNames c) (optionalNames c)
      fun t => c.map (Constant.map t.number) := by
  cases c with
  | none => exact (Describes.pure _).of_eq (by simp [optionalNames]) rfl fun _ => rfl
  | some c =>
    exact ((describes_constant c).bind fun x => Describes.pure (some x)).of_eq
      (by simp [optionalNames]) (by simp [optionalNames]) fun _ => rfl

theorem describes_names (what : String) (texts : List String) :
    Describes (texts.mapM (required what)) ("" ∉ texts) texts fun t => texts.map t.number := by
  refine (Describes.mapM (describes_required what) texts).of_eq ?_ (by simp) fun _ => rfl
  simp only [List.mem_singleton]
  exact List.forall_mem_ne.symm

/-! ## Members and declarations -/

theorem empty_notMem_normalName (text : Option String) : "" ∉ (normalName text).toList := by
  simp [normalName]

theorem describes_field (x : Field String (Option String)) :
    Describes (field x) ("" ∉ x.normal.names) x.normal.names
      fun t => x.normal.map t.number t.optionalNumber := by
  refine ((describes_required _ x.name).bind fun name =>
    (describes_required _ x.descriptor).bind fun descriptor =>
    (describes_optional x.genericSignature).bind fun genericSignature =>
    (describes_optionalConstant x.constant).bind fun constant =>
    (describes_annotations x.visible).bind fun visible =>
    (describes_annotations x.invisible).bind fun invisible => Describes.pure _).of_eq ?_ ?_ fun _ => rfl
  · have hgeneric := empty_notMem_normalName x.genericSignature
    simp only [Field.normal, Field.names, List.mem_cons, List.mem_append]
    simp [hgeneric, not_or]
  · simp [Field.normal, Field.names]

theorem describes_methodDescriptor (method descriptor : String) :
    Describes (methodDescriptor method descriptor)
      ("" ∉ [descriptor] ∧ (signature? method descriptor).isSome) [descriptor]
      fun t => t.number descriptor := by
  -- An empty descriptor is refused by the check for the parenthesis already.
  have hempty : signature? method "" = none := by simp [signature?]
  refine ((describes_name descriptor).unless _ _).of_eq ?_ rfl fun _ => rfl
  simp only [List.mem_singleton, Option.isNone_iff_eq_none, and_true]
  constructor
  · rintro ⟨-, hsome⟩ hnone
    rw [hnone] at hsome
    cases hsome
  · intro hne
    refine ⟨fun heq => hne (heq ▸ hempty), ?_⟩
    exact Option.isSome_iff_ne_none.2 hne

theorem describes_method (x : Method String (Option String)) :
    Describes (method x) ("" ∉ x.normal.names ∧ (signature? x.name x.descriptor).isSome)
      x.normal.names fun t => x.normal.map t.number t.optionalNumber := by
  refine ((describes_required _ x.name).bind fun name =>
    (describes_methodDescriptor x.name x.descriptor).bind fun descriptor =>
    (describes_optional x.genericSignature).bind fun genericSignature =>
    (describes_names _ x.exceptions).bind fun exceptions =>
    (describes_annotations x.visible).bind fun visible =>
    (describes_annotations x.invisible).bind fun invisible =>
    (describes_parameters x.visibleParameters).bind fun visibleParameters =>
    (describes_parameters x.invisibleParameters).bind fun invisibleParameters =>
    (describes_optionalConstant x.default).bind fun default => Describes.pure _).of_eq ?_ ?_ fun _ => rfl
  · have hgeneric := empty_notMem_normalName x.genericSignature
    simp only [Method.normal, Method.names, List.mem_cons, List.mem_append]
    simp only [hgeneric, not_or]
    tauto
  · simp [Method.normal, Method.names]

end Interning

/-- A reference to a method has a descriptor with a closing parenthesis. -/
def Declaration.HasSignature : Declaration String → Prop
  | .method _ name descriptor => (signature? name descriptor).isSome
  | _ => True

theorem Interning.describes_declaration (x : Declaration String) :
    Describes (declaration x) ("" ∉ x.names ∧ x.HasSignature) x.names fun t => x.map t.number := by
  cases x with
  | type owner =>
    refine ((describes_required _ owner).bind fun id => Describes.pure _).of_eq ?_ rfl fun _ => rfl
    simp [Declaration.names, Declaration.HasSignature]
  | field owner name =>
    refine ((describes_required _ owner).bind fun id => (describes_required _ name).bind fun id' =>
      Describes.pure _).of_eq ?_ rfl fun _ => rfl
    simp [Declaration.names, Declaration.HasSignature]
  | method owner name descriptor =>
    refine ((describes_required _ owner).bind fun id => (describes_required _ name).bind fun id' =>
      (describes_methodDescriptor name descriptor).bind fun id'' => Describes.pure _).of_eq ?_ rfl
      fun _ => rfl
    simp [Declaration.names, Declaration.HasSignature, and_assoc]

/-! ## Classes -/

/-- The documents that can be interned: no name that has to be there is empty, and all method descriptors have
a closing parenthesis. -/
structure ClassShape.WellFormed (c : ClassDocument) : Prop where
  names : "" ∉ c.normal.names
  methods : ∀ m ∈ c.methods, (signature? m.name m.descriptor).isSome
  references : ∀ r ∈ c.references, r.HasSignature

/-- A document is well-formed part by part. -/
theorem ClassShape.wellFormed_iff (c : ClassDocument) :
    c.WellFormed ↔ "" ∉ [c.name] ∧ "" ∉ c.interfaces ∧ "" ∉ annotationsNames c.visible ∧
      "" ∉ annotationsNames c.invisible ∧ (∀ x ∈ c.fields, "" ∉ x.normal.names) ∧
      (∀ x ∈ c.methods, "" ∉ x.normal.names ∧ (signature? x.name x.descriptor).isSome) ∧
      ∀ x ∈ c.references, "" ∉ x.names ∧ x.HasSignature := by
  -- Optional names are empty in no normal form, so only the required ones are left of the condition.
  have hsuper := Interning.empty_notMem_normalName
    (c.super.filter fun name => !Interning.rootClasses.contains name)
  have hgeneric := Interning.empty_notMem_normalName c.genericSignature
  have hnames : "" ∉ c.normal.names ↔
      "" ≠ c.name ∧ "" ∉ c.interfaces ∧ "" ∉ annotationsNames c.visible ∧
        "" ∉ annotationsNames c.invisible ∧ (∀ x ∈ c.fields, "" ∉ x.normal.names) ∧
        (∀ x ∈ c.methods, "" ∉ x.normal.names) ∧ ∀ x ∈ c.references, "" ∉ x.names := by
    simp only [ClassShape.normal, ClassShape.names, List.mem_cons, List.mem_append, not_or,
      List.mem_flatMap, List.flatMap_map, not_exists, not_and]
    simp only [hsuper, hgeneric, not_false_eq_true, true_and, ne_eq]
  rw [List.mem_singleton]
  constructor
  · intro h
    obtain ⟨hname, hinterfaces, hvisible, hinvisible, hfields, hmethods, hreferences⟩ := hnames.1 h.names
    exact ⟨hname, hinterfaces, hvisible, hinvisible, hfields, fun m hm => ⟨hmethods m hm, h.methods m hm⟩,
      fun r hr => ⟨hreferences r hr, h.references r hr⟩⟩
  · rintro ⟨hname, hinterfaces, hvisible, hinvisible, hfields, hmethods, hreferences⟩
    exact {
      names := hnames.2 ⟨hname, hinterfaces, hvisible, hinvisible, hfields,
        fun m hm => (hmethods m hm).1, fun r hr => (hreferences r hr).1⟩
      methods := fun m hm => (hmethods m hm).2
      references := fun r hr => (hreferences r hr).2 }

theorem ClassShape.describes_intern (c : ClassDocument) :
    Interning.Describes c.intern c.WellFormed c.normal.names
      fun t => c.normal.map t.number t.optionalNumber := by
  refine ((Interning.describes_required _ c.name).bind fun name =>
    (Interning.describes_optional _).bind fun super =>
    (Interning.describes_names _ c.interfaces).bind fun interfaces =>
    (Interning.describes_optional c.genericSignature).bind fun genericSignature =>
    (Interning.describes_annotations c.visible).bind fun visible =>
    (Interning.describes_annotations c.invisible).bind fun invisible =>
    (Interning.Describes.mapM Interning.describes_field c.fields).bind fun fields =>
    (Interning.Describes.mapM Interning.describes_method c.methods).bind fun methods =>
    (Interning.Describes.mapM Interning.describes_declaration c.references).bind fun references =>
    Interning.Describes.pure _).of_eq ?_ ?_ fun t => ?_
  · simp only [c.wellFormed_iff, true_and, and_true]
  · simp [ClassShape.normal, ClassShape.names, List.flatMap_map]
  · simp [ClassShape.normal, ClassShape.map, List.map_map, Function.comp_def]

namespace ClassShape

variable {c : ClassDocument} {t u v : SymbolTable} {record : ClassRecord}

/-- A record is the normal form of its document with the numbers of its names. -/
theorem eq_map_of_intern (h : c.intern t = (.ok record, u)) :
    u = t.extend c.normal.names ∧ record = c.normal.map u.number u.optionalNumber :=
  have hrun := c.describes_intern.eq_of_run t u record h
  ⟨hrun.2.1, hrun.2.2.1⟩

/-- Interning succeeds exactly on well-formed documents for which there is room, and gives their normal form with
the numbers of its names. -/
theorem intern_eq_ok_iff (hsize : t.size ≤ limit) :
    c.intern t = (.ok record, u) ↔
      c.WellFormed ∧ (t.extend c.normal.names).size ≤ limit ∧ u = t.extend c.normal.names ∧
        record = c.normal.map u.number u.optionalNumber := by
  constructor
  · intro hrun
    obtain ⟨hok, rfl, rfl, hroom⟩ := c.describes_intern.eq_of_run t u record hrun
    exact ⟨hok, hroom hsize, rfl, rfl⟩
  · rintro ⟨hok, hroom, rfl, rfl⟩
    exact c.describes_intern.run t hok hroom

/-- The record of a document is the same for every table that the table after it grows to. -/
theorem map_number_of_le (hgrow : t ≤ u) (hmem : ∀ name ∈ c.normal.names, name ∈ t.symbols) :
    c.normal.map u.number u.optionalNumber = c.normal.map t.number t.optionalNumber :=
  c.describes_intern.stable t u hgrow hmem

/-- The names of a record are those of the document. -/
theorem map_number_map_symbol? (hsize : t.size ≤ limit)
    (hmem : ∀ name ∈ c.normal.names, name ∈ t.symbols) :
    (c.normal.map t.number t.optionalNumber).map t.resolve t.symbol? = c.normal := by
  rw [ClassShape.map_map (fun _ h => SymbolTable.resolve_number h hsize)
    (fun _ h => SymbolTable.symbol?_optionalNumber hsize h) c.normal hmem]
  exact c.normal.map_id

end ClassShape

/-- The names of a member are those that its numbers stand for. -/
theorem Member.map_number_map_symbol? {t : SymbolTable} (hsize : t.size ≤ limit)
    {x : Member String (Option String)} (hmem : ∀ name ∈ x.names, name ∈ t.symbols) :
    (x.map t.number t.optionalNumber).map t.resolve t.symbol? = x := by
  rw [Member.map_map (fun _ h => SymbolTable.resolve_number h hsize)
    (fun _ h => SymbolTable.symbol?_optionalNumber hsize h) x hmem]
  exact x.map_id

/-- Declarations with the same numbers are the same. -/
theorem Declaration.map_number_inj {t : SymbolTable} (hsize : t.size ≤ limit) {x y : Declaration String}
    (hx : ∀ name ∈ x.names, name ∈ t.symbols) (hy : ∀ name ∈ y.names, name ∈ t.symbols)
    (h : x.map t.number = y.map t.number) : x = y := by
  have hread {z : Declaration String} (hz : ∀ name ∈ z.names, name ∈ t.symbols) :
      (z.map t.number).map t.resolve = z := by
    rw [z.map_map (fun _ h => SymbolTable.resolve_number h hsize) hz]
    exact congrFun Declaration.map_id z
  rw [← hread hx, h, hread hy]

end ClassDeps
