import ClassDeps.Proofs.Class.Interned
import Mathlib.Data.List.TakeWhile

/-!
# Where the names of a document stand

Interning goes through the places of a document where a name stands, in the order in which the document lists them and
depth first, and checks the name at each place before it adds it. What becomes of a document is so told by the first
place with a fault: the names before it are added, and no others.

## Main definitions

* `Site` — a place with its name, and what is wrong with the name
* `ClassShape.sites` — the places of a document in their order
* `ClassShape.metNames` — the names before the first fault
* `Interning.Visits` — a computation that goes through some places and does nothing else to the table

## Main statements

* `ClassShape.tells` — the places have the names of the normal form, and no fault if the document is well-formed
* `ClassShape.visits_intern` — interning a document goes through its places
* `Interning.visitAll_eq`, `Interning.visitAll_again` — what a visit does, and that a second one adds nothing
* `ClassShape.intern_again` — a document that is interned twice
* `ClassShape.intern_traversal` — when a document is accepted, what refuses it, and which names are added
-/

namespace ClassDeps

open SymbolTable (limit)

/-- A place of a document where a name stands. -/
inductive Site where
  /-- The name has to be there. -/
  | required (what text : String)
  /-- The name may be absent, and is not. -/
  | optional (text : String)
  | descriptor (method text : String)

namespace Site

def text : Site → String
  | required _ text => text
  | optional text => text
  | descriptor _ text => text

/-- What is wrong with the name at a place. -/
def fault? : Site → Option FormatFault
  | required what text => if text = "" then some (.empty what) else none
  | optional _ => none
  | descriptor method text => if ')' ∈ text.toList then none else some (.descriptor method text)

/-- Interns the name at a place, if nothing is wrong with it. -/
def visit (site : Site) : Interning Unit :=
  match site.fault? with
  | some fault => throw (.format fault)
  | none => (fun _ => ()) <$> Interning.name site.text

end Site

/-! ## The places of a document -/

/-- The place of a name that may be absent. -/
def optionalSites (name : Option String) : List Site :=
  (normalName name).toList.map Site.optional

mutual

/-- The places in a constant. -/
def Constant.sites : Constant String → List Site
  | .type name => [.required "class literal" name]
  | .enumerator type constant => [.required "enum type" type, .required "enum constant" constant]
  | .annotationUse type elements => .required "annotation type" type :: elementsSites elements
  | .array items => itemsSites items
  | _ => []

/-- The places in constants. -/
def itemsSites : List (Constant String) → List Site
  | [] => []
  | item :: rest => item.sites ++ itemsSites rest

/-- The places in elements of an annotation. -/
def elementsSites : List (String × Constant String) → List Site
  | [] => []
  | (name, value) :: rest => .required "annotation member name" name :: (value.sites ++ elementsSites rest)

end

/-- The places in an annotation. -/
def AnnotationUse.sites (a : AnnotationUse String) : List Site :=
  .required "annotation type" a.type :: elementsSites a.elements

/-- The places in a list of annotations. -/
def annotationsSites (as : List (AnnotationUse String)) : List Site :=
  as.flatMap AnnotationUse.sites

/-- The places in an optional constant. -/
def constantSites (c : Option (Constant String)) : List Site :=
  c.elim [] Constant.sites

/-- The places in a field. -/
def Field.sites (x : Field String (Option String)) : List Site :=
  .required "field name" x.name :: .required "field descriptor" x.descriptor ::
    (optionalSites x.genericSignature ++ (constantSites x.constant ++
      (annotationsSites x.visible ++ annotationsSites x.invisible)))

/-- The places in a method. -/
def Method.sites (x : Method String (Option String)) : List Site :=
  .required "method name" x.name :: .descriptor x.name x.descriptor ::
    (optionalSites x.genericSignature ++ (x.exceptions.map (.required "exception name") ++
      (annotationsSites x.visible ++ (annotationsSites x.invisible ++
        (x.visibleParameters.flatMap annotationsSites ++
          (x.invisibleParameters.flatMap annotationsSites ++ constantSites x.default))))))

/-- The places in a declaration. -/
def Declaration.sites : Declaration String → List Site
  | .type owner => [.required "referenced class" owner]
  | .field owner name => [.required "referenced class" owner, .required "referenced field" name]
  | .method owner name descriptor =>
    [.required "referenced class" owner, .required "referenced method" name, .descriptor name descriptor]

namespace ClassShape

/-- The places in a document. A root class has none as super class. -/
def sites (c : ClassDocument) : List Site :=
  .required "class name" c.name ::
    (optionalSites (c.super.filter fun name => !Interning.rootClasses.contains name) ++
      (c.interfaces.map (.required "interface name") ++ (optionalSites c.genericSignature ++
        (annotationsSites c.visible ++ (annotationsSites c.invisible ++ (c.fields.flatMap Field.sites ++
          (c.methods.flatMap Method.sites ++ c.references.flatMap Declaration.sites)))))))

/-- The names at the places before the first one with a fault. -/
def metNames (c : ClassDocument) : List String :=
  (c.sites.takeWhile fun site => site.fault?.isNone).map Site.text

end ClassShape

/-! ## The names at the places -/

/-- What places tell of a document: the names there, and when there is no fault at any of them. -/
structure Tells (sites : List Site) (names : List String) (ok : Prop) : Prop where
  names : sites.map Site.text = names
  sound : (∀ site ∈ sites, site.fault? = none) ↔ ok

namespace Tells

variable {α : Type} {sites sites' : List Site} {names names' : List String} {ok ok' : Prop}

theorem nil : Tells [] [] True :=
  ⟨rfl, by simp⟩

theorem append (h : Tells sites names ok) (h' : Tells sites' names' ok') :
    Tells (sites ++ sites') (names ++ names') (ok ∧ ok') :=
  ⟨by rw [List.map_append, h.names, h'.names], by rw [List.forall_mem_append, h.sound, h'.sound]⟩

theorem cons {site : Site} {name : String} (h : Tells [site] [name] ok) (h' : Tells sites' names' ok') :
    Tells (site :: sites') (name :: names') (ok ∧ ok') :=
  h.append h'

theorem of_iff (h : Tells sites names ok) (hok : ok' ↔ ok) : Tells sites names ok' :=
  ⟨h.names, h.sound.trans hok.symm⟩

theorem flatMap {sites : α → List Site} {names : α → List String} {ok : α → Prop}
    (h : ∀ x, Tells (sites x) (names x) (ok x)) (xs : List α) :
    Tells (xs.flatMap sites) (xs.flatMap names) (∀ x ∈ xs, ok x) := by
  induction xs with
  | nil => exact nil.of_iff (by simp)
  | cons x xs ih => exact ((h x).append ih).of_iff List.forall_mem_cons

end Tells

theorem tells_required (what text : String) : Tells [.required what text] [text] ("" ∉ [text]) := by
  refine ⟨rfl, ?_⟩
  simp [Site.fault?, eq_comm]

theorem tells_optional (text : Option String) : Tells (optionalSites text) (normalName text).toList True := by
  refine ⟨?_, iff_of_true ?_ trivial⟩
  · rw [optionalSites, List.map_map]
    exact List.map_id _
  · simp [optionalSites, Site.fault?]

/-- A descriptor has no parameters to read off exactly if it has no closing parenthesis. -/
theorem signature?_isSome_iff (method descriptor : String) :
    (signature? method descriptor).isSome = true ↔ ')' ∈ descriptor.toList := by
  have hfront : descriptor.toList.takeWhile (· ≠ ')') <+: descriptor.toList := List.takeWhile_prefix _
  have hwhole : descriptor.toList.takeWhile (· ≠ ')') = descriptor.toList ↔ ')' ∉ descriptor.toList := by
    rw [List.takeWhile_eq_self_iff]
    simp [List.forall_mem_ne']
  rw [signature?, ← not_iff_not, ← hwhole]
  split
  · rename_i hlt
    exact iff_of_false (not_not_intro rfl) fun heq => Nat.lt_irrefl _ (heq ▸ hlt)
  · rename_i hle
    exact iff_of_true Bool.false_ne_true (hfront.eq_of_length_le (Nat.not_lt.1 hle))

theorem tells_descriptor (method text : String) :
    Tells [.descriptor method text] [text] ("" ∉ [text] ∧ (signature? method text).isSome) := by
  refine ⟨rfl, ?_⟩
  rw [signature?_isSome_iff]
  -- An empty descriptor has no closing parenthesis either.
  have hempty : ')' ∈ text.toList → "" ∉ [text] := by
    rintro hend hmem
    rw [← List.mem_singleton.1 hmem] at hend
    cases hend
  simpa [Site.fault?] using hempty

mutual

theorem tells_constant : (c : Constant String) → Tells c.sites c.names ("" ∉ c.names)
  | .int _ | .long _ | .float _ | .double _ | .boolean _ | .char _ | .string _ =>
    Tells.nil.of_iff (by simp [Constant.names])
  | .type name => tells_required _ name
  | .enumerator type value => ((tells_required _ type).cons (tells_required _ value)).of_iff (by
      simp [Constant.names, not_or])
  | .annotationUse type elements => ((tells_required _ type).cons (tells_elements elements)).of_iff (by
      simp [Constant.names, not_or])
  | .array items => tells_items items

theorem tells_items : (items : List (Constant String)) →
    Tells (itemsSites items) (itemsNames items) ("" ∉ itemsNames items)
  | [] => Tells.nil.of_iff (by simp [itemsNames])
  | item :: rest => ((tells_constant item).append (tells_items rest)).of_iff (by simp [itemsNames, not_or])

theorem tells_elements : (elements : List (String × Constant String)) →
    Tells (elementsSites elements) (elementsNames elements) ("" ∉ elementsNames elements)
  | [] => Tells.nil.of_iff (by simp [elementsNames])
  | (name, value) :: rest =>
    ((tells_required _ name).cons ((tells_constant value).append (tells_elements rest))).of_iff (by
      simp [elementsNames, not_or])

end

theorem tells_annotationUse (a : AnnotationUse String) : Tells a.sites a.names ("" ∉ a.names) :=
  ((tells_required _ a.type).cons (tells_elements a.elements)).of_iff (by simp [AnnotationUse.names, not_or])

theorem tells_annotations (as : List (AnnotationUse String)) :
    Tells (annotationsSites as) (annotationsNames as) ("" ∉ annotationsNames as) :=
  (Tells.flatMap tells_annotationUse as).of_iff (by simp [annotationsNames])

theorem tells_parameters (ps : List (List (AnnotationUse String))) :
    Tells (ps.flatMap annotationsSites) (ps.flatMap annotationsNames) ("" ∉ ps.flatMap annotationsNames) :=
  (Tells.flatMap tells_annotations ps).of_iff (by simp)

theorem tells_optionalConstant (c : Option (Constant String)) :
    Tells (constantSites c) (optionalNames c) ("" ∉ optionalNames c) := by
  cases c with
  | none => exact Tells.nil.of_iff (by simp [optionalNames])
  | some c => exact tells_constant c

theorem tells_names (what : String) (texts : List String) :
    Tells (texts.map (.required what)) texts ("" ∉ texts) := by
  have hsound : "" ∉ texts ↔ ∀ text ∈ texts, "" ∉ [text] := by
    simp only [List.mem_singleton]
    exact List.forall_mem_ne.symm
  have h := (Tells.flatMap (tells_required what) texts).of_iff hsound
  rwa [← List.map_eq_flatMap, ← List.map_eq_flatMap, List.map_id'] at h

theorem tells_field (x : Field String (Option String)) :
    Tells x.sites x.normal.names ("" ∉ x.normal.names) := by
  refine ((tells_required _ x.name).cons ((tells_required _ x.descriptor).cons
    ((tells_optional x.genericSignature).append ((tells_optionalConstant x.constant).append
      ((tells_annotations x.visible).append (tells_annotations x.invisible)))))).of_iff ?_
  have hgeneric := Interning.empty_notMem_normalName x.genericSignature
  simp only [Field.normal, Field.names, List.mem_cons, List.mem_append]
  simp [hgeneric, not_or]

theorem tells_method (x : Method String (Option String)) :
    Tells x.sites x.normal.names ("" ∉ x.normal.names ∧ (signature? x.name x.descriptor).isSome) := by
  refine ((tells_required _ x.name).cons ((tells_descriptor x.name x.descriptor).cons
    ((tells_optional x.genericSignature).append ((tells_names _ x.exceptions).append
      ((tells_annotations x.visible).append ((tells_annotations x.invisible).append
        ((tells_parameters x.visibleParameters).append ((tells_parameters x.invisibleParameters).append
          (tells_optionalConstant x.default))))))))).of_iff ?_
  have hgeneric := Interning.empty_notMem_normalName x.genericSignature
  simp only [Method.normal, Method.names, List.mem_cons, List.mem_append]
  simp only [hgeneric, not_or]
  tauto

theorem tells_declaration (x : Declaration String) : Tells x.sites x.names ("" ∉ x.names ∧ x.HasSignature) := by
  cases x with
  | type owner => exact (tells_required _ owner).of_iff (by simp [Declaration.names, Declaration.HasSignature])
  | field owner name =>
    exact ((tells_required _ owner).cons (tells_required _ name)).of_iff (by
      simp [Declaration.names, Declaration.HasSignature])
  | method owner name descriptor =>
    exact ((tells_required _ owner).cons ((tells_required _ name).cons (tells_descriptor name descriptor))).of_iff (by
      simp [Declaration.names, Declaration.HasSignature, and_assoc])

/-- The places of a document have the names of its normal form, and no fault exactly if the document is well-formed. -/
theorem ClassShape.tells (c : ClassDocument) : Tells c.sites c.normal.names c.WellFormed := by
  have hparts := (tells_required "class name" c.name).cons
    ((tells_optional (c.super.filter fun name => !Interning.rootClasses.contains name)).append
      ((tells_names "interface name" c.interfaces).append ((tells_optional c.genericSignature).append
        ((tells_annotations c.visible).append ((tells_annotations c.invisible).append
          ((Tells.flatMap tells_field c.fields).append ((Tells.flatMap tells_method c.methods).append
            (Tells.flatMap tells_declaration c.references))))))))
  refine ⟨hparts.names.trans ?_, hparts.sound.trans ?_⟩
  · simp only [ClassShape.normal, ClassShape.names, List.flatMap_map]
  · simp only [c.wellFormed_iff, true_and]

/-! ## Visits -/

namespace Interning

variable {α β γ : Type} {sites sites' : List Site} {site : Site} {t u : SymbolTable}

/-- The computation without its result. -/
theorem run_map_unit (m : Interning α) (t : SymbolTable) :
    ((fun _ => ()) <$> m) t = ((m t).1.map fun _ => (), (m t).2) := by
  rw [map_eq_pure_bind]
  rcases hrun : m t with ⟨error | a, u⟩
  · exact run_bind_of_error hrun
  · exact run_bind_of_ok hrun

/-- Goes through places one after the other. -/
def visitAll (sites : List Site) : Interning Unit :=
  sites.forM Site.visit

theorem visitAll_cons_of_ok (h : Site.visit site t = (.ok (), u)) (sites : List Site) :
    visitAll (site :: sites) t = visitAll sites u :=
  run_bind_of_ok h

theorem visitAll_cons_of_error {error : CacheError} (h : Site.visit site t = (.error error, u)) (sites : List Site) :
    visitAll (site :: sites) t = (.error error, u) :=
  run_bind_of_error h

theorem visitAll_singleton (site : Site) : visitAll [site] = site.visit :=
  bind_pure site.visit

/-- A computation goes through some places, and does nothing else besides giving a result. -/
def Visits (m : Interning α) (sites : List Site) : Prop :=
  (fun _ => ()) <$> m = visitAll sites

namespace Visits

theorem pure (a : α) : Visits (Pure.pure a) [] :=
  map_pure (fun _ => ()) a

theorem bind {m : Interning α} {f : α → Interning β} (hm : Visits m sites) (hf : ∀ a, Visits (f a) sites') :
    Visits (m >>= f) (sites ++ sites') := by
  calc (fun _ => ()) <$> (m >>= f)
    _ = m >>= fun a => (fun _ => ()) <$> f a := map_bind ..
    _ = m >>= fun _ => visitAll sites' := by rw [funext hf]
    _ = (fun _ => ()) <$> m >>= fun _ => visitAll sites' := (bind_map_left _ m fun _ : Unit => visitAll sites').symm
    _ = visitAll sites >>= fun _ => visitAll sites' := by rw [hm]
    _ = visitAll (sites ++ sites') := List.forM_append.symm

/-- What a visit of the places tells of the computation. -/
theorem run {m : Interning α} (h : Visits m sites) (t : SymbolTable) :
    visitAll sites t = ((m t).1.map fun _ => (), (m t).2) :=
  (congrFun h t).symm.trans (run_map_unit m t)

theorem of_eq {m : Interning α} (h : Visits m sites) (hsites : sites' = sites) : Visits m sites' :=
  hsites ▸ h

theorem mapM {f : γ → Interning β} {sites : γ → List Site} (h : ∀ x, Visits (f x) (sites x)) (xs : List γ) :
    Visits (xs.mapM f) (xs.flatMap sites) := by
  induction xs with
  | nil => exact pure []
  | cons x xs ih =>
    rw [List.mapM_cons]
    exact ((h x).bind fun y => ih.bind fun ys => pure (y :: ys)).of_eq (by simp)

end Visits

/-! ## What interning goes through -/

theorem visits_required (what text : String) : Visits (required what text) [.required what text] := by
  rw [Visits, visitAll_singleton, Site.visit, required, Site.fault?]
  by_cases hempty : text = ""
  · rw [if_pos hempty, if_pos hempty]
    rfl
  · rw [if_neg hempty, if_neg hempty]
    rfl

theorem visits_optional (text : Option String) : Visits (optional text) (optionalSites text) := by
  cases text with
  | none => exact .pure _
  | some text =>
    by_cases hempty : text = ""
    · rw [hempty]
      exact .pure _
    · have hnormal : optionalSites (some text) = [.optional text] := by simp [optionalSites, normalName, hempty]
      rw [hnormal, Visits, optional, if_neg hempty, visitAll_singleton]
      rfl

theorem visits_methodDescriptor (method descriptor : String) :
    Visits (methodDescriptor method descriptor) [.descriptor method descriptor] := by
  rw [Visits, visitAll_singleton, Site.visit, methodDescriptor, Site.fault?]
  by_cases hend : ')' ∈ descriptor.toList
  · rw [if_pos hend, if_neg]
    · rfl
    · simpa using Option.isSome_iff_ne_none.1 ((signature?_isSome_iff method descriptor).2 hend)
  · rw [if_neg hend, if_pos]
    · rfl
    · simpa using fun hsome => hend ((signature?_isSome_iff method descriptor).1 hsome)

mutual

theorem visits_constant : (c : Constant String) → Visits (constant c) c.sites
  | .int _ | .long _ | .float _ | .double _ | .boolean _ | .char _ | .string _ => .pure _
  | .type name => by
    rw [constant]
    exact (visits_required _ name).bind fun id => .pure _
  | .enumerator type value => by
    rw [constant]
    exact (visits_required _ type).bind fun id => (visits_required _ value).bind fun id' => .pure _
  | .annotationUse type elements => by
    rw [constant]
    exact ((visits_required _ type).bind fun id => (visits_elements elements).bind fun xs => .pure _).of_eq
      (by simp [Constant.sites])
  | .array items => by
    rw [constant]
    exact ((visits_items items).bind fun xs => .pure _).of_eq (by simp [Constant.sites])

theorem visits_items : (items : List (Constant String)) → Visits (constantItems items) (itemsSites items)
  | [] => .pure _
  | item :: rest => by
    rw [constantItems]
    exact ((visits_constant item).bind fun x => (visits_items rest).bind fun xs => .pure _).of_eq
      (by simp [itemsSites])

theorem visits_elements : (elements : List (String × Constant String)) →
    Visits (constantElements elements) (elementsSites elements)
  | [] => .pure _
  | (name, value) :: rest => by
    rw [constantElements]
    exact ((visits_required _ name).bind fun id => (visits_constant value).bind fun x =>
      (visits_elements rest).bind fun xs => .pure _).of_eq (by simp [elementsSites])

end

theorem visits_annotationUse (a : AnnotationUse String) : Visits (annotationUse a) a.sites :=
  ((visits_required _ a.type).bind fun _ => (visits_elements a.elements).bind fun _ => .pure _).of_eq
    (by simp [AnnotationUse.sites])

theorem visits_annotations (as : List (AnnotationUse String)) : Visits (annotations as) (annotationsSites as) :=
  .mapM visits_annotationUse as

theorem visits_optionalConstant (c : Option (Constant String)) : Visits (optionalConstant c) (constantSites c) := by
  cases c with
  | none => exact .pure _
  | some c => exact ((visits_constant c).bind fun x => .pure _).of_eq (by simp [constantSites])

theorem visits_names (what : String) (texts : List String) :
    Visits (texts.mapM (required what)) (texts.map (.required what)) :=
  (Visits.mapM (visits_required what) texts).of_eq List.map_eq_flatMap

theorem visits_field (x : Field String (Option String)) : Visits (field x) x.sites :=
  ((visits_required _ x.name).bind fun _ => (visits_required _ x.descriptor).bind fun _ =>
    (visits_optional x.genericSignature).bind fun _ => (visits_optionalConstant x.constant).bind fun _ =>
    (visits_annotations x.visible).bind fun _ => (visits_annotations x.invisible).bind fun _ => .pure _).of_eq
    (by simp [Field.sites])

theorem visits_method (x : Method String (Option String)) : Visits (method x) x.sites :=
  ((visits_required _ x.name).bind fun _ => (visits_methodDescriptor x.name x.descriptor).bind fun _ =>
    (visits_optional x.genericSignature).bind fun _ => (visits_names _ x.exceptions).bind fun _ =>
    (visits_annotations x.visible).bind fun _ => (visits_annotations x.invisible).bind fun _ =>
    (Visits.mapM visits_annotations x.visibleParameters).bind fun _ =>
    (Visits.mapM visits_annotations x.invisibleParameters).bind fun _ =>
    (visits_optionalConstant x.default).bind fun _ => .pure _).of_eq (by simp [Method.sites])

theorem visits_declaration (x : Declaration String) : Visits (declaration x) x.sites := by
  cases x with
  | type owner => exact (visits_required _ owner).bind fun _ => .pure _
  | field owner name => exact (visits_required _ owner).bind fun _ => (visits_required _ name).bind fun _ => .pure _
  | method owner name descriptor =>
    exact (visits_required _ owner).bind fun _ => (visits_required _ name).bind fun _ =>
      (visits_methodDescriptor name descriptor).bind fun _ => .pure _

end Interning

open Interning in
/-- Interning a document goes through its places. -/
theorem ClassShape.visits_intern (c : ClassDocument) : Visits c.intern c.sites :=
  ((visits_required _ c.name).bind fun _ => (visits_optional _).bind fun _ =>
    (visits_names _ c.interfaces).bind fun _ => (visits_optional c.genericSignature).bind fun _ =>
    (visits_annotations c.visible).bind fun _ => (visits_annotations c.invisible).bind fun _ =>
    (Visits.mapM visits_field c.fields).bind fun _ => (Visits.mapM visits_method c.methods).bind fun _ =>
    (Visits.mapM visits_declaration c.references).bind fun _ => .pure _).of_eq (by simp [sites])

/-! ## What a visit does -/

namespace Site

variable {site : Site} {fault : FormatFault} {t u : SymbolTable} {error : CacheError}

theorem visit_of_fault (h : site.fault? = some fault) (t : SymbolTable) :
    site.visit t = (.error (.format fault), t) := by
  rw [visit, h]
  rfl

/-- The name at a place without a fault is interned. -/
theorem visit_of_sound (h : site.fault? = none) (t : SymbolTable) :
    site.visit t = ((Interning.name site.text t).1.map fun _ => (), (Interning.name site.text t).2) := by
  rw [visit, h]
  exact Interning.run_map_unit _ t

theorem visit_eq_ok (h : site.fault? = none) (hroom : (t.add site.text).size ≤ limit) :
    site.visit t = (.ok (), t.add site.text) := by
  rw [visit_of_sound h, Interning.name, SymbolTable.intern_eq_ok hroom]
  rfl

theorem visit_of_mem (h : site.fault? = none) (hmem : site.text ∈ t.symbols) : site.visit t = (.ok (), t) := by
  rw [visit_of_sound h, Interning.name, SymbolTable.intern, SymbolTable.id?_eq_some_number hmem]
  rfl

theorem of_visit_ok (h : site.visit t = (.ok (), u)) : site.fault? = none ∧ u = t.add site.text := by
  rcases hfault : site.fault? with _ | fault
  · rw [visit_of_sound hfault, Interning.name] at h
    split at h
    · rename_i hintern
      cases h
      exact ⟨rfl, (SymbolTable.eq_add_of_intern hintern).1⟩
    · cases h
  · rw [visit_of_fault hfault] at h
    cases h

theorem eq_of_visit_error (h : site.visit t = (.error error, u)) : u = t := by
  rcases hfault : site.fault? with _ | fault
  · rw [visit_of_sound hfault, Interning.name] at h
    split at h
    · cases h
    · cases h
      rfl
  · rw [visit_of_fault hfault] at h
    cases h
    rfl

end Site

namespace Interning

variable {sites : List Site} {site : Site} {t u : SymbolTable} {result : Except CacheError Unit}

/-- A visit adds the names before the first fault, and gives this fault. -/
theorem visitAll_eq (hroom : (t.extend ((sites.takeWhile (·.fault?.isNone)).map Site.text)).size ≤ limit) :
    visitAll sites t = ((sites.findSome? Site.fault?).elim (.ok ()) fun fault => .error (.format fault),
      t.extend ((sites.takeWhile (·.fault?.isNone)).map Site.text)) := by
  induction sites generalizing t with
  | nil => rfl
  | cons site sites ih =>
    rcases hfault : site.fault? with _ | fault
    · rw [List.takeWhile_cons_of_pos (by simp [hfault]), List.map_cons, SymbolTable.extend_cons] at hroom ⊢
      have hfirst := site.visit_eq_ok hfault (Nat.le_trans (SymbolTable.size_le_of_le (SymbolTable.le_extend _ _)) hroom)
      rw [List.findSome?_cons_of_isNone (by simp [hfault]), ← ih hroom]
      exact visitAll_cons_of_ok hfirst sites
    · rw [List.takeWhile_cons_of_neg (by simp [hfault]), List.findSome?_cons_of_isSome (by simp [hfault]), hfault]
      exact visitAll_cons_of_error (site.visit_of_fault hfault t) sites

theorem visitAll_le (sites : List Site) (t : SymbolTable) : t ≤ (visitAll sites t).2 := by
  induction sites generalizing t with
  | nil => exact SymbolTable.le_refl t
  | cons site sites ih =>
    rcases hfirst : site.visit t with ⟨error | _, s⟩
    · obtain rfl := site.eq_of_visit_error hfirst
      rw [visitAll_cons_of_error hfirst]
      exact SymbolTable.le_refl s
    · obtain ⟨-, rfl⟩ := site.of_visit_ok hfirst
      rw [visitAll_cons_of_ok hfirst]
      exact SymbolTable.le_trans (SymbolTable.le_add t site.text) (ih _)

/-- A second visit ends as the first one and adds nothing. -/
theorem visitAll_again (h : visitAll sites t = (result, u)) : visitAll sites u = (result, u) := by
  induction sites generalizing t with
  | nil =>
    cases h
    rfl
  | cons site sites ih =>
    rcases hfirst : site.visit t with ⟨error | _, s⟩
    · obtain rfl := site.eq_of_visit_error hfirst
      cases (visitAll_cons_of_error hfirst sites).symm.trans h
      exact h
    · obtain ⟨hsound, rfl⟩ := site.of_visit_ok hfirst
      have hrest := (visitAll_cons_of_ok hfirst sites).symm.trans h
      -- The name of the first place is still there after the others.
      have hgrow := visitAll_le sites (t.add site.text)
      rw [hrest] at hgrow
      have hmem : site.text ∈ u.symbols := SymbolTable.mem_of_le hgrow (SymbolTable.mem_add.2 (.inr rfl))
      exact (visitAll_cons_of_ok (site.visit_of_mem hsound hmem) sites).trans (ih hrest)

end Interning

namespace ClassShape

variable {c : ClassDocument} {t u : SymbolTable} {record : ClassRecord} {error : CacheError} {name : String}

/-- Interning a document once more ends as before and adds nothing. -/
theorem intern_again {result : Except CacheError ClassRecord} (h : c.intern t = (result, u)) :
    c.intern u = (result, u) := by
  have hvisit := c.visits_intern.run t
  rw [h] at hvisit
  have hagain := (c.visits_intern.run u).symm.trans (Interning.visitAll_again hvisit)
  rcases hsecond : c.intern u with ⟨result', v⟩
  rw [hsecond, Prod.mk.injEq] at hagain
  obtain ⟨hresult, rfl⟩ := hagain
  refine Prod.ext ?_ rfl
  rcases result with error | record
  · rcases result' with error' | record'
    · exact congrArg Except.error (Except.error.inj hresult)
    · cases hresult
  · rcases result' with error' | record'
    · cases hresult
    · -- Both records have the numbers of the same table.
      rw [(eq_map_of_intern h).2, (eq_map_of_intern hsecond).2]

/-- The well-formed documents, with the closing parentheses spelt out. -/
theorem wellFormed_iff_parentheses : c.WellFormed ↔ "" ∉ c.normal.names ∧
    (∀ m ∈ c.methods, ')' ∈ m.descriptor.toList) ∧
      ∀ owner name descriptor, .method owner name descriptor ∈ c.references → ')' ∈ descriptor.toList := by
  constructor
  · intro h
    refine ⟨h.names, fun m hm => (signature?_isSome_iff _ _).1 (h.methods m hm), ?_⟩
    intro owner name descriptor hmem
    exact (signature?_isSome_iff _ _).1 (h.references _ hmem)
  · rintro ⟨hnames, hmethods, hreferences⟩
    refine ⟨hnames, fun m hm => (signature?_isSome_iff _ _).2 (hmethods m hm), fun r hr => ?_⟩
    cases r with
    | type owner => trivial
    | field owner name => trivial
    | method owner name descriptor => exact (signature?_isSome_iff _ _).2 (hreferences owner name descriptor hr)

/-- A document with room for the names before its first fault is accepted if it has none, and else refused for it. -/
theorem intern_eq (hroom : (t.extend c.metNames).size ≤ limit) :
    ((c.intern t).1.map fun _ => ()) = ((c.sites.findSome? Site.fault?).elim (.ok ()) fun fault =>
      .error (.format fault)) ∧ (c.intern t).2 = t.extend c.metNames :=
  Prod.mk.injEq .. ▸ (c.visits_intern.run t).symm.trans (Interning.visitAll_eq hroom)

/-- The names before the first fault, if there is none and if there is one. -/
theorem metNames_of_forall (h : ∀ site ∈ c.sites, site.fault? = none) : c.metNames = c.normal.names := by
  rw [metNames, List.takeWhile_eq_self_iff.2 fun site hmem => by simp [h site hmem], c.tells.names]

theorem metNames_of_fault {before after : List Site} {site : Site} {fault : FormatFault}
    (hsites : c.sites = before ++ site :: after) (hbefore : ∀ earlier ∈ before, earlier.fault? = none)
    (hfault : site.fault? = some fault) : c.metNames = before.map Site.text := by
  rw [metNames, hsites, List.takeWhile_append_of_pos fun earlier hmem => by simp [hbefore earlier hmem],
    List.takeWhile_cons_of_neg (by simp [hfault]), List.append_nil]

/-- The normal form of a document has no names of its own. -/
theorem mem_names_of_normal (h : name ∈ c.normal.names) : name ∈ c.names := by
  have hfilter {text : Option String} {p : String → Bool} (h : name ∈ (text.filter p).toList) : name ∈ text.toList :=
    Option.mem_toList.2 (Option.filter_eq_some_iff.1 (Option.mem_toList.1 h)).1
  have hsuper (h : name ∈ (normalName (c.super.filter fun name => !Interning.rootClasses.contains name)).toList) :
      name ∈ c.super.toList :=
    hfilter (hfilter h)
  have hgeneric (h : name ∈ (normalName c.genericSignature).toList) : name ∈ c.genericSignature.toList := hfilter h
  have hfields : (∃ x ∈ c.fields, name ∈ x.normal.names) → ∃ x ∈ c.fields, name ∈ x.names := by
    rintro ⟨x, hx, h⟩
    refine ⟨x, hx, ?_⟩
    have hgeneric (h : name ∈ (normalName x.genericSignature).toList) : name ∈ x.genericSignature.toList := hfilter h
    simp only [Field.normal, Field.names, List.mem_cons, List.mem_append] at h ⊢
    exact h.imp_right (.imp_right (.imp_left hgeneric))
  have hmethods : (∃ x ∈ c.methods, name ∈ x.normal.names) → ∃ x ∈ c.methods, name ∈ x.names := by
    rintro ⟨x, hx, h⟩
    refine ⟨x, hx, ?_⟩
    have hgeneric (h : name ∈ (normalName x.genericSignature).toList) : name ∈ x.genericSignature.toList := hfilter h
    simp only [Method.normal, Method.names, List.mem_cons, List.mem_append] at h ⊢
    exact h.imp_right (.imp_right (.imp_left hgeneric))
  simp only [normal, names, List.mem_cons, List.mem_append, List.flatMap_map] at h ⊢
  rw [List.mem_flatMap, List.mem_flatMap] at h ⊢
  exact h.imp_right (.imp hsuper (.imp_right (.imp hgeneric (.imp_right (.imp_right (.imp hfields
    (.imp_left hmethods)))))))

theorem mem_names_of_met (h : name ∈ c.metNames) : name ∈ c.names := by
  refine mem_names_of_normal ?_
  rw [← c.tells.names]
  exact List.map_subset _ (List.takeWhile_prefix _).subset h

/-- A document for which there is room is accepted exactly if no name is empty that has to be there, and the descriptors
of all methods that it declares or refers to have a closing parenthesis; else it is refused for the first fault. Either
way the table gets the new ones of the names before the first fault, each of them once and at the end. A root class as
super class is as good as none. -/
theorem intern_traversal (c : ClassDocument) (t : SymbolTable) (hroom : (t.extend c.metNames).size ≤ limit) :
    ((∃ record u, c.intern t = (.ok record, u)) ↔ "" ∉ c.normal.names ∧
      (∀ m ∈ c.methods, ')' ∈ m.descriptor.toList) ∧
        ∀ owner name descriptor, .method owner name descriptor ∈ c.references → ')' ∈ descriptor.toList) ∧
    (∀ record u, c.intern t = (.ok record, u) → c.metNames = c.normal.names) ∧
    (∀ error u, c.intern t = (.error error, u) → ∃ before site after fault, c.sites = before ++ site :: after ∧
      (∀ earlier ∈ before, earlier.fault? = none) ∧ site.fault? = some fault ∧ error = .format fault ∧
      c.metNames = before.map Site.text) ∧
    (∃ added, (c.intern t).2.symbols = t.symbols ++ added ∧ added.Nodup ∧
      (∀ name, name ∈ added ↔ name ∈ c.metNames ∧ name ∉ t.symbols) ∧ ∀ name ∈ added, name ∈ c.names) ∧
    ∀ root ∈ Interning.rootClasses,
      ({ c with super := some root } : ClassDocument).intern t = ({ c with super := none } : ClassDocument).intern t := by
  obtain ⟨hresult, htable⟩ := intern_eq hroom
  refine ⟨?_, fun record u h => ?_, fun error u h => ?_, ?_, fun root hroot => ?_⟩
  · rw [← wellFormed_iff_parentheses, ← c.tells.sound]
    constructor
    · rintro ⟨record, u, h⟩
      exact c.tells.sound.2 (c.describes_intern.eq_of_run t u record h).1
    · intro hsound
      rw [List.findSome?_eq_none_iff.2 hsound] at hresult
      rcases hrun : c.intern t with ⟨error | record, u⟩
      · rw [hrun] at hresult
        cases hresult
      · exact ⟨record, u, rfl⟩
  · exact metNames_of_forall (c.tells.sound.2 (c.describes_intern.eq_of_run t u record h).1)
  · rw [h] at hresult
    rcases hfirst : c.sites.findSome? Site.fault? with _ | fault
    · rw [hfirst] at hresult
      cases hresult
    · rw [hfirst] at hresult
      obtain ⟨before, site, after, hsites, hfault, hbefore⟩ := List.findSome?_eq_some_iff.1 hfirst
      exact ⟨before, site, after, fault, hsites, hbefore, hfault, Except.error.inj hresult,
        metNames_of_fault hsites hbefore hfault⟩
  · obtain ⟨added, hsymbols, hnodup, hmem⟩ := t.exists_added c.metNames
    exact ⟨added, htable ▸ hsymbols, hnodup, hmem, fun name hname => mem_names_of_met ((hmem name).1 hname).1⟩
  · have hsuper : Interning.superClass (some root) = Interning.superClass none := by
      have hkept : ((some root).filter fun name => !Interning.rootClasses.contains name) = none := by
        simpa using hroot
      rw [Interning.superClass, hkept]
      rfl
    simp only [intern, hsuper]

end ClassShape

/-- A class with a field that has no descriptor. -/
def halfNamed : ClassDocument :=
  { ClassDocument.new "A" with
    super := some "java/lang/Object", interfaces := ["I"], fields := [⟨"x", "", 0, none, none, [], []⟩],
    references := [.type "B"] }

/-- It is refused for the descriptor, after its own name and those of the interface and of the field were added. -/
theorem intern_halfNamed :
    (SymbolTable.empty.extend halfNamed.metNames).size ≤ limit ∧
      (¬∃ record u, halfNamed.intern .empty = (.ok record, u)) ∧
      ∃ added, (halfNamed.intern .empty).2.symbols = added ∧ added.Nodup ∧
        ∀ name, name ∈ added ↔ name ∈ ["A", "I", "x"] := by
  have hroom : (SymbolTable.empty.extend halfNamed.metNames).size ≤ limit := by decide
  obtain ⟨haccepted, -, -, ⟨added, hsymbols, hnodup, hmem, -⟩, -⟩ := ClassShape.intern_traversal halfNamed .empty hroom
  refine ⟨hroom, fun hok => (haccepted.1 hok).1 (by decide), added, hsymbols, hnodup, fun name => ?_⟩
  rw [hmem]
  exact and_iff_left List.not_mem_nil

end ClassDeps
