import ClassDeps.Class.Interning
import ClassDeps.Proofs.Symbols.Numbering
import ClassDeps.Symbols.File

/-!
# How tables grow

A table changes by interning only: it keeps its names with their numbers, gets new ones at the end, and is marked as
changed if it has got any. This holds of a computation that interns names whatever becomes of it, so that the names
that were interned before a fault stay.

## Main definitions

* `SymbolTable.Interned` — the tables that interning leads to
* `SymbolTable.Built` — the tables that there are: made by interning, saving and loading
* `Interning.Grows` — a computation that changes its table by interning

## Main statements

* `SymbolTable.Interned.le`, `size_le`, `nodup`, `eq_or_dirty` — what interning keeps
* `SymbolTable.built_load` — a table that was loaded is one of those that there are
* `ClassShape.grows_intern` — interning a document, also one that is refused
-/

namespace ClassDeps

namespace SymbolTable

/-- The tables that interning leads to. -/
inductive Interned (t : SymbolTable) : SymbolTable → Prop where
  | refl : Interned t t
  | intern {u v : SymbolTable} {name : String} {id : SymbolId} :
    Interned t u → u.intern name = .ok (id, v) → Interned t v

/-- The tables that there are. Saving a table and loading one only unmark it. -/
inductive Built : SymbolTable → Prop where
  | empty : Built .empty
  | intern {t u : SymbolTable} {name : String} {id : SymbolId} :
    Built t → t.intern name = .ok (id, u) → Built u
  | unmark {t : SymbolTable} : Built t → Built { t with dirty := false }

variable {t u v : SymbolTable}

namespace Interned

theorem trans (h : t.Interned u) (h' : u.Interned v) : t.Interned v := by
  induction h' with
  | refl => exact h
  | intern _ hintern ih => exact ih.intern hintern

theorem le (h : t.Interned u) : t ≤ u := by
  induction h with
  | refl => exact le_refl t
  | intern _ hintern ih =>
    rw [(eq_add_of_intern hintern).1]
    exact le_trans ih (le_add _ _)

/-- A table that is not marked has not changed. -/
theorem eq_or_dirty (h : t.Interned u) : u = t ∨ u.dirty = true := by
  induction h with
  | refl => exact .inl rfl
  | @intern v w name id _ hintern ih =>
    rw [(eq_add_of_intern hintern).1]
    by_cases hmem : name ∈ v.symbols
    · rwa [add, if_pos hmem]
    · rw [add, if_neg hmem]
      exact .inr rfl

theorem built (h : t.Interned u) (ht : t.Built) : u.Built := by
  induction h with
  | refl => exact ht
  | intern _ hintern ih => exact ih.intern hintern

end Interned

namespace Built

theorem size_le (h : t.Built) : t.size ≤ limit := by
  induction h with
  | empty => exact Nat.zero_le _
  | intern _ hintern ih => exact (eq_add_of_intern hintern).2.2 ih
  | unmark _ ih => exact ih

theorem nodup (h : t.Built) : t.symbols.Nodup := by
  induction h with
  | empty => exact List.nodup_nil
  | intern _ hintern ih =>
    rw [(eq_add_of_intern hintern).1]
    exact nodup_add ih _
  | unmark _ ih => exact ih

end Built

/-! ## Loading -/

theorem interned_ofSymbols {symbols : List String} (h : ofSymbols symbols t = .ok u) : t.Interned u := by
  induction symbols generalizing t with
  | nil =>
    cases h
    exact .refl
  | cons symbol rest ih =>
    unfold ofSymbols at h
    split at h
    · cases h
    · rename_i id next hintern
      split at h
      · exact (Interned.refl.intern hintern).trans (ih h)
      · cases h

/-- A table that was loaded is not marked as changed. -/
theorem built_load {store : JsonStore} {files : Files} (h : load store files = .ok t) :
    t.Built ∧ t.dirty = false := by
  unfold load at h
  match hfile : store.loadOptional SymbolFile.form fileName files with
  | .error error =>
    rw [hfile] at h
    cases h
  | .ok none =>
    rw [hfile] at h
    cases h
    exact ⟨.empty, rfl⟩
  | .ok (some file) =>
    rw [hfile] at h
    simp only [bind, Except.bind] at h
    split at h
    · cases h
    · split at h
      · cases h
      · rename_i table htable
        cases h
        exact ⟨.unmark ((interned_ofSymbols htable).built .empty), rfl⟩

end SymbolTable

/-! ## Computations that intern names -/

namespace Interning

variable {α β γ : Type}

/-- A computation changes its table by interning, also if it fails. -/
def Grows (m : Interning α) : Prop :=
  ∀ t : SymbolTable, t.Interned (m t).2

namespace Grows

theorem pure (a : α) : Grows (Pure.pure a) :=
  fun _ => .refl

theorem throw (error : CacheError) : Grows (MonadExcept.throw error : Interning α) :=
  fun _ => .refl

theorem bind {m : Interning α} {f : α → Interning β} (hm : Grows m) (hf : ∀ a, Grows (f a)) :
    Grows (m >>= f) := by
  intro t
  have hfirst := hm t
  change t.Interned (match m t with | (a, s) => ExceptT.bindCont f a s).2
  match h : m t with
  | (.ok a, s) =>
    rw [h] at hfirst
    exact hfirst.trans (hf a s)
  | (.error error, s) =>
    rw [h] at hfirst
    exact hfirst

theorem ite {refused : Prop} [Decidable refused] {m m' : Interning α} (h : Grows m) (h' : Grows m') :
    Grows (if refused then m else m') := by
  split
  · exact h
  · exact h'

theorem mapM {f : γ → Interning β} (h : ∀ x, Grows (f x)) (xs : List γ) : Grows (xs.mapM f) := by
  induction xs with
  | nil => exact .pure []
  | cons x xs ih =>
    rw [List.mapM_cons]
    exact (h x).bind fun y => ih.bind fun ys => .pure (y :: ys)

end Grows

theorem grows_name (text : String) : Grows (name text) := by
  intro t
  unfold name
  split
  · rename_i hintern
    exact SymbolTable.Interned.refl.intern hintern
  · exact .refl

theorem grows_required (what text : String) : Grows (required what text) :=
  .ite (.throw _) (grows_name text)

theorem grows_optional (text : Option String) : Grows (optional text) := by
  cases text with
  | none => exact .pure _
  | some text => exact .ite (.pure _) (grows_name text)

theorem grows_methodDescriptor (method descriptor : String) : Grows (methodDescriptor method descriptor) :=
  .ite (.throw _) (grows_name descriptor)

mutual

theorem grows_constant : (c : Constant String) → Grows (constant c)
  | .int _ | .long _ | .float _ | .double _ | .boolean _ | .char _ | .string _ => .pure _
  | .type name => by
    rw [constant]
    exact (grows_required _ name).bind fun id => .pure _
  | .enumerator type value => by
    rw [constant]
    exact (grows_required _ type).bind fun id => (grows_required _ value).bind fun id' => .pure _
  | .annotationUse type elements => by
    rw [constant]
    exact (grows_required _ type).bind fun id => (grows_elements elements).bind fun xs => .pure _
  | .array items => by
    rw [constant]
    exact (grows_items items).bind fun xs => .pure _

theorem grows_items : (items : List (Constant String)) → Grows (constantItems items)
  | [] => .pure _
  | item :: rest => by
    rw [constantItems]
    exact (grows_constant item).bind fun x => (grows_items rest).bind fun xs => .pure _

theorem grows_elements : (elements : List (String × Constant String)) → Grows (constantElements elements)
  | [] => .pure _
  | (name, value) :: rest => by
    rw [constantElements]
    exact (grows_required _ name).bind fun id => (grows_constant value).bind fun x =>
      (grows_elements rest).bind fun xs => .pure _

end

theorem grows_annotationUse (a : AnnotationUse String) : Grows (annotationUse a) :=
  (grows_required _ a.type).bind fun _ => (grows_elements a.elements).bind fun _ => .pure _

theorem grows_annotations (as : List (AnnotationUse String)) : Grows (annotations as) :=
  .mapM grows_annotationUse as

theorem grows_optionalConstant (c : Option (Constant String)) : Grows (optionalConstant c) := by
  cases c with
  | none => exact .pure _
  | some c => exact (grows_constant c).bind fun x => .pure _

theorem grows_field (x : Field String (Option String)) : Grows (field x) :=
  (grows_required _ x.name).bind fun _ => (grows_required _ x.descriptor).bind fun _ =>
    (grows_optional x.genericSignature).bind fun _ => (grows_optionalConstant x.constant).bind fun _ =>
    (grows_annotations x.visible).bind fun _ => (grows_annotations x.invisible).bind fun _ => .pure _

theorem grows_method (x : Method String (Option String)) : Grows (method x) :=
  (grows_required _ x.name).bind fun _ => (grows_methodDescriptor x.name x.descriptor).bind fun _ =>
    (grows_optional x.genericSignature).bind fun _ =>
    (Grows.mapM (grows_required _) x.exceptions).bind fun _ =>
    (grows_annotations x.visible).bind fun _ => (grows_annotations x.invisible).bind fun _ =>
    (Grows.mapM grows_annotations x.visibleParameters).bind fun _ =>
    (Grows.mapM grows_annotations x.invisibleParameters).bind fun _ =>
    (grows_optionalConstant x.default).bind fun _ => .pure _

theorem grows_declaration (x : Declaration String) : Grows (declaration x) := by
  cases x with
  | type owner => exact (grows_required _ owner).bind fun _ => .pure _
  | field owner name =>
    exact (grows_required _ owner).bind fun _ => (grows_required _ name).bind fun _ => .pure _
  | method owner name descriptor =>
    exact (grows_required _ owner).bind fun _ => (grows_required _ name).bind fun _ =>
      (grows_methodDescriptor name descriptor).bind fun _ => .pure _

end Interning

open Interning in
/-- Interning a document changes the table by interning, also if the document is refused. -/
theorem ClassShape.grows_intern (c : ClassDocument) : Grows c.intern :=
  (grows_required _ c.name).bind fun _ => (grows_optional _).bind fun _ =>
    (Grows.mapM (grows_required _) c.interfaces).bind fun _ =>
    (grows_optional c.genericSignature).bind fun _ =>
    (grows_annotations c.visible).bind fun _ => (grows_annotations c.invisible).bind fun _ =>
    (Grows.mapM grows_field c.fields).bind fun _ => (Grows.mapM grows_method c.methods).bind fun _ =>
    (Grows.mapM grows_declaration c.references).bind fun _ => .pure _

end ClassDeps
