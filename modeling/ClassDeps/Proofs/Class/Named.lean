import ClassDeps.Proofs.Class.Collector
import ClassDeps.Proofs.Class.Renaming
import Mathlib.Data.List.Nodup
import Mathlib.Data.List.Perm.Basic
import Mathlib.Tactic.Tauto

/-!
# Dependencies by names

Who depends on a class, and on which of its members, as a function of class documents alone. The order of the
documents decides about the order of the answer only.

## Main definitions

* `referencedMembers` — the members of a class that a document refers to
* `dependenciesOn` — the referencers of a class with the members that each uses
* `Dependency.named` — a dependency with its numbers read as names

## Main statements

* `dependenciesOn_eq_nil` — nothing depends on a name that no document has
* `dependenciesOn_perm` — the order of the documents does not matter
* `eraseDups_map` — replacing names commutes with leaving out repetitions
-/

namespace ClassDeps

/-- A declared field or method with its names. -/
abbrev NamedMember := Member String (Option String)

/-- The members of the class `name` that a document refers to: fields first, in the order of the declaration. A
reference to a field names no descriptor and means all fields of the name. -/
def referencedMembers (documents : List ClassDocument) (name : String) (referencer : ClassDocument) :
    List NamedMember :=
  (documents.find? (·.name = name)).elim [] fun target =>
    (target.normal.fields.filter fun f => .field name f.name ∈ referencer.references).map .field ++
      (target.normal.methods.filter fun m => .method name m.name m.descriptor ∈ referencer.references).map
        .method

/-- The referencers of the class `name` among some documents, with the members that each uses. -/
def dependenciesOn (documents : List ClassDocument) (name : String) :
    List (String × List NamedMember) :=
  (documents.filter fun r =>
    r.name ≠ name ∧ (.type name ∈ r.references ∨ referencedMembers documents name r ≠ [])).map
      fun r => (r.name, (referencedMembers documents name r).eraseDups)

/-- A dependency with its numbers read as names. -/
def Dependency.named (t : SymbolTable) (d : Dependency) : String × List NamedMember :=
  (t.resolve d.referencer, d.members.map (Member.map t.resolve t.symbol?))

variable {documents order : List ClassDocument} {name : String}

/-! ## Names of parts -/

section Parts

variable {d : ClassDocument}

theorem mem_names_of_field {f : Field String (Option String)} (hf : f ∈ d.fields) :
    ∀ n ∈ f.names, n ∈ d.names := by
  intro n hn
  have hall : n ∈ d.fields.flatMap Field.names := List.mem_flatMap.2 ⟨f, hf, hn⟩
  simp only [ClassShape.names, List.mem_cons, List.mem_append]
  tauto

theorem mem_names_of_method {m : Method String (Option String)} (hm : m ∈ d.methods) :
    ∀ n ∈ m.names, n ∈ d.names := by
  intro n hn
  have hall : n ∈ d.methods.flatMap Method.names := List.mem_flatMap.2 ⟨m, hm, hn⟩
  simp only [ClassShape.names, List.mem_cons, List.mem_append]
  tauto

theorem mem_names_of_reference {x : Declaration String} (hx : x ∈ d.references) :
    ∀ n ∈ x.names, n ∈ d.names := by
  intro n hn
  have hall : n ∈ d.references.flatMap Declaration.names := List.mem_flatMap.2 ⟨x, hx, hn⟩
  simp only [ClassShape.names, List.mem_cons, List.mem_append]
  tauto

end Parts

/-- A document refers to a declaration of a class under a name of a document. -/
theorem exists_of_mem_referencedMembers {r : ClassDocument} {x : NamedMember}
    (hx : x ∈ referencedMembers documents name r) :
    ∃ d ∈ documents, d.name = name ∧ ∀ n ∈ x.names, n ∈ d.normal.names := by
  rw [referencedMembers] at hx
  cases hfound : documents.find? (·.name = name) with
  | none =>
    rw [hfound] at hx
    cases hx
  | some d =>
    rw [hfound, Option.elim_some, List.mem_append, List.mem_map, List.mem_map] at hx
    refine ⟨d, List.mem_of_find?_eq_some hfound, by simpa using List.find?_some hfound, ?_⟩
    obtain ⟨f, hf, rfl⟩ | ⟨m, hm, rfl⟩ := hx
    · exact mem_names_of_field (List.mem_filter.1 hf).1
    · exact mem_names_of_method (List.mem_filter.1 hm).1

/-! ## Documents by name -/

/-- A document is found under its name if no other one has that name. -/
theorem find?_name (hnames : (documents.map (·.name)).Nodup) {d : ClassDocument} (hd : d ∈ documents) :
    documents.find? (·.name = d.name) = some d := by
  induction documents with
  | nil => cases hd
  | cons first documents ih =>
    rw [List.map_cons, List.nodup_cons] at hnames
    obtain rfl | hd := List.mem_cons.1 hd
    · simp
    · have hne : first.name ≠ d.name := fun heq => hnames.1 (heq ▸ List.mem_map_of_mem hd)
      rw [List.find?_cons_of_neg (by simpa using hne)]
      exact ih hnames.2 hd

theorem find?_name_perm (hnames : (documents.map (·.name)).Nodup) (horder : documents.Perm order)
    (name : String) : documents.find? (·.name = name) = order.find? (·.name = name) := by
  -- The document that is found is the only one of its name, so no other order finds another one first.
  cases hfound : documents.find? (·.name = name) with
  | some d =>
    have hname : d.name = name := by simpa using List.find?_some hfound
    have hd := horder.mem_iff.1 (List.mem_of_find?_eq_some hfound)
    rw [← hname, find?_name ((horder.map _).nodup_iff.1 hnames) hd]
  | none =>
    rw [List.find?_eq_none] at hfound
    exact (List.find?_eq_none.2 fun d hd => hfound d (horder.mem_iff.2 hd)).symm

/-- The order of documents with different names does not matter. -/
theorem dependenciesOn_perm (hnames : (documents.map (·.name)).Nodup) (horder : documents.Perm order)
    (name : String) : (dependenciesOn documents name).Perm (dependenciesOn order name) := by
  have hused : referencedMembers documents name = referencedMembers order name := by
    funext r
    rw [referencedMembers, referencedMembers, find?_name_perm hnames horder]
  rw [dependenciesOn, dependenciesOn, hused]
  exact (horder.filter _).map _

/-- Nothing depends on a name that no document has. -/
theorem dependenciesOn_eq_nil (h : ∀ d ∈ documents, name ∉ d.normal.names) :
    dependenciesOn documents name = [] := by
  rw [dependenciesOn, List.map_eq_nil_iff, List.filter_eq_nil_iff]
  intro r hr hused
  obtain ⟨-, htype | hmembers⟩ := of_decide_eq_true hused
  · exact h r hr (mem_names_of_reference (d := r.normal) htype name List.mem_cons_self)
  · obtain ⟨x, hx⟩ := List.exists_mem_of_ne_nil _ hmembers
    obtain ⟨d, hd, hname, -⟩ := exists_of_mem_referencedMembers hx
    exact h d hd (hname ▸ List.mem_cons_self)

/-- No referencer is listed twice. -/
theorem nodup_dependenciesOn (hnames : (documents.map (·.name)).Nodup) (name : String) :
    (dependenciesOn documents name).Nodup := by
  -- What the rows have in front are names of documents.
  refine List.Nodup.of_map Prod.fst ?_
  rw [dependenciesOn, List.map_map]
  exact hnames.sublist (List.filter_sublist.map _)

/-! ## Repetitions -/

/-- Leaving out repetitions commutes with a map that keeps the items of a list apart. -/
theorem eraseDups_map {α β : Type} [DecidableEq α] [DecidableEq β] {f : α → β} {xs : List α}
    (hf : ∀ a ∈ xs, ∀ b ∈ xs, f a = f b → a = b) : (xs.map f).eraseDups = xs.eraseDups.map f := by
  -- From the end, since the first of equal items is the one that stays.
  induction xs using List.reverseRecOn with
  | nil => rfl
  | append_singleton xs x ih =>
    have hmem : f x ∈ xs.map f ↔ x ∈ xs := by
      refine ⟨fun h => ?_, fun h => List.mem_map_of_mem h⟩
      obtain ⟨y, hy, heq⟩ := List.mem_map.1 h
      exact hf y (List.mem_append_left _ hy) x (List.mem_append_right _ (List.mem_singleton_self x)) heq ▸ hy
    have hxs := ih fun a ha b hb => hf a (List.mem_append_left _ ha) b (List.mem_append_left _ hb)
    rw [List.map_append, List.map_singleton, eraseDups_concat, eraseDups_concat, hxs]
    by_cases hx : x ∈ xs
    · rw [if_pos hx, if_pos (hmem.2 hx)]
    · rw [if_neg hx, if_neg (mt hmem.1 hx), List.map_append, List.map_singleton]

end ClassDeps
