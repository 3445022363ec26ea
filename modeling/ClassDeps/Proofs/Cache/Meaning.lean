import ClassDeps.Proofs.Cache.Recorded
import ClassDeps.Proofs.Class.Named

/-!
# What rows mean

A number stands for the name that a table has under it. What was made of documents with the numbers of a table means
these documents, for that table and for every one that it grows to: each number in a row or link stands for the very
name of the document that it was made of.

## Main definitions

* `SymbolTable.meaning?` — the name that a number stands for, if any
* `Cache.RowOf`, `Cache.LinkOf` — rows and links that mean a document
* `StoreContents.Means` — stores in which everything means some document

## Main statements

* `StoreContents.Recorded.means` — what was made of documents means them
-/

namespace ClassDeps

open SymbolTable (limit)

namespace SymbolTable

variable {t : SymbolTable}

/-- What a number stands for that may stand for an absent name: that, or a name. Any other number has no meaning. -/
def meaning? (t : SymbolTable) (id : SymbolId) : Option (Option String) :=
  if id = .absent then some none else (t.symbol? id).map some

theorem number_ne_absent {name : String} (hmem : name ∈ t.symbols) (hsize : t.size ≤ limit) :
    t.number name ≠ .absent := by
  intro heq
  have hread := symbol?_number hmem hsize
  rw [heq, symbol?_absent] at hread
  cases hread

theorem meaning?_optionalNumber (hsize : t.size ≤ limit) {name : Option String}
    (hmem : ∀ n ∈ name.toList, n ∈ t.symbols) : t.meaning? (t.optionalNumber name) = some name := by
  cases name with
  | none => exact if_pos rfl
  | some name =>
    have hname : name ∈ t.symbols := hmem name List.mem_cons_self
    rw [optionalNumber, Option.elim_some, meaning?, if_neg (number_ne_absent hname hsize),
      symbol?_number hname hsize, Option.map_some]

end SymbolTable

namespace Cache

/-- A row of the record store that means a document: its key is the number of the class, and its value is the
record of the document, with what the body of the class uses or without. -/
structure RowOf (t : SymbolTable) (d : ClassDocument) (record : ClassRecord) (key value : Bytes) : Prop where
  key_eq : key = StoreKey.encode record.name
  value_eq : value = Storable.form.toBytes record
  names : record.map t.symbol? t.meaning? = d.normal.map some some ∨
    record.map t.symbol? t.meaning? = d.normal.withoutReferences.map some some

/-- A link that means a document: which class uses which declaration, which class it uses, or which class it is
based on. -/
inductive LinkOf (t : SymbolTable) (d : ClassDocument) : Link → Prop where
  | referencer {declaration : Declaration String} {key : DeclarationKey} {q : SymbolId} :
    declaration ∈ d.references → key.map t.symbol? = declaration.map some → t.symbol? q = some d.name →
    LinkOf t d ⟨StoreKey.encode key, q⟩
  | referenced {declaration : Declaration String} {q owner : SymbolId} :
    declaration ∈ d.references → t.symbol? q = some d.name → t.symbol? owner = some declaration.owner →
    LinkOf t d ⟨StoreKey.encode q, owner⟩
  | subclass {name : String} {supertype q : SymbolId} :
    name ∈ d.normal.super.toList ++ d.interfaces → t.symbol? supertype = some name → t.symbol? q = some d.name →
    LinkOf t d ⟨StoreKey.encode supertype, q⟩

end Cache

/-- Everything in a store means one of some documents. -/
structure StoreContents.Means (documents : List ClassDocument) (t : SymbolTable) (c : StoreContents) : Prop where
  rows : ∀ key value, c.rows.get? key = some value → ∃ d ∈ documents, ∃ record, Cache.RowOf t d record key value
  links : ∀ link ∈ c.links, ∃ d ∈ documents, Cache.LinkOf t d link

namespace Cache

variable {documents : List ClassDocument} {t : SymbolTable} {d : ClassDocument}

section Numbered

variable (hknows : t.Knows d) (hsize : t.size ≤ limit)

include hknows hsize

theorem numbered_map_meaning? : (d.numbered t).map t.symbol? t.meaning? = d.normal.map some some :=
  ClassShape.map_map (fun _ h => SymbolTable.symbol?_number h hsize)
    (fun _ h => SymbolTable.meaning?_optionalNumber hsize h) d.normal hknows

theorem symbol?_numbered_name : t.symbol? (d.numbered t).name = some d.name :=
  congrArg ClassShape.name (numbered_map_meaning? hknows hsize)

/-- The numbers of a declaration that a document refers to stand for its names. -/
theorem map_number_map_symbol? {declaration : Declaration String} (hmem : declaration ∈ d.references) :
    (declaration.map t.number).map t.symbol? = declaration.map some :=
  declaration.map_map (fun _ h => SymbolTable.symbol?_number h hsize)
    fun name hname => hknows name (mem_names_of_reference (d := d.normal) hmem name hname)

theorem exists_of_mem_references {key : DeclarationKey} (hkey : key ∈ (d.numbered t).references) :
    ∃ declaration ∈ d.references, key.map t.symbol? = declaration.map some := by
  obtain ⟨declaration, hmem, rfl⟩ := List.mem_map.1 hkey
  exact ⟨declaration, hmem, map_number_map_symbol? hknows hsize hmem⟩

omit hsize in
theorem mem_symbols_of_supertype {name : String} (hname : name ∈ d.normal.super.toList ++ d.interfaces) :
    name ∈ t.symbols := by
  refine hknows name ?_
  have hnames : name ∈ d.normal.super.toList ∨ name ∈ d.normal.interfaces := List.mem_append.1 hname
  simp only [ClassShape.names, List.mem_cons, List.mem_append]
  exact .inr (hnames.imp_right .inl)

/-- The super types of a record are those of its document. A super class that is absent has no number. -/
theorem mem_supertypes_numbered {supertype : SymbolId} : supertype ∈ (d.numbered t).supertypes ↔
    ∃ name ∈ d.normal.super.toList ++ d.interfaces, supertype = t.number name := by
  have hpresent {name : String} (hname : name ∈ d.normal.super.toList ++ d.interfaces) :
      t.number name ≠ .absent :=
    SymbolTable.number_ne_absent (mem_symbols_of_supertype hknows hname) hsize
  have hsuper : (d.numbered t).super = t.optionalNumber d.normal.super := rfl
  have hinterfaces : (d.numbered t).interfaces = d.interfaces.map t.number := rfl
  rw [ClassShape.supertypes, List.mem_filter, decide_eq_true_eq, List.mem_cons, hsuper, hinterfaces, List.mem_map]
  constructor
  · rintro ⟨rfl | ⟨name, hname, rfl⟩, hne⟩
    · cases hclass : d.normal.super with
      | none =>
        rw [hclass] at hne
        exact absurd rfl hne
      | some name => exact ⟨name, List.mem_append_left _ List.mem_cons_self, rfl⟩
    · exact ⟨name, List.mem_append_right _ hname, rfl⟩
  · rintro ⟨name, hname, rfl⟩
    refine ⟨?_, hpresent hname⟩
    obtain hclass | hinterface := List.mem_append.1 hname
    · rw [Option.mem_toList.1 hclass]
      exact .inl rfl
    · exact .inr ⟨name, hinterface, rfl⟩

theorem exists_of_mem_supertypes {supertype : SymbolId} (h : supertype ∈ (d.numbered t).supertypes) :
    ∃ name ∈ d.normal.super.toList ++ d.interfaces, t.symbol? supertype = some name := by
  obtain ⟨name, hname, rfl⟩ := (mem_supertypes_numbered hknows hsize).1 h
  exact ⟨name, hname, SymbolTable.symbol?_number (mem_symbols_of_supertype hknows hname) hsize⟩

end Numbered

/-- Replacing the names of a declaration replaces that of its owner. -/
theorem owner_map {ν ν' : Type} (f : ν → ν') (declaration : Declaration ν) :
    (declaration.map f).owner = f declaration.owner := by
  cases declaration <;> rfl

theorem IsRecord.rowOf (hsize : t.size ≤ limit) {key : Bytes} {record : ClassRecord}
    (h : IsRecord documents t key record) : ∃ d ∈ documents, RowOf t d record key (Storable.form.toBytes record) := by
  obtain ⟨d, hd, hknows, rfl, rfl | rfl⟩ := h
  · exact ⟨d, hd, rfl, rfl, .inl (numbered_map_meaning? hknows hsize)⟩
  · have hnames := numbered_map_meaning? hknows hsize
    exact ⟨d, hd, rfl, rfl, .inr (congrArg ClassShape.withoutReferences hnames)⟩

theorem IsEdge.linkOf (hsize : t.size ≤ limit) {link : Link} (h : IsEdge documents t link) :
    ∃ d ∈ documents, LinkOf t d link := by
  cases h with
  | @referencer d key hd hknows hkey =>
    obtain ⟨declaration, hmem, hnames⟩ := exists_of_mem_references hknows hsize hkey
    exact ⟨d, hd, .referencer hmem hnames (symbol?_numbered_name hknows hsize)⟩
  | @referenced d key hd hknows hkey =>
    obtain ⟨declaration, hmem, hnames⟩ := exists_of_mem_references hknows hsize hkey
    have howner := congrArg Declaration.owner hnames
    rw [owner_map, owner_map] at howner
    exact ⟨d, hd, .referenced hmem (symbol?_numbered_name hknows hsize) howner⟩
  | @subclass d supertype hd hknows hsupertype =>
    obtain ⟨name, hmem, hname⟩ := exists_of_mem_supertypes hknows hsize hsupertype
    exact ⟨d, hd, .subclass hmem hname (symbol?_numbered_name hknows hsize)⟩

end Cache

/-- What was made of documents means them. -/
theorem StoreContents.Recorded.means {documents : List ClassDocument} {t : SymbolTable} {c : StoreContents}
    (h : c.Recorded documents t) (hsize : t.size ≤ limit) : c.Means documents t where
  rows key value hrow := by
    obtain ⟨record, rfl, hrecord⟩ := h.rows key value hrow
    obtain ⟨d, hd, hrowOf⟩ := hrecord.rowOf hsize
    exact ⟨d, hd, record, hrowOf⟩
  links link hlink := (h.links link hlink).linkOf hsize

end ClassDeps
