import ClassDeps.Proofs.Cache.IndexPass
import ClassDeps.Proofs.Cache.Meaning
import Mathlib.Data.Set.Insert

/-!
# Imports by names

The numbers of names depend on what was interned before. With names instead of numbers, what an import leaves in a cache
depends only on what the cache held before and on the documents: the last document of a class gives the record, and each
document gives edges. So documents that are imported once more, with whatever numbers, leave what importing them once
leaves.

## Main definitions

* `Cache.Named`, `Cache.named` — what a cache holds, with names instead of numbers
* `Named.imported` — a document is imported and indexed

## Main statements

* `Cache.Recorded.named_of_le` — a table that grows keeps the names
* `Cache.named_imported` — importing by numbers is importing by names
* `Named.foldl_imported_again` — documents that are imported once more
-/

namespace ClassDeps

open SymbolTable (limit)

namespace Cache

/-- What the stores of a cache hold, with names instead of numbers. A number that stands for nothing has no name. -/
@[ext]
structure Named where
  records : Set (Option String × ClassShape (Option String) (Option (Option String)))
  remote : Set (Option String × Bytes)
  referencers : Set (Declaration (Option String) × Option String)
  referenced : Set (Option String × Option String)
  subclasses : Set (Option String × Option String)

/-- What the stores of a cache hold, with the names of the numbers in a table. -/
def named (t : SymbolTable) (c : Cache) : Named where
  records := {row | ∃ (q : SymbolId) (record : ClassRecord),
    c.classes.rows.get? (StoreKey.encode q) = some (Storable.form.toBytes record) ∧
      row = (t.symbol? q, record.map t.symbol? t.meaning?)}
  remote := {row | ∃ (q : SymbolId) (value : Bytes), c.remote.rows.get? (StoreKey.encode q) = some value ∧
    row = (t.symbol? q, value)}
  referencers := {edge | ∃ (key : DeclarationKey) (q : SymbolId), ⟨StoreKey.encode key, q⟩ ∈ c.referencers.links ∧
    edge = (key.map t.symbol?, t.symbol? q)}
  referenced := {edge | ∃ q owner : SymbolId, ⟨StoreKey.encode q, owner⟩ ∈ c.referenced.links ∧
    edge = (t.symbol? q, t.symbol? owner)}
  subclasses := {edge | ∃ supertype q : SymbolId, ⟨StoreKey.encode supertype, q⟩ ∈ c.subclasses.links ∧
    edge = (t.symbol? supertype, t.symbol? q)}

/-- A document is imported and indexed: its record takes the place of that of its class, and its edges are added. -/
def Named.imported (x : Named) (d : ClassDocument) : Named where
  records := insert (some d.name, d.normal.withoutReferences.map some some) {row ∈ x.records | row.1 ≠ some d.name}
  remote := x.remote
  referencers := {edge | ∃ key ∈ d.references, edge = (key.map some, some d.name)} ∪ x.referencers
  referenced := {edge | ∃ key ∈ d.references, key.owner ≠ d.name ∧ edge = (some d.name, some key.owner)} ∪ x.referenced
  subclasses := {edge | ∃ name ∈ d.normal.super.toList ++ d.interfaces, edge = (some name, some d.name)} ∪ x.subclasses

variable {documents others : List ClassDocument} {t u table : SymbolTable} {c d : Cache} {document : ClassDocument}

/-! ## Names that stay -/

/-- A number that an encoded number stands for is no declaration. -/
theorem encode_declaration_ne (key : DeclarationKey) (q : SymbolId) : StoreKey.encode key ≠ StoreKey.encode q := by
  intro heq
  have hlength := congrArg List.length heq
  cases key <;> cases hlength

/-- The numbers in the index of referencers have names. -/
theorem LinkOf.referencer_names {key : DeclarationKey} {q : SymbolId} (h : LinkOf t document ⟨StoreKey.encode key, q⟩) :
    (∃ declaration : Declaration String, key.map t.symbol? = declaration.map some) ∧ ∃ name, t.symbol? q = some name := by
  generalize hlink : (⟨StoreKey.encode key, q⟩ : Link) = link at h
  cases h with
  | @referencer declaration key' q' _ hnames hname =>
    obtain ⟨hkey, rfl⟩ := Link.mk.inj hlink
    rw [StoreKey.encode_eq_iff.1 hkey]
    exact ⟨⟨declaration, hnames⟩, _, hname⟩
  | referenced => exact absurd (Link.mk.inj hlink).1 (encode_declaration_ne _ _)
  | subclass => exact absurd (Link.mk.inj hlink).1 (encode_declaration_ne _ _)

/-- The numbers in the indices by class have names. -/
theorem LinkOf.class_names {q r : SymbolId} (h : LinkOf t document ⟨StoreKey.encode q, r⟩) :
    (∃ name, t.symbol? q = some name) ∧ ∃ name, t.symbol? r = some name := by
  generalize hlink : (⟨StoreKey.encode q, r⟩ : Link) = link at h
  cases h with
  | referencer => exact absurd (Link.mk.inj hlink).1.symm (encode_declaration_ne _ _)
  | referenced _ hname howner =>
    obtain ⟨hkey, rfl⟩ := Link.mk.inj hlink
    rw [StoreKey.encode_eq_iff.1 hkey]
    exact ⟨⟨_, hname⟩, _, howner⟩
  | subclass _ hsuper hname =>
    obtain ⟨hkey, rfl⟩ := Link.mk.inj hlink
    rw [StoreKey.encode_eq_iff.1 hkey]
    exact ⟨⟨_, hsuper⟩, _, hname⟩

theorem map_symbol?_of_le (hgrow : t ≤ u) {key : DeclarationKey} {declaration : Declaration String}
    (h : key.map t.symbol? = declaration.map some) : key.map u.symbol? = key.map t.symbol? := by
  have hread {id : SymbolId} {name : String} (hname : t.symbol? id = some name) : u.symbol? id = t.symbol? id :=
    (SymbolTable.symbol?_of_le hgrow hname).trans hname.symm
  cases key <;> cases declaration <;>
    simp only [Declaration.map, Declaration.type.injEq, Declaration.field.injEq, Declaration.method.injEq,
      reduceCtorEq] at h ⊢
  case type.type => exact hread h
  case field.field => exact ⟨hread h.1, hread h.2⟩
  case method.method => exact ⟨hread h.1, hread h.2.1, hread h.2.2⟩

theorem IsRecord.map_of_le (hgrow : t ≤ u) (hsize : u.size ≤ limit) {key : Bytes} {record : ClassRecord}
    (h : IsRecord documents t key record) : record.map u.symbol? u.meaning? = record.map t.symbol? t.meaning? := by
  obtain ⟨d, -, hknows, -, hrecord⟩ := h
  have hlater := numbered_map_meaning? (hknows.mono hgrow) hsize
  have hnow := numbered_map_meaning? hknows (Nat.le_trans (SymbolTable.size_le_of_le hgrow) hsize)
  rw [hknows.numbered_eq hgrow, ← hnow] at hlater
  obtain rfl | rfl := hrecord
  · exact hlater
  · exact congrArg ClassShape.withoutReferences hlater

theorem IsRecord.exists_name (hsize : t.size ≤ limit) {q : SymbolId} {record : ClassRecord}
    (h : IsRecord documents t (StoreKey.encode q) record) : ∃ name, t.symbol? q = some name := by
  obtain ⟨d, -, hknows, hkey, -⟩ := h
  rw [StoreKey.encode_eq_iff.1 hkey]
  exact ⟨d.name, symbol?_numbered_name hknows hsize⟩

/-- A table that grows keeps the names of everything in a cache. -/
theorem Recorded.named_of_le (h : c.Recorded documents t) (hgrow : t ≤ u) (hsize : u.size ≤ limit) :
    c.named u = c.named t := by
  have hsize' : t.size ≤ limit := Nat.le_trans (SymbolTable.size_le_of_le hgrow) hsize
  have hread {id : SymbolId} (hname : ∃ name, t.symbol? id = some name) : u.symbol? id = t.symbol? id := by
    obtain ⟨name, hname⟩ := hname
    rw [hname, SymbolTable.symbol?_of_le hgrow hname]
  have hclasses {q r : SymbolId} (hedge : IsEdge documents t ⟨StoreKey.encode q, r⟩) :
      (u.symbol? q, u.symbol? r) = (t.symbol? q, t.symbol? r) := by
    obtain ⟨d, -, hlink⟩ := hedge.linkOf hsize'
    obtain ⟨hq, hr⟩ := hlink.class_names
    rw [hread hq, hread hr]
  ext x
  · refine exists_congr fun q => exists_congr fun record => and_congr_right fun hrow => ?_
    obtain ⟨written, hbytes, hrecord⟩ := h.classes.rows _ _ hrow
    obtain rfl := exact_record.toBytes_injective hbytes
    rw [hread (hrecord.exists_name hsize'), hrecord.map_of_le hgrow hsize]
  · refine exists_congr fun q => exists_congr fun value => and_congr_right fun hrow => ?_
    obtain ⟨_, -, hrecord⟩ := h.remote _ _ hrow
    rw [hread (hrecord.exists_name hsize')]
  · refine exists_congr fun key => exists_congr fun q => and_congr_right fun hedge => ?_
    obtain ⟨d, -, hlink⟩ := (h.referencers _ hedge).linkOf hsize'
    obtain ⟨⟨declaration, hkey⟩, hq⟩ := hlink.referencer_names
    rw [map_symbol?_of_le hgrow hkey, hread hq]
  · refine exists_congr fun q => exists_congr fun owner => and_congr_right fun hedge => ?_
    rw [hclasses (h.referenced _ hedge)]
  · refine exists_congr fun supertype => exists_congr fun q => and_congr_right fun hedge => ?_
    rw [hclasses (h.subclasses _ hedge)]

/-! ## Imports -/

section Imported

variable (hknows : t.Knows document) (hnodup : t.symbols.Nodup) (hsize : t.size ≤ limit)

include hknows hsize

theorem symbol?_owner {declaration : Declaration String} (hmem : declaration ∈ document.references) :
    t.symbol? (declaration.map t.number).owner = some declaration.owner := by
  rw [← owner_map t.symbol?, map_number_map_symbol? hknows hsize hmem, owner_map]

theorem referencers_imported (c : Cache) : ((c.imported (document.numbered t)).named t).referencers =
    ((c.named t).imported document).referencers := by
  have hname := symbol?_numbered_name hknows hsize
  ext edge
  constructor
  · rintro ⟨key, q, hedge, rfl⟩
    obtain ⟨key', hkey, hsame⟩ | hold := mem_referencer_links_imported.1 hedge
    · obtain ⟨hencoded, rfl⟩ := Link.mk.inj hsame
      obtain rfl := StoreKey.encode_eq_iff.1 hencoded
      obtain ⟨declaration, hmem, rfl⟩ := List.mem_map.1 hkey
      exact .inl ⟨declaration, hmem, by rw [map_number_map_symbol? hknows hsize hmem, hname]⟩
    · exact .inr ⟨key, q, hold, rfl⟩
  · rintro (⟨declaration, hmem, rfl⟩ | ⟨key, q, hedge, rfl⟩)
    · refine ⟨declaration.map t.number, _, mem_referencer_links_imported.2 (.inl ⟨_, List.mem_map_of_mem hmem, rfl⟩), ?_⟩
      rw [map_number_map_symbol? hknows hsize hmem, hname]
    · exact ⟨key, q, mem_referencer_links_imported.2 (.inr hedge), rfl⟩

theorem subclasses_imported (c : Cache) : ((c.imported (document.numbered t)).named t).subclasses =
    ((c.named t).imported document).subclasses := by
  have hname := symbol?_numbered_name hknows hsize
  have hsuper {name : String} (hmem : name ∈ document.normal.super.toList ++ document.interfaces) :
      t.symbol? (t.number name) = some name :=
    SymbolTable.symbol?_number (mem_symbols_of_supertype hknows hmem) hsize
  ext edge
  constructor
  · rintro ⟨supertype, q, hedge, rfl⟩
    obtain ⟨supertype', hsupertype, hsame⟩ | hold := mem_subclass_links_imported.1 hedge
    · obtain ⟨hencoded, rfl⟩ := Link.mk.inj hsame
      obtain rfl := StoreKey.encode_eq_iff.1 hencoded
      obtain ⟨name, hmem, rfl⟩ := (mem_supertypes_numbered hknows hsize).1 hsupertype
      exact .inl ⟨name, hmem, by rw [hsuper hmem, hname]⟩
    · exact .inr ⟨supertype, q, hold, rfl⟩
  · rintro (⟨name, hmem, rfl⟩ | ⟨supertype, q, hedge, rfl⟩)
    · refine ⟨t.number name, _, mem_subclass_links_imported.2 (.inl ⟨_, ?_, rfl⟩), by rw [hsuper hmem, hname]⟩
      exact (mem_supertypes_numbered hknows hsize).2 ⟨name, hmem, rfl⟩
    · exact ⟨supertype, q, mem_subclass_links_imported.2 (.inr hedge), rfl⟩

include hnodup

theorem symbol?_eq_name_iff {q : SymbolId} :
    t.symbol? q = some document.name ↔ q = (document.numbered t).name :=
  ⟨fun h => SymbolTable.symbol?_inj hnodup h (symbol?_numbered_name hknows hsize),
    fun h => h ▸ symbol?_numbered_name hknows hsize⟩

theorem referenced_imported (c : Cache) : ((c.imported (document.numbered t)).named t).referenced =
    ((c.named t).imported document).referenced := by
  have hname := symbol?_numbered_name hknows hsize
  -- A class refers to itself by its number if it does so by its name.
  have howner {declaration : Declaration String} (hmem : declaration ∈ document.references) :
      (declaration.map t.number).owner = (document.numbered t).name ↔ declaration.owner = document.name := by
    rw [← symbol?_eq_name_iff hknows hnodup hsize, symbol?_owner hknows hsize hmem, Option.some_inj]
  ext edge
  constructor
  · rintro ⟨q, owner, hedge, rfl⟩
    obtain ⟨key, hkey, hne, hsame⟩ | hold := mem_referenced_links_imported.1 hedge
    · obtain ⟨hencoded, rfl⟩ := Link.mk.inj hsame
      obtain rfl := StoreKey.encode_eq_iff.1 hencoded
      obtain ⟨declaration, hmem, rfl⟩ := List.mem_map.1 hkey
      exact .inl ⟨declaration, hmem, (howner hmem).not.1 hne, by rw [hname, symbol?_owner hknows hsize hmem]⟩
    · exact .inr ⟨q, owner, hold, rfl⟩
  · rintro (⟨declaration, hmem, hne, rfl⟩ | ⟨q, owner, hedge, rfl⟩)
    · refine ⟨_, _, mem_referenced_links_imported.2
        (.inl ⟨_, List.mem_map_of_mem hmem, (howner hmem).not.2 hne, rfl⟩), ?_⟩
      rw [hname, symbol?_owner hknows hsize hmem]
    · exact ⟨q, owner, mem_referenced_links_imported.2 (.inr hedge), rfl⟩

theorem records_imported (c : Cache) : ((c.imported (document.numbered t)).named t).records =
    ((c.named t).imported document).records := by
  have hname := symbol?_numbered_name hknows hsize
  have hrecord : (document.numbered t).withoutReferences.map t.symbol? t.meaning? =
      document.normal.withoutReferences.map some some :=
    congrArg ClassShape.withoutReferences (numbered_map_meaning? hknows hsize)
  have hkey {q : SymbolId} :
      StoreKey.encode q = StoreKey.encode (document.numbered t).name ↔ t.symbol? q = some document.name :=
    StoreKey.encode_eq_iff.trans (symbol?_eq_name_iff hknows hnodup hsize).symm
  ext row
  constructor
  · rintro ⟨q, record, hrow, rfl⟩
    rw [rows_imported, Ordered.Map.get?_insert] at hrow
    split at hrow
    · rename_i hsame
      obtain rfl := exact_record.toBytes_injective (Option.some.inj hrow)
      rw [hkey.1 hsame, hrecord]
      exact .inl rfl
    · rename_i hother
      exact .inr ⟨⟨q, record, hrow, rfl⟩, hkey.not.1 hother⟩
  · rintro (rfl | ⟨⟨q, record, hrow, rfl⟩, hne⟩)
    · refine ⟨_, _, ?_, Prod.ext hname.symm hrecord.symm⟩
      rw [rows_imported, Ordered.Map.get?_insert, if_pos rfl]
    · refine ⟨q, record, ?_, rfl⟩
      rw [rows_imported, Ordered.Map.get?_insert, if_neg (hkey.not.2 hne), hrow]

/-- Importing a document with the numbers of its names is importing it by names. -/
theorem named_imported (c : Cache) :
    (c.imported (document.numbered t)).named t = (c.named t).imported document := by
  refine Named.ext (records_imported hknows hnodup hsize c) ?_ (referencers_imported hknows hsize c)
    (referenced_imported hknows hnodup hsize c) (subclasses_imported hknows hsize c)
  simp only [named, remote_imported, Named.imported]

end Imported

/-- Documents that are imported one after the other. -/
theorem named_foldl_imported (hknows : ∀ d ∈ documents, t.Knows d) (hnodup : t.symbols.Nodup) (hsize : t.size ≤ limit)
    (c : Cache) :
    (documents.foldl (fun c d => c.imported (d.numbered t)) c).named t = documents.foldl Named.imported (c.named t) := by
  induction documents generalizing c with
  | nil => rfl
  | cons d documents ih =>
    rw [List.forall_mem_cons] at hknows
    rw [List.foldl_cons, List.foldl_cons, ih hknows.2, named_imported hknows.1 hnodup hsize]

/-! ## Documents that are imported again -/

namespace Named

variable {x y : Named} {row : Option String × ClassShape (Option String) (Option (Option String))}

/-- What importing adds stays, and is there once. -/
theorem foldl_union {α : Type} (part : Named → Set α) {edges : ClassDocument → Set α}
    (h : ∀ x d, part (imported x d) = edges d ∪ part x) (documents : List ClassDocument) (x : Named) :
    part (documents.foldl imported x) = {edge | ∃ d ∈ documents, edge ∈ edges d} ∪ part x := by
  induction documents generalizing x with
  | nil => simp
  | cons d documents ih =>
    ext edge
    simp only [List.foldl_cons, ih, h, Set.mem_union, Set.mem_ofPred_eq, List.exists_mem_cons_iff]
    rw [or_left_comm, or_assoc]

theorem foldl_union_again {α : Type} (part : Named → Set α) {edges : ClassDocument → Set α}
    (h : ∀ x d, part (imported x d) = edges d ∪ part x) (documents others : List ClassDocument) (x : Named) :
    part ((documents ++ others).foldl imported (documents.foldl imported x)) =
      part ((documents ++ others).foldl imported x) := by
  ext edge
  simp only [foldl_union part h, Set.mem_union, Set.mem_ofPred_eq, List.mem_append]
  refine ⟨?_, .imp_right .inr⟩
  rintro (hadded | ⟨d, hd, hedge⟩ | hold)
  · exact .inl hadded
  · exact .inl ⟨d, .inl hd, hedge⟩
  · exact .inr hold

theorem mem_records_imported {d : ClassDocument} : row ∈ (x.imported d).records ↔
    row = (some d.name, d.normal.withoutReferences.map some some) ∨ row ∈ x.records ∧ row.1 ≠ some d.name :=
  Iff.rfl

/-- Records of other classes stay. -/
theorem mem_records_foldl (h : ∀ d ∈ documents, row.1 ≠ some d.name) :
    row ∈ (documents.foldl imported x).records ↔ row ∈ x.records := by
  induction documents generalizing x with
  | nil => rfl
  | cons d documents ih =>
    rw [List.forall_mem_cons] at h
    rw [List.foldl_cons, ih h.2, mem_records_imported, and_iff_left h.1]
    exact or_iff_right fun heq => h.1 (congrArg Prod.fst heq)

/-- Records of the classes of documents are those of the last documents, whatever there was before. -/
theorem records_foldl_congr
    (h : ∀ row, (∀ d ∈ documents, row.1 ≠ some d.name) → (row ∈ x.records ↔ row ∈ y.records)) :
    (documents.foldl imported x).records = (documents.foldl imported y).records := by
  induction documents generalizing x y with
  | nil => exact Set.ext fun row => h row (List.forall_mem_nil _)
  | cons d documents ih =>
    refine ih fun row hrow => ?_
    rw [mem_records_imported, mem_records_imported]
    refine or_congr_right (and_congr_left fun hne => ?_)
    exact h row (List.forall_mem_cons.2 ⟨hne, hrow⟩)

/-- Some documents that are imported before all of them are imported make no difference. -/
theorem foldl_imported_again (documents others : List ClassDocument) (x : Named) :
    (documents ++ others).foldl imported (documents.foldl imported x) = (documents ++ others).foldl imported x := by
  have hstep (x : Named) (d : ClassDocument) : (x.imported d).remote = x.remote := rfl
  have hremote := foldl_keeps remote hstep
  refine Named.ext ?_ ?_ ?_ ?_ ?_
  · refine records_foldl_congr fun row hrow => mem_records_foldl fun d hd => hrow d (List.mem_append_left _ hd)
  · rw [hremote, hremote, hremote]
  · exact foldl_union_again referencers (fun _ _ => rfl) documents others x
  · exact foldl_union_again referenced (fun _ _ => rfl) documents others x
  · exact foldl_union_again subclasses (fun _ _ => rfl) documents others x

end Named

end Cache

end ClassDeps
