import ClassDeps.Proofs.Cache.Edges

/-!
# Importing classes

Importing documents and indexing each of their classes at once, one after the other, succeeds if all documents can
be interned and their records can be read. What it leaves is a function of the documents and of the final numbers
of names: one record for each document, and one edge for each of its references.

## Main definitions

* `importIndexed`, `importAll` — documents that are imported and indexed
* `Indexed` — what a cache holds of some documents

## Main statements

* `Indexed.step` — indexing one more document
* `importAll_eq_ok` — importing succeeds, and the cache holds the documents
* `of_importAll_eq_ok` — what follows if it succeeds
-/

namespace ClassDeps

open Json (depthLimit)
open SymbolTable (limit)

/-- The record of a document with the numbers of a table. -/
def ClassShape.numbered (t : SymbolTable) (document : ClassDocument) : ClassRecord :=
  document.normal.map t.number t.optionalNumber

namespace Cache

/-- Imports a document and indexes its class. -/
def importIndexed (document : ClassDocument) (table : SymbolTable) (c : Cache) :
    Except CacheError (SymbolTable × Cache) :=
  match (importDocument document table).run c with
  | ((.error error, _), _) => .error error
  | ((.ok q, table), c) =>
    match c.perform (indexReferences q) with
    | (.error error, _) => .error error
    | (.ok (), c) => .ok (table, c)

/-- Imports documents in their order, up to the first that fails. -/
def importAll (documents : List ClassDocument) (table : SymbolTable) (c : Cache) :
    Except CacheError (SymbolTable × Cache) :=
  documents.foldlM (fun state document => importIndexed document state.1 state.2) (table, c)

variable {c d : Cache} {q : SymbolId} {record : ClassRecord} {document : ClassDocument}
  {documents before : List ClassDocument} {t u table : SymbolTable}

/-! ## One document -/

/-- The cache after a record was stored and its class was indexed. -/
def imported (c : Cache) (record : ClassRecord) : Cache :=
  (({ c with classes := c.classes.put record.name record } : Cache).after
    (getClass record.name)).indexed record.name record

theorem holds_imported (hfits : c.classes.memory.Fits) (record : ClassRecord) :
    (c.imported record).classes.Holds record.name (some record.withoutReferences) := by
  have hput : (c.classes.put record.name record).memory.Fits := hfits.insert _ record
  have hget := KeyValueStore.fits_get hput record.name
  rw [imported, (indexed_eq _ _ _).1, after_getClass]
  exact .put hget record.name record.withoutReferences

theorem steps_imported (c : Cache) (record : ClassRecord) :
    Steps (· = record.name) c (c.imported record) := by
  have hrefl : Steps (· = record.name) c c := .refl c
  exact ((hrefl.put rfl record).getClass record.name).indexed rfl record

theorem mem_referencer_links_imported {edge : Link} :
    edge ∈ (c.imported record).referencers.links ↔
      (∃ key ∈ record.references, edge = ⟨StoreKey.encode key, record.name⟩) ∨ edge ∈ c.referencers.links := by
  rw [imported, mem_referencer_links_indexed, after_getClass]

theorem mem_referenced_links_imported {edge : Link} :
    edge ∈ (c.imported record).referenced.links ↔
      (∃ key ∈ record.references, key.owner ≠ record.name ∧ edge = ⟨StoreKey.encode record.name, key.owner⟩) ∨
        edge ∈ c.referenced.links := by
  rw [imported, mem_referenced_links_indexed, after_getClass]

theorem mem_subclass_links_imported {edge : Link} :
    edge ∈ (c.imported record).subclasses.links ↔
      (∃ supertype ∈ record.supertypes, edge = ⟨StoreKey.encode supertype, record.name⟩) ∨
        edge ∈ c.subclasses.links := by
  rw [imported, mem_subclass_links_indexed, after_getClass]

theorem mem_referencers_imported {r : SymbolId} {key : DeclarationKey} :
    r ∈ (c.imported record).referencers.values key ↔
      (key ∈ record.references ∧ r = record.name) ∨ r ∈ c.referencers.values key := by
  rw [imported, mem_referencers_indexed, after_getClass]

theorem mem_referenced_imported {r t : SymbolId} :
    t ∈ (c.imported record).referenced.values r ↔
      (r = record.name ∧ t ≠ record.name ∧ ∃ key ∈ record.references, key.owner = t) ∨
        t ∈ c.referenced.values r := by
  rw [imported, mem_referenced_indexed, after_getClass]

theorem mem_subclasses_imported {s t : SymbolId} :
    s ∈ (c.imported record).subclasses.values t ↔
      (t ∈ record.supertypes ∧ s = record.name) ∨ s ∈ c.subclasses.values t := by
  rw [imported, mem_subclasses_indexed, after_getClass]

/-- Importing and indexing a document whose record can be read is interning it. -/
theorem importIndexed_eq (hfits : c.classes.memory.Fits) (hnesting : document.nesting ≤ depthLimit)
    (table : SymbolTable) :
    importIndexed document table c = match document.intern table with
      | (.ok record, table) => .ok (table, c.imported record)
      | (.error error, _) => .error error := by
  rw [importIndexed, run_importDocument]
  match hintern : document.intern table with
  | (.error error, _) => rfl
  | (.ok record, after) =>
    -- With a capacity of 0 the index pass reads the row that the import has just written.
    let stored : Cache := { c with classes := c.classes.put record.name record }
    have hholds : stored.classes.Holds record.name (some record) := .put hfits record.name record
    have hdepth : record.nesting ≤ depthLimit := by
      rw [ClassShape.nesting_of_intern hintern]
      exact hnesting
    have hanswer := answer_getClass_of_holds hholds
    rw [if_pos (.inl hdepth)] at hanswer
    simp only
    rw [perform_indexReferences, perform_of_answer hanswer]
    rfl

/-! ## What a cache holds of documents -/

/-- A cache holds some documents: one record for each of them, without its references, and the edges of all their
references. The table has the numbers of all their names. -/
structure Indexed (table : SymbolTable) (documents : List ClassDocument) (c : Cache) : Prop where
  fits : c.classes.memory.Fits
  stored : ∀ d ∈ documents,
    c.classes.Holds (table.number d.name) (some (d.numbered table).withoutReferences)
  vacant : ∀ q, (∀ d ∈ documents, table.number d.name ≠ q) → c.classes.Holds q none
  mem_referencers : ∀ {key : DeclarationKey} {r : SymbolId}, r ∈ c.referencers.values key ↔
    ∃ d ∈ documents, key ∈ (d.numbered table).references ∧ r = table.number d.name

namespace Indexed

theorem fresh (table : SymbolTable) (root : String) (capacity : Nat) :
    Indexed table [] (Cache.fresh root capacity) where
  fits := Lru.fits_new capacity
  stored := List.forall_mem_nil _
  vacant q _ := .ofRows_empty _ capacity q
  mem_referencers := by
    intro key r
    exact iff_of_false List.not_mem_nil (by simp)

/-- A document with another name is added to those that a cache holds when it is imported and indexed. -/
theorem step (h : Indexed table before c) (hsize : table.size ≤ limit)
    (hbefore : ∀ d ∈ before, d.name ∈ table.symbols) (hmem : document.name ∈ table.symbols)
    (hnew : ∀ d ∈ before, d.name ≠ document.name) :
    Indexed table (before ++ [document]) (c.imported (document.numbered table)) where
  fits := (steps_imported c _).classes.fits h.fits
  stored := by
    intro d hd
    obtain hd | hd := List.mem_append.1 hd
    -- The steps of an import write no record but that of its own class.
    · refine (steps_imported c _).classes.holds exact_record ?_ (h.stored d hd)
      exact fun heq => hnew d hd (SymbolTable.number_inj hsize (hbefore d hd) hmem heq)
    · rw [List.mem_singleton.1 hd]
      exact holds_imported h.fits (document.numbered table)
  vacant := by
    intro q hq
    rw [List.forall_mem_append, List.forall_mem_singleton] at hq
    exact (steps_imported c _).classes.holds exact_record (fun heq => hq.2 heq.symm) (h.vacant q hq.1)
  mem_referencers := by
    intro key r
    have hname : (document.numbered table).name = table.number document.name := rfl
    rw [mem_referencers_imported, h.mem_referencers, hname]
    simp only [List.mem_append, List.mem_singleton, or_and_right, exists_or, exists_eq_left]
    exact or_comm

end Indexed

/-! ## All documents -/

theorem importAll_cons (document : ClassDocument) (documents : List ClassDocument) (t : SymbolTable)
    (c : Cache) :
    importAll (document :: documents) t c =
      (importIndexed document t c).bind fun state => importAll documents state.1 state.2 := rfl

/-- Importing succeeds, and the cache holds the documents afterwards. -/
theorem importAll_eq_ok (hsize : table.size ≤ limit) (hnesting : ∀ d ∈ documents, d.nesting ≤ depthLimit)
    (hwf : ∀ d ∈ documents, d.WellFormed) (htable : table = t.extend (documents.flatMap (·.normal.names)))
    (hbefore : ∀ d ∈ before, d.name ∈ table.symbols)
    (hnames : ((before ++ documents).map (·.name)).Nodup) (hc : Indexed table before c) :
    ∃ d, importAll documents t c = .ok (table, d) ∧ Indexed table (before ++ documents) d := by
  induction documents generalizing before t c with
  | nil =>
    rw [List.append_nil]
    exact ⟨c, congrArg (fun t => Except.ok (t, c)) htable.symm, hc⟩
  | cons document documents ih =>
    rw [List.forall_mem_cons] at hnesting hwf
    rw [List.flatMap_cons, SymbolTable.extend_append] at htable
    have hgrow : t.extend document.normal.names ≤ table := htable ▸ SymbolTable.le_extend _ _
    have hmem : ∀ name ∈ document.normal.names, name ∈ (t.extend document.normal.names).symbols :=
      fun name h => SymbolTable.mem_extend.2 (.inr h)
    have hname : document.name ∈ table.symbols :=
      SymbolTable.mem_of_le hgrow (hmem _ List.mem_cons_self)
    -- The final table has the numbers that the record gets.
    have hintern := document.describes_intern.run t hwf.1
      (Nat.le_trans (SymbolTable.size_le_of_le hgrow) hsize)
    rw [← ClassShape.map_number_of_le hgrow hmem] at hintern
    have hnew : ∀ d ∈ before, d.name ≠ document.name := by
      intro d hd heq
      rw [List.map_append, List.nodup_append] at hnames
      exact hnames.2.2 _ (List.mem_map_of_mem hd) _ List.mem_cons_self heq
    have hstep := hc.step hsize hbefore hname hnew
    rw [importAll_cons, importIndexed_eq hc.fits hnesting.1, hintern]
    rw [List.append_cons] at hnames ⊢
    refine ih hnesting.2 hwf.2 htable ?_ hnames hstep
    rw [List.forall_mem_append, List.forall_mem_singleton]
    exact ⟨hbefore, hname⟩

theorem importAll_fresh_eq_ok (hsize : table.size ≤ limit)
    (hnesting : ∀ d ∈ documents, d.nesting ≤ depthLimit) (hwf : ∀ d ∈ documents, d.WellFormed)
    (htable : table = SymbolTable.empty.extend (documents.flatMap (·.normal.names)))
    (hnames : (documents.map (·.name)).Nodup) (root : String) (capacity : Nat) :
    ∃ d, importAll documents .empty (fresh root capacity) = .ok (table, d) ∧
      Indexed table documents d := by
  have hfresh : Indexed table [] (fresh root capacity) := .fresh table root capacity
  exact importAll_eq_ok hsize hnesting hwf htable (List.forall_mem_nil _) (by exact hnames) hfresh

/-- Importing succeeds only if all documents can be interned and there is room for their names. -/
theorem of_importAll_eq_ok (h : importAll documents t c = .ok (table, d)) :
    (∀ document ∈ documents, document.WellFormed) ∧
      table = t.extend (documents.flatMap (·.normal.names)) ∧ (t.size ≤ limit → table.size ≤ limit) := by
  induction documents generalizing t c with
  | nil =>
    cases h
    exact ⟨List.forall_mem_nil _, rfl, fun hsize => hsize⟩
  | cons document documents ih =>
    rw [importAll_cons, importIndexed, run_importDocument] at h
    match hintern : document.intern t with
    | (.error error, _) =>
      rw [hintern] at h
      cases h
    | (.ok record, u) =>
      obtain ⟨hwf, rfl, -, hroom⟩ := document.describes_intern.eq_of_run t u record hintern
      rw [hintern] at h
      simp only at h
      split at h
      · cases h
      · obtain ⟨hwfs, htable, hrooms⟩ := ih h
        rw [List.flatMap_cons, SymbolTable.extend_append]
        exact ⟨List.forall_mem_cons.2 ⟨hwf, hwfs⟩, htable, fun hsize => hrooms (hroom hsize)⟩

end Cache

end ClassDeps
