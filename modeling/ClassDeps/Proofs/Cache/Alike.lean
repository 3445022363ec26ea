import ClassDeps.Proofs.Cache.Recompilation

/-!
# Caches that hold the same

What an import does depends on the rows and edges of a cache and on how much its memory can hold, but not on what is in
memory. So caches that hold the same still do after the same import, whatever each of them remembers.

## Main definitions

* `Cache.Alike` — two caches with the same rows and edges

## Main statements

* `importIndexed_eq_ok_iff` — when a document is imported and indexed
* `Alike.importIndexed` — an import into two caches that hold the same
-/

namespace ClassDeps.Cache

open Json (depthLimit)
open SymbolTable (limit)

variable {c c' d d' : Cache} {q : SymbolId} {record : ClassRecord} {document : ClassDocument}
  {documents : List ClassDocument} {table table' after : SymbolTable}

/-- Two caches have the same rows and edges, and the same room in their memories. -/
structure Alike (c c' : Cache) : Prop where
  rows : c'.classes.rows = c.classes.rows
  remote : c'.remote.rows = c.remote.rows
  referencers : c'.referencers.links = c.referencers.links
  referenced : c'.referenced.links = c.referenced.links
  subclasses : c'.subclasses.links = c.subclasses.links
  capacity : c'.classes.memory.capacity = c.classes.memory.capacity
  fits : c.classes.memory.Fits
  fits' : c'.classes.memory.Fits

namespace Alike

theorem put (h : c.Alike c') (q : SymbolId) (record : ClassRecord) :
    Alike { c with classes := c.classes.put q record } { c' with classes := c'.classes.put q record } :=
  { h with
    rows := congrArg (·.insert (StoreKey.encode q) (Storable.form.toBytes record)) h.rows
    capacity := by simpa only [KeyValueStore.put, Lru.capacity_insert] using h.capacity
    fits := h.fits.insert _ record
    fits' := h.fits'.insert _ record }

theorem getClass (h : c.Alike c') (q : SymbolId) : Alike (c.after (getClass q)) (c'.after (getClass q)) := by
  rw [after_getClass, after_getClass]
  exact { h with
    rows := by simpa only [KeyValueStore.rows_get] using h.rows
    capacity := by simpa only [KeyValueStore.capacity_get] using h.capacity
    fits := KeyValueStore.fits_get h.fits q
    fits' := KeyValueStore.fits_get h.fits' q }

theorem link (h : c.Alike c') (q : SymbolId) (key : DeclarationKey) : Alike (link q c key) (link q c' key) :=
  { h with
    referencers := congrArg (·.insert ⟨StoreKey.encode key, q⟩) h.referencers
    referenced := by
      unfold Cache.link
      simp only
      split
      · exact congrArg (·.insert ⟨StoreKey.encode q, key.owner⟩) h.referenced
      · exact h.referenced }

theorem inherit (h : c.Alike c') (q supertype : SymbolId) :
    Alike (inherit q c supertype) (inherit q c' supertype) :=
  { h with subclasses := congrArg (·.insert ⟨StoreKey.encode supertype, q⟩) h.subclasses }

/-- The same steps keep caches alike. -/
theorem foldl {α : Type} {step : Cache → α → Cache}
    (hstep : ∀ {c c' : Cache}, c.Alike c' → ∀ x, Alike (step c x) (step c' x)) (xs : List α) (h : c.Alike c') :
    Alike (xs.foldl step c) (xs.foldl step c') := by
  induction xs generalizing c c' with
  | nil => exact h
  | cons x xs ih => exact ih (hstep h x)

theorem indexed (h : c.Alike c') (q : SymbolId) (record : ClassRecord) :
    Alike (c.indexed q record) (c'.indexed q record) :=
  ((h.foldl (fun h key => h.link q key) record.references).foldl
    (fun h supertype => h.inherit q supertype) record.supertypes).put q record.withoutReferences

theorem imported (h : c.Alike c') (record : ClassRecord) : Alike (c.imported record) (c'.imported record) :=
  ((h.put record.name record).getClass record.name).indexed record.name record

end Alike

/-! ## Imports -/

/-- A record that was just stored is indexed if it is remembered, or nests no deeper than readers follow. -/
theorem perform_indexReferences_put (hfits : c.classes.memory.Fits) (record : ClassRecord) :
    ({ c with classes := c.classes.put record.name record } : Cache).perform (indexReferences record.name) =
        (.ok (), d) ↔
      (record.nesting ≤ depthLimit ∨ c.classes.memory.capacity ≠ 0) ∧ d = c.imported record := by
  let stored : Cache := { c with classes := c.classes.put record.name record }
  have hholds : stored.classes.Holds record.name (some record) := .put hfits record.name record
  have hremembered : stored.classes.memory.contains (StoreKey.encode record.name) ↔
      c.classes.memory.capacity ≠ 0 := by
    refine ⟨fun hmemory hcapacity => ?_, fun hcapacity => KeyValueStore.memory_contains_put hcapacity _ _⟩
    have hstored : stored.classes.memory.Fits := hfits.insert (StoreKey.encode record.name) record
    have hnone := hstored ((Lru.capacity_insert ..).trans hcapacity) (StoreKey.encode record.name)
    rw [Lru.contains_eq, hnone] at hmemory
    cases hmemory
  have hanswer := answer_getClass_of_holds hholds
  simp only [hremembered] at hanswer
  constructor
  · intro h
    obtain ⟨hd, -⟩ := of_indexReferences hfits h
    refine ⟨?_, hd⟩
    by_contra hnot
    have hindexed : stored.answer (indexReferences record.name) = .ok () := congrArg Prod.fst h
    rw [answer_indexReferences, hanswer, if_neg hnot] at hindexed
    cases hindexed
  · rintro ⟨hreadable, rfl⟩
    rw [if_pos hreadable] at hanswer
    rw [perform_indexReferences, perform_of_answer hanswer]
    rfl

theorem importIndexed_eq_ok_iff (hfits : c.classes.memory.Fits) :
    importIndexed document table c = .ok (after, d) ↔ ∃ record, document.intern table = (.ok record, after) ∧
      (record.nesting ≤ depthLimit ∨ c.classes.memory.capacity ≠ 0) ∧ d = c.imported record := by
  rw [importIndexed, run_importDocument]
  rcases document.intern table with ⟨error | record, grown⟩
  · constructor
    · intro h
      cases h
    · rintro ⟨_, h, _⟩
      cases h
  · simp only
    have hindex := perform_indexReferences_put (d := d) hfits record
    constructor
    · intro h
      split at h
      · cases h
      · rename_i hperform
        cases h
        exact ⟨record, rfl, hindex.1 hperform⟩
    · rintro ⟨_, hrecord, hreadable⟩
      cases hrecord
      rw [hindex.2 hreadable]

/-- Interning depends on the symbols of a table only. -/
theorem intern_of_symbols_eq (hsize : table.size ≤ limit) (hsymbols : table'.symbols = table.symbols)
    (h : document.intern table = (.ok record, after)) :
    ∃ after', document.intern table' = (.ok record, after') ∧ after'.symbols = after.symbols := by
  have hextend (names : List String) {t t' : SymbolTable} (h : t'.symbols = t.symbols) :
      (t'.extend names).symbols = (t.extend names).symbols := by
    induction names generalizing t t' with
    | nil => exact h
    | cons name names ih =>
      refine ih ?_
      unfold SymbolTable.add
      rw [h]
      split
      · exact h
      · rfl
  have hsame := hextend document.normal.names hsymbols
  have hsize' : table'.size ≤ limit := by rwa [SymbolTable.size, hsymbols]
  obtain ⟨hwf, hroom, rfl, rfl⟩ := (ClassShape.intern_eq_ok_iff hsize).1 h
  refine ⟨_, (ClassShape.intern_eq_ok_iff hsize').2 ⟨hwf, ?_, rfl, ?_⟩, hsame⟩
  · rwa [SymbolTable.size, hsame]
  · have hle : (table'.extend document.normal.names).symbols <+: (table.extend document.normal.names).symbols :=
      hsame ▸ List.prefix_refl _
    exact ClassShape.map_number_of_le hle fun name hname => SymbolTable.mem_extend.2 (.inr hname)

/-- How much the memory of a cache can hold does not change. -/
theorem memory_imported (hfits : c.classes.memory.Fits) (record : ClassRecord) :
    (c.imported record).classes.memory.capacity = c.classes.memory.capacity ∧
      (c.imported record).classes.memory.Fits := by
  refine ⟨?_, (steps_imported c record).classes.fits hfits⟩
  rw [imported, (indexed_eq _ _ _).1, after_getClass]
  simp only [KeyValueStore.put, Lru.capacity_insert, KeyValueStore.capacity_get]

theorem memory_importAll (hfits : c.classes.memory.Fits) (h : importAll documents table c = .ok (after, d)) :
    d.classes.memory.capacity = c.classes.memory.capacity ∧ d.classes.memory.Fits := by
  induction documents generalizing table c with
  | nil =>
    cases h
    exact ⟨rfl, hfits⟩
  | cons document documents ih =>
    rw [importAll_cons] at h
    match hfirst : importIndexed document table c with
    | .error error =>
      rw [hfirst] at h
      cases h
    | .ok (grown, e) =>
      rw [hfirst] at h
      obtain ⟨record, -, -, rfl⟩ := (importIndexed_eq_ok_iff hfits).1 hfirst
      obtain ⟨hcapacity, hfits⟩ := memory_imported hfits record
      obtain ⟨hrest, hfits⟩ := ih hfits h
      exact ⟨hrest.trans hcapacity, hfits⟩

/-- A document that is imported and indexed in one cache is so in any other one that holds the same, and both still
hold the same. -/
theorem Alike.importIndexed (h : c.Alike c') (hsize : table.size ≤ limit) (hsymbols : table'.symbols = table.symbols)
    (himport : importIndexed document table c = .ok (after, d)) :
    ∃ after' d', Cache.importIndexed document table' c' = .ok (after', d') ∧ after'.symbols = after.symbols ∧
      d.Alike d' := by
  obtain ⟨record, hintern, hreadable, rfl⟩ := (importIndexed_eq_ok_iff h.fits).1 himport
  obtain ⟨after', hintern', hsame⟩ := intern_of_symbols_eq hsize hsymbols hintern
  rw [← h.capacity] at hreadable
  exact ⟨after', c'.imported record, (importIndexed_eq_ok_iff h.fits').2 ⟨record, hintern', hreadable, rfl⟩, hsame,
    h.imported record⟩

end ClassDeps.Cache
