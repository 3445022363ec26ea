import ClassDeps.Proofs.Cache.Alike
import ClassDeps.Proofs.Class.Sites

/-!
# The index pass, once and again

The index pass over a class adds the edges of its record, has the record forget its references, and touches nothing
else. Edges are members of sets and rows are values under keys, so that the pass changes nothing where the edges and the
row are there already: neither a second pass nor a second import of the same document does anything.

## Main definitions

* `Cache.IsIndexed` — the edges and the row of a record are there
* `Cache.importPass` — importing and indexing a document, with what is left also if that fails

## Main statements

* `IsIndexed.alike_indexed`, `IsIndexed.alike_imported` — where everything is there, nothing changes
* `indexReferences_again`, `importPass_again` — a second pass
* `indexReferences_exact` — all that the index pass does
-/

namespace ClassDeps.Cache

open Json (depthLimit)

variable {c d : Cache} {q : SymbolId} {record : ClassRecord} {document : ClassDocument} {table grown : SymbolTable}

/-! ## Caches that hold the same -/

namespace Alike

variable {e : Cache}

theorem refl (hfits : c.classes.memory.Fits) : c.Alike c :=
  ⟨rfl, rfl, rfl, rfl, rfl, rfl, hfits, hfits⟩

theorem trans (h : c.Alike d) (h' : d.Alike e) : c.Alike e where
  rows := h'.rows.trans h.rows
  remote := h'.remote.trans h.remote
  referencers := h'.referencers.trans h.referencers
  referenced := h'.referenced.trans h.referenced
  subclasses := h'.subclasses.trans h.subclasses
  capacity := h'.capacity.trans h.capacity
  fits := h.fits
  fits' := h'.fits'

end Alike

/-- A look-up changes no row. -/
theorem alike_getClass (hfits : c.classes.memory.Fits) (q : SymbolId) : c.Alike (c.after (getClass q)) := by
  rw [after_getClass]
  exact { Alike.refl hfits with
    rows := KeyValueStore.rows_get _ _
    capacity := KeyValueStore.capacity_get _ _
    fits' := KeyValueStore.fits_get hfits q }

/-- Storing a row that is there changes no row. -/
theorem alike_put (hfits : c.classes.memory.Fits)
    (hrow : c.classes.rows.get? (StoreKey.encode q) = some (Storable.form.toBytes record)) :
    c.Alike { c with classes := c.classes.put q record } :=
  { Alike.refl hfits with
    rows := Ordered.Map.insert_eq_self hrow
    capacity := Lru.capacity_insert ..
    fits' := hfits.insert (StoreKey.encode q) record }

/-! ## Records that are indexed already -/

/-- All edges of a record are there. -/
structure HasEdges (c : Cache) (q : SymbolId) (record : ClassRecord) : Prop where
  referencers : ∀ key ∈ record.references, ⟨StoreKey.encode key, q⟩ ∈ c.referencers.links
  referenced : ∀ key ∈ record.references, key.owner ≠ q → ⟨StoreKey.encode q, key.owner⟩ ∈ c.referenced.links
  subclasses : ∀ supertype ∈ record.supertypes, ⟨StoreKey.encode supertype, q⟩ ∈ c.subclasses.links

/-- All edges of a record are there, and its row without the references. -/
structure IsIndexed (c : Cache) (q : SymbolId) (record : ClassRecord) : Prop extends HasEdges c q record where
  row : c.classes.rows.get? (StoreKey.encode q) = some (Storable.form.toBytes record.withoutReferences)

/-- The index pass adds no edge that is there. -/
theorem HasEdges.links_indexed (h : c.HasEdges q record) :
    (c.indexed q record).referencers.links = c.referencers.links ∧
      (c.indexed q record).referenced.links = c.referenced.links ∧
      (c.indexed q record).subclasses.links = c.subclasses.links := by
  refine ⟨Ordered.Set.ext_mem fun edge => mem_referencer_links_indexed.trans (or_iff_right_of_imp ?_),
    Ordered.Set.ext_mem fun edge => mem_referenced_links_indexed.trans (or_iff_right_of_imp ?_),
    Ordered.Set.ext_mem fun edge => mem_subclass_links_indexed.trans (or_iff_right_of_imp ?_)⟩
  · rintro ⟨key, hkey, rfl⟩
    exact h.referencers key hkey
  · rintro ⟨key, hkey, howner, rfl⟩
    exact h.referenced key hkey howner
  · rintro ⟨supertype, hsuper, rfl⟩
    exact h.subclasses supertype hsuper

theorem rows_indexed (c : Cache) (q : SymbolId) (record : ClassRecord) : (c.indexed q record).classes.rows =
    c.classes.rows.insert (StoreKey.encode q) (Storable.form.toBytes record.withoutReferences) := by
  rw [(indexed_eq _ _ _).1, KeyValueStore.put]

theorem rows_imported (c : Cache) (record : ClassRecord) : (c.imported record).classes.rows =
    c.classes.rows.insert (StoreKey.encode record.name) (Storable.form.toBytes record.withoutReferences) := by
  rw [imported, rows_indexed, after_getClass, KeyValueStore.rows_get, KeyValueStore.put, Ordered.Map.insert_insert]

theorem remote_imported (c : Cache) (record : ClassRecord) : (c.imported record).remote = c.remote := by
  rw [imported, (indexed_eq _ _ _).2.1, after_getClass]

theorem isIndexed_indexed (c : Cache) (q : SymbolId) (record : ClassRecord) :
    (c.indexed q record).IsIndexed q record where
  row := by rw [rows_indexed, Ordered.Map.get?_insert, if_pos rfl]
  referencers key hkey := mem_referencer_links_indexed.2 (.inl ⟨key, hkey, rfl⟩)
  referenced key hkey howner := mem_referenced_links_indexed.2 (.inl ⟨key, hkey, howner, rfl⟩)
  subclasses supertype hsuper := mem_subclass_links_indexed.2 (.inl ⟨supertype, hsuper, rfl⟩)

theorem isIndexed_imported (c : Cache) (record : ClassRecord) : (c.imported record).IsIndexed record.name record :=
  isIndexed_indexed _ record.name record

namespace IsIndexed

theorem withoutReferences (h : c.IsIndexed q record) : c.IsIndexed q record.withoutReferences where
  row := h.row
  referencers := List.forall_mem_nil _
  referenced := List.forall_mem_nil _
  subclasses := h.subclasses

theorem of_alike (h : c.IsIndexed q record) (hd : c.Alike d) : d.IsIndexed q record where
  row := hd.rows ▸ h.row
  referencers := hd.referencers ▸ h.referencers
  referenced := hd.referenced ▸ h.referenced
  subclasses := hd.subclasses ▸ h.subclasses

/-- The index pass over a record that is indexed changes nothing. -/
theorem alike_indexed (h : c.IsIndexed q record) (hfits : c.classes.memory.Fits) : c.Alike (c.indexed q record) := by
  obtain ⟨hreferencers, hreferenced, hsubclasses⟩ := h.links_indexed
  obtain ⟨hclasses, hremote, -⟩ := c.indexed_eq q record
  exact {
    rows := by rw [rows_indexed, Ordered.Map.insert_eq_self h.row]
    remote := congrArg KeyValueStore.rows hremote
    referencers := hreferencers
    referenced := hreferenced
    subclasses := hsubclasses
    capacity := by rw [hclasses, KeyValueStore.put, Lru.capacity_insert]
    fits := hfits
    fits' := by
      rw [hclasses]
      exact hfits.insert _ _ }

/-- Nor does importing it before, which stores its references only for the index pass to have them forgotten again. -/
theorem alike_imported (h : c.IsIndexed record.name record) (hfits : c.classes.memory.Fits) :
    c.Alike (c.imported record) := by
  let stored : Cache := { c with classes := c.classes.put record.name record }
  have hedges : (stored.after (getClass record.name)).HasEdges record.name record := by
    rw [after_getClass]
    exact ⟨h.referencers, h.referenced, h.subclasses⟩
  obtain ⟨hreferencers, hreferenced, hsubclasses⟩ := hedges.links_indexed
  rw [after_getClass] at hreferencers hreferenced hsubclasses
  obtain ⟨hcapacity, hfits'⟩ := memory_imported hfits record
  exact {
    rows := by rw [rows_imported, Ordered.Map.insert_eq_self h.row]
    remote := congrArg KeyValueStore.rows (remote_imported c record)
    referencers := by rw [imported, after_getClass, hreferencers]
    referenced := by rw [imported, after_getClass, hreferenced]
    subclasses := by rw [imported, after_getClass, hsubclasses]
    capacity := hcapacity
    fits := hfits
    fits' := hfits' }

end IsIndexed

/-! ## A second pass -/

theorem answer_getClass_again (c : Cache) (q : SymbolId) :
    (c.after (getClass q)).answer (getClass q) = c.answer (getClass q) := by
  rw [answer, answer, perform_getClass, perform_getClass, after_getClass, KeyValueStore.get_fst_again]

/-- A second index pass answers as the first one and changes nothing. -/
theorem indexReferences_again (hc : c.Coherent) {result : Except CacheError Unit}
    (h : c.perform (indexReferences q) = (result, d)) :
    ∃ e, d.perform (indexReferences q) = (result, e) ∧ d.Alike e := by
  have hfits : (c.after (getClass q)).classes.memory.Fits := (alike_getClass hc.classes.fits q).fits'
  have hagain := answer_getClass_again c q
  rcases hget : c.answer (getClass q) with error | found
  · have hfirst : c.perform (getClass q) = (.error error, c.after (getClass q)) := Prod.ext hget rfl
    have hsecond : (c.after (getClass q)).perform (getClass q) =
        (.error error, (c.after (getClass q)).after (getClass q)) :=
      Prod.ext (hagain.trans hget) rfl
    rw [perform_indexReferences, hfirst] at h
    cases h
    refine ⟨_, ?_, alike_getClass hfits q⟩
    rw [perform_indexReferences, hsecond]
  · rw [perform_indexReferences, perform_of_answer hget] at h
    rcases found with _ | record
    · cases h
      refine ⟨_, ?_, alike_getClass hfits q⟩
      rw [perform_indexReferences, perform_of_answer (hagain.trans hget)]
    · cases h
      have hindexed := isIndexed_indexed (c.after (getClass q)) q record
      have hholds := hc.classes.holds_of_get exact_record (answer_getClass_eq_ok.1 hget)
      have hanswer := answer_getClass_indexed hc.classes.fits hholds hget
      have hstored : ((c.after (getClass q)).indexed q record).classes.memory.Fits := by
        rw [(indexed_eq _ _ _).1]
        exact hfits.insert _ _
      have hlooked := alike_getClass hstored q
      refine ⟨_, ?_, hlooked.trans ((hindexed.withoutReferences.of_alike hlooked).alike_indexed hlooked.fits')⟩
      rw [perform_indexReferences, perform_of_answer hanswer]

/-! ## A second import -/

/-- Imports a document and indexes its class, with what is left also if that fails. -/
def importPass (document : ClassDocument) (table : SymbolTable) (c : Cache) :
    Except CacheError Unit × SymbolTable × Cache :=
  match (importDocument document table).run c with
  | ((.error error, table), d) => (.error error, table, d)
  | ((.ok q, table), d) => ((d.perform (indexReferences q)).1, table, (d.perform (indexReferences q)).2)

theorem importPass_of_error {error : CacheError} (h : document.intern table = (.error error, grown)) (c : Cache) :
    importPass document table c = (.error error, grown, c) := by
  rw [importPass, run_importDocument, h]

theorem importPass_of_ok (h : document.intern table = (.ok record, grown)) (c : Cache) :
    importPass document table c =
      let indexing := ({ c with classes := c.classes.put record.name record } : Cache).perform
        (indexReferences record.name)
      (indexing.1, grown, indexing.2) := by
  rw [importPass, run_importDocument, h]

/-- A record that was just stored is not indexed if it nests too deep and memory has no room. -/
theorem perform_indexReferences_put_error (hfits : c.classes.memory.Fits) (hdepth : ¬record.nesting ≤ depthLimit)
    (hcapacity : c.classes.memory.capacity = 0) :
    ({ c with classes := c.classes.put record.name record } : Cache).perform (indexReferences record.name) =
      (.error (unreadableError (.value c.classes.path)),
        ({ c with classes := c.classes.put record.name record } : Cache).after (getClass record.name)) := by
  let stored : Cache := { c with classes := c.classes.put record.name record }
  have hholds : stored.classes.Holds record.name (some record) := .put hfits record.name record
  have hstored : stored.classes.memory.Fits := hfits.insert (StoreKey.encode record.name) record
  have hmemory : stored.classes.memory.contains (StoreKey.encode record.name) = false := by
    rw [Lru.contains_eq, hstored ((Lru.capacity_insert ..).trans hcapacity)]
    rfl
  have hget : stored.perform (getClass record.name) =
      (.error (unreadableError (.value c.classes.path)), stored.after (getClass record.name)) :=
    Prod.ext (unreadable_of_holds hholds hdepth hmemory).1 rfl
  rw [perform_indexReferences, hget]

/-- Importing and indexing a document once more ends as before, and leaves the symbols, rows and edges as they are. -/
theorem importPass_again (hfits : c.classes.memory.Fits) {result : Except CacheError Unit}
    (h : importPass document table c = (result, grown, d)) :
    ∃ e, importPass document grown d = (result, grown, e) ∧ d.Alike e := by
  rcases hintern : document.intern table with ⟨error | record, after⟩
  · rw [importPass_of_error hintern] at h
    cases h
    exact ⟨c, importPass_of_error (ClassShape.intern_again hintern) c, .refl hfits⟩
  · rw [importPass_of_ok hintern] at h
    by_cases hreadable : record.nesting ≤ depthLimit ∨ c.classes.memory.capacity ≠ 0
    · rw [(perform_indexReferences_put hfits record).2 ⟨hreadable, rfl⟩] at h
      cases h
      obtain ⟨hcapacity, himported⟩ := memory_imported hfits record
      refine ⟨_, ?_, (isIndexed_imported c record).alike_imported himported⟩
      rw [← hcapacity] at hreadable
      rw [importPass_of_ok (ClassShape.intern_again hintern),
        (perform_indexReferences_put himported record).2 ⟨hreadable, rfl⟩]
    · rw [not_or, not_not] at hreadable
      obtain ⟨hdepth, hcapacity⟩ := hreadable
      rw [perform_indexReferences_put_error hfits hdepth hcapacity] at h
      cases h
      let stored : Cache := { c with classes := c.classes.put record.name record }
      have hlooked : stored.Alike (stored.after (getClass record.name)) :=
        alike_getClass (hfits.insert (StoreKey.encode record.name) record) record.name
      have hpath : (stored.after (getClass record.name)).classes.path = c.classes.path := by
        rw [after_getClass, KeyValueStore.path_get]
        rfl
      have hzero : (stored.after (getClass record.name)).classes.memory.capacity = 0 :=
        hlooked.capacity.trans ((Lru.capacity_insert ..).trans hcapacity)
      -- What the first import has stored is there, although it cannot be read.
      have hrow : (stored.after (getClass record.name)).classes.rows.get? (StoreKey.encode record.name) =
          some (Storable.form.toBytes record) := by
        rw [hlooked.rows]
        exact (Ordered.Map.get?_insert ..).trans (if_pos rfl)
      have hsecond := perform_indexReferences_put_error hlooked.fits' hdepth hzero
      have hpass := importPass_of_ok (ClassShape.intern_again hintern) (stored.after (getClass record.name))
      rw [hsecond, hpath] at hpass
      exact ⟨_, hpass, (alike_put hlooked.fits' hrow).trans
        (alike_getClass (hlooked.fits'.insert (StoreKey.encode record.name) record) record.name)⟩

/-! ## What the index pass does -/

/-- The index pass over a class that has a readable record succeeds, adds the edges of the record and no others, has the
record forget its references, and changes no other row and no marker; whatever row could be read still can. Without a
record nothing changes. A second pass, and a second import of a document before its class is indexed, end as the first
one and change nothing, whether that was a success or not. -/
theorem indexReferences_exact (hc : c.Reachable) (q : SymbolId) :
    (∀ info, c.answer (getClass q) = .ok (some info) → ∃ d, c.perform (indexReferences q) = (.ok (), d) ∧
      (∀ edge, edge ∈ d.referencers.links ↔ edge ∈ c.referencers.links ∨
        ∃ key ∈ info.references, edge = ⟨StoreKey.encode key, q⟩) ∧
      (∀ edge, edge ∈ d.referenced.links ↔ edge ∈ c.referenced.links ∨
        ∃ key ∈ info.references, key.owner ≠ q ∧ edge = ⟨StoreKey.encode q, key.owner⟩) ∧
      (∀ edge, edge ∈ d.subclasses.links ↔ edge ∈ c.subclasses.links ∨
        ∃ supertype, (supertype = info.super ∨ supertype ∈ info.interfaces) ∧ supertype ≠ .absent ∧
          edge = ⟨StoreKey.encode supertype, q⟩) ∧
      d.classes.rows = c.classes.rows.insert (StoreKey.encode q)
        (Storable.form.toBytes { info with references := [] }) ∧
      d.answer (getClass q) = .ok (some { info with references := [] }) ∧ d.remote = c.remote ∧
      ∀ other found, other ≠ q → c.classes.readRow (StoreKey.encode other) = .ok found →
        c.answer (getClass other) = .ok found ∧ d.answer (getClass other) = .ok found) ∧
    (c.answer (getClass q) = .ok none → ∃ d, c.perform (indexReferences q) = (.ok (), d) ∧ c.Alike d ∧
      d.remote = c.remote) ∧
    (∀ result d, c.perform (indexReferences q) = (result, d) →
      ∃ e, d.perform (indexReferences q) = (result, e) ∧ d.Alike e) ∧
    ∀ document table result grown d, importPass document table c = (result, grown, d) →
      ∃ e, importPass document grown d = (result, grown, e) ∧ d.Alike e := by
  have hcoherent := hc.coherent
  refine ⟨fun info hget => ?_, fun hget => ?_, fun result d => indexReferences_again hcoherent,
    fun document table result grown d => importPass_again hcoherent.classes.fits⟩
  · have hperform : c.perform (indexReferences q) = (.ok (), (c.after (getClass q)).indexed q info) := by
      rw [perform_indexReferences, perform_of_answer hget]
    have hlooked := alike_getClass hcoherent.classes.fits q
    have hholds := hcoherent.classes.holds_of_get exact_record (answer_getClass_eq_ok.1 hget)
    refine ⟨_, hperform, fun edge => ?_, fun edge => ?_, fun edge => ?_, ?_,
      answer_getClass_indexed hcoherent.classes.fits hholds hget, ?_, fun other found hother hread => ?_⟩
    · rw [mem_referencer_links_indexed, hlooked.referencers, or_comm]
    · rw [mem_referenced_links_indexed, hlooked.referenced, or_comm]
    · rw [mem_subclass_links_indexed, hlooked.subclasses, or_comm]
      simp only [ClassShape.supertypes, List.mem_filter, List.mem_cons, decide_eq_true_eq, and_assoc]
    · rw [rows_indexed, hlooked.rows]
      rfl
    · rw [(indexed_eq _ _ _).2.1, after_getClass]
    · have hd := (hcoherent.apply (.indexReferences q)).classes
      rw [Operation.apply, after, hperform] at hd
      refine ⟨answer_getClass_eq_ok.2 (hcoherent.classes.get_of_readRow exact_record hread),
        answer_getClass_eq_ok.2 (hd.get_of_readRow exact_record (KeyValueStore.readRow_congr ?_ hread))⟩
      rw [rows_indexed, hlooked.rows, Ordered.Map.get?_insert, if_neg fun hkey => hother (StoreKey.encode_eq_iff.1 hkey)]
  · refine ⟨c.after (getClass q), ?_, alike_getClass hcoherent.classes.fits q, ?_⟩
    · rw [perform_indexReferences, perform_of_answer hget]
    · rw [after_getClass]

/-- A record that refers to one class twice and to itself, and names a super type twice. -/
def repeating : ClassRecord :=
  { ClassRecord.new 0 0 with super := 1, interfaces := [1, 0], references := [.type 2, .type 2, .field 0 3, .type 0] }

/-- It is indexed, and indexing it again changes nothing. -/
theorem indexReferences_repeating :
    ∃ c d e : Cache, c.Reachable ∧ c.answer (getClass 0) = .ok (some repeating) ∧
      c.perform (indexReferences 0) = (.ok (), d) ∧
      (∀ edge, edge ∈ d.referenced.links ↔ edge ∈ c.referenced.links ∨ edge = ⟨StoreKey.encode (0 : SymbolId), 2⟩) ∧
      d.perform (indexReferences 0) = (.ok (), e) ∧ d.Alike e := by
  let c := (fresh "cache" 8).run [.putClass 0 repeating]
  have hc : c.Reachable := Reachable.run (.fresh "cache" 8) _
  have hget : c.answer (getClass 0) = .ok (some repeating) := rfl
  obtain ⟨hindex, -, hagain, -⟩ := indexReferences_exact hc 0
  obtain ⟨d, hperform, -, hreferenced, -⟩ := hindex repeating hget
  obtain ⟨e, hsecond, halike⟩ := hagain _ d hperform
  refine ⟨c, d, e, hc, hget, hperform, fun edge => (hreferenced edge).trans (or_congr_right ?_), hsecond, halike⟩
  simp [repeating, Declaration.owner]

end ClassDeps.Cache
