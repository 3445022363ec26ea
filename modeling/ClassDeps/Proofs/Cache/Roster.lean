import ClassDeps.Proofs.Cache.Aggregation
import ClassDeps.Proofs.Cache.ClassNames
import ClassDeps.Proofs.Cache.Recorded
import ClassDeps.Proofs.Cache.Views
import ClassDeps.Proofs.Listing

/-!
# The roster of a cache

Classes are stored under numbers and asked for by names. If the names are those of a table that is built by interning,
a cache lists exactly the names that it has records of, whatever other names the table has: different names have
different numbers, and names keep their numbers when the table grows.

## Main definitions

* `Cache.Roster` — a cache has records of the classes with some names, and of no others

## Main statements

* `Roster.mono` — a table that grows
* `Roster.importDocument_ok`, `indexReferences`, `without` — what operations do to the names
* `Roster.exists_names` — what is listed
-/

namespace ClassDeps.Cache

open Json (depthLimit)
open SymbolTable (limit)

variable {live : String → Prop} {c d : Cache} {t u : SymbolTable} {q : SymbolId} {name : String} {record : ClassRecord}

theorem Legible.nesting_le (h : c.Legible) (hstored : c.stored? q = some record) : record.nesting ≤ depthLimit :=
  h.readable_view (.record q) q rfl record hstored

/-- A record is stored under the number of its class. -/
theorem IsRecord.name_eq {documents : List ClassDocument} (h : IsRecord documents t (StoreKey.encode q) record) :
    record.name = q := by
  obtain ⟨d, -, -, hkey, rfl | rfl⟩ := h
  · exact (StoreKey.encode_eq_iff.1 hkey).symm
  · exact (StoreKey.encode_eq_iff.1 hkey).symm

/-- Markers are of a kind that can always be read. -/
theorem Coherent.exists_isRemote (h : c.Coherent) (q : SymbolId) : ∃ marker, c.answer (isRemote q) = .ok marker := by
  obtain ⟨found, hread⟩ : ∃ found, c.remote.readRow (StoreKey.encode q) = .ok found := by
    cases hrow : c.remote.rows.get? (StoreKey.encode q) with
    | none => exact ⟨none, KeyValueStore.readRow_eq_none hrow⟩
    | some bytes =>
      obtain ⟨marker, rfl⟩ := h.remote.written hrow
      exact ⟨some marker, (KeyValueStore.readRow_of_row exact_marker hrow).trans (if_pos (depth_marker_le marker))⟩
  refine ⟨found.getD false, ?_⟩
  rw [answer, perform_isRemote, h.remote.get_of_readRow exact_marker hread]
  rfl

/-- A cache has records of the classes with some names, under the numbers of a table, and no other ones. All of them can
be read. -/
structure Roster (live : String → Prop) (t : SymbolTable) (c : Cache) : Prop extends Legible c where
  known : ∀ name, live name → name ∈ t.symbols
  contains_iff : ∀ key, c.classes.rows.contains key = true ↔ ∃ name, live name ∧ key = StoreKey.encode (t.number name)

namespace Roster

theorem nothing (hc : c.Coherent) (hrows : c.classes.rows = .empty) (t : SymbolTable) : c.Roster (fun _ => False) t where
  toCoherent := hc
  readable q := ⟨none, KeyValueStore.readRow_eq_none (by rw [hrows]; rfl)⟩
  known _ hnone := hnone.elim
  contains_iff key := by
    rw [hrows]
    exact iff_of_false Bool.false_ne_true fun ⟨_, hnone, _⟩ => hnone

/-- What is listed depends on the rows. -/
theorem of_rows (h : c.Roster live t) (hd : d.Coherent) (hrows : d.classes.rows = c.classes.rows) : d.Roster live t where
  toCoherent := hd
  readable q := by
    obtain ⟨found, hread⟩ := h.readable q
    exact ⟨found, KeyValueStore.readRow_congr (by rw [hrows]) hread⟩
  known := h.known
  contains_iff := hrows ▸ h.contains_iff

theorem congr {live' : String → Prop} (h : c.Roster live t) (hsame : ∀ name, live' name ↔ live name) : c.Roster live' t :=
  (funext fun name => propext (hsame name) : live' = live) ▸ h

/-- Names keep their numbers in a table that grows. -/
theorem mono (h : c.Roster live t) (hgrow : t ≤ u) : c.Roster live u where
  toLegible := h.toLegible
  known name hlive := SymbolTable.mem_of_le hgrow (h.known name hlive)
  contains_iff key := by
    rw [h.contains_iff]
    refine exists_congr fun name => and_congr_right fun hlive => ?_
    rw [SymbolTable.number_of_le hgrow (h.known name hlive)]

/-! ## Look-ups -/

theorem getClass (h : c.Roster live t) (q : SymbolId) : (c.after (Cache.getClass q)).Roster live t := by
  refine h.of_rows (h.toCoherent.apply (.getClass q)) ?_
  rw [after_getClass]
  exact c.classes.rows_get q

theorem isRemote (h : c.Roster live t) (q : SymbolId) : (c.after (Cache.isRemote q)).Roster live t := by
  refine h.of_rows (h.toCoherent.apply (.isRemote q)) ?_
  rw [after_isRemote]

theorem backDependencies (h : c.Roster live t) (q : SymbolId) : (c.after (Cache.backDependencies q)).Roster live t :=
  (c.after_backDependencies q).symm ▸ h.getClass q

/-! ## Changes -/

theorem contains_put_iff (s : KeyValueStore SymbolId ClassRecord) (q : SymbolId) (record : ClassRecord) (key : Bytes) :
    (s.put q record).rows.contains key = true ↔ key = StoreKey.encode q ∨ s.rows.contains key = true := by
  rw [KeyValueStore.put, Ordered.Map.contains, Ordered.Map.get?_insert]
  split
  · rename_i hkey
    exact iff_of_true rfl (.inl hkey)
  · rename_i hkey
    exact (or_iff_right hkey).symm

/-- A record that is stored under the number of a name. -/
theorem put (h : c.Roster live t) (hname : name ∈ t.symbols) (hdepth : record.nesting ≤ depthLimit) :
    Roster (fun other => other = name ∨ live other) t
      { c with classes := c.classes.put (t.number name) record } where
  toLegible := h.toLegible.put (t.number name) record hdepth
  known := by
    rintro other (rfl | hlive)
    · exact hname
    · exact h.known other hlive
  contains_iff key := by
    rw [contains_put_iff, h.contains_iff]
    simp only [or_and_right, exists_or, exists_eq_left]

/-- The class with a name is removed, and no other one: other names have other numbers. -/
theorem without (h : c.Roster live t) (hsize : t.size ≤ limit) (hname : name ∈ t.symbols) :
    (c.without (t.number name)).Roster (fun other => live other ∧ other ≠ name) t where
  toLegible := h.toLegible.without (t.number name)
  known other hother := h.known other hother.1
  contains_iff key := by
    rw [Ordered.Map.contains, h.toLegible.rows_without]
    split
    · rename_i hkey
      refine iff_of_false Bool.false_ne_true ?_
      rintro ⟨other, ⟨hlive, hne⟩, rfl⟩
      exact hne (SymbolTable.number_inj hsize (h.known other hlive) hname (StoreKey.encode_eq_iff.1 hkey))
    · rename_i hkey
      rw [← Ordered.Map.contains, h.contains_iff]
      refine exists_congr fun other => and_congr_left fun hother => (and_iff_left ?_).symm
      rintro rfl
      exact hkey hother

/-- Indexing stores the record of a class again. -/
theorem indexReferences (h : c.Roster live t) (q : SymbolId) : (c.after (Cache.indexReferences q)).Roster live t := by
  have hcoherent := h.toCoherent.apply (.indexReferences q)
  rw [Operation.apply, after_indexReferences] at hcoherent
  rw [after_indexReferences]
  split at hcoherent
  · rename_i record hget
    obtain ⟨hclasses, -, -⟩ := indexed_eq (c.after (Cache.getClass q)) q record
    have hstored : c.stored? q = some record := Except.ok.inj
      ((h.classes.get_of_readRow exact_record (h.readRow_eq q)).symm.trans hget)
    have hlooked := h.getClass q
    have hput := hlooked.toLegible.put q record.withoutReferences
      (ClassShape.nesting_withoutReferences_le (h.toLegible.nesting_le hstored))
    have hrow := h.classes.row_of_get exact_record hget
    refine ⟨⟨hcoherent, fun q' => ?_⟩, h.known, fun key => ?_⟩
    · obtain ⟨found, hread⟩ := hput.readable q'
      exact ⟨found, KeyValueStore.readRow_congr (by rw [hclasses]) hread⟩
    · have hlisted : c.classes.rows.contains (StoreKey.encode q) = true := by
        rw [Ordered.Map.contains, hrow]
        rfl
      rw [hclasses, contains_put_iff, hlooked.contains_iff, or_iff_right_of_imp]
      rintro rfl
      exact (h.contains_iff _).1 hlisted
  · exact h.getClass q

/-- A document that is taken is listed from then on. -/
theorem importDocument_ok {document : ClassDocument} (h : c.Roster live t) (hdepth : document.nesting ≤ depthLimit)
    (hrun : (importDocument document t).run c = ((.ok q, u), d)) :
    d.Roster (fun other => other = document.name ∨ live other) u := by
  have hgrows := interned_importDocument c document t
  rw [hrun] at hgrows
  rw [run_importDocument] at hrun
  split at hrun
  · rename_i record table hintern
    cases hrun
    obtain ⟨hknows, hrecord⟩ := ClassShape.record_of_le hintern (SymbolTable.le_refl _)
    have hname : document.name ∈ u.symbols := hknows document.name List.mem_cons_self
    have hnumber : record.name = u.number document.name := congrArg ClassShape.name hrecord
    rw [hnumber]
    exact (h.mono hgrows.le).put hname ((ClassShape.nesting_of_intern hintern).trans_le hdepth)
  · cases hrun

/-- A document that is refused changes the symbols only. -/
theorem importDocument_error {document : ClassDocument} {error : CacheError} (h : c.Roster live t)
    (hrun : (importDocument document t).run c = ((.error error, u), d)) : d.Roster live u := by
  have hgrows := interned_importDocument c document t
  rw [hrun] at hgrows
  rw [run_importDocument] at hrun
  split at hrun
  · cases hrun
  · cases hrun
    exact h.mono hgrows.le

/-! ## What is listed -/

/-- The class of each name is looked up. -/
theorem exists_record (h : c.Roster live t) (hlive : live name) :
    ∃ record, c.answer (Cache.getClass (t.number name)) = .ok (some record) := by
  have hget := h.toLegible.answer_getClass (t.number name)
  cases hstored : c.stored? (t.number name) with
  | some record => exact ⟨record, hget.trans (congrArg _ hstored)⟩
  | none =>
    have hrow := KeyValueStore.eq_none_of_readRow ((h.readRow_eq (t.number name)).trans (congrArg _ hstored))
    have hcontains := (h.contains_iff _).2 ⟨name, hlive, rfl⟩
    rw [Ordered.Map.contains, hrow] at hcontains
    cases hcontains

/-- The number of a listed name stands for it. -/
theorem resolve_number (h : c.Roster live t) (hsize : t.size ≤ limit) (hlive : live name) :
    t.resolve (t.number name) = name :=
  SymbolTable.resolve_number (h.known name hlive) hsize

theorem keyed (h : c.Roster live t) : KeyValueStore.Keyed SymbolId c.classes.rows := by
  intro key bytes hrow
  obtain ⟨name, -, hkey⟩ := (h.contains_iff key).1 (by rw [Ordered.Map.contains, hrow]; rfl)
  exact ⟨t.number name, hkey⟩

/-- The names of the stored classes are listed in the order of their bytes, each once, and counted. -/
theorem exists_names (h : c.Roster live t) (hsize : t.size ≤ limit) :
    ∃ ids names, c.answer classNames = .ok ids ∧ c.classes.size = names.length ∧
      Listing.classNames t ids = Listing.ofNames names ∧
      (names.Pairwise fun a b => Bytes.ofText a < Bytes.ofText b) ∧ ∀ name, name ∈ names ↔ live name := by
  have hdecode (q : SymbolId) : StoreKey.decode (StoreKey.encode q) = .ok q :=
    (canonical_int32.decode_eq_ok_iff _ q).2 rfl
  obtain ⟨ids, hencode, hkeys, hascending, hmem⟩ := h.keyed.exists_keys hdecode
  have hids (q : SymbolId) : q ∈ ids ↔ ∃ name, live name ∧ q = t.number name := by
    rw [hmem, h.contains_iff]
    simp only [StoreKey.encode_eq_iff]
  have hnodup : (ids.map t.resolve).Nodup := by
    have hdistinct : ids.Nodup := hascending.imp fun {a b} hlt heq => by
      rw [heq, Std.ReflOrd.compare_self] at hlt
      cases hlt
    refine List.Nodup.map_on (fun a ha b hb hsame => ?_) hdistinct
    obtain ⟨name, hname, rfl⟩ := (hids a).1 ha
    obtain ⟨other, hother, rfl⟩ := (hids b).1 hb
    rw [h.resolve_number hsize hname, h.resolve_number hsize hother] at hsame
    rw [hsame]
  obtain ⟨names, hlisting, hlength, hsorted, hnames⟩ := Listing.exists_classNames hnodup
  refine ⟨ids, names, ?_, ?_, hlisting, hsorted, fun name => ?_⟩
  · rw [answer, perform_classNames, KeyValueStore.keys, hkeys]
    rfl
  · have hcount := congrArg List.length hencode
    rw [List.length_map, Ordered.Map.keys, List.length_map] at hcount
    exact hcount.symm.trans hlength.symm
  · rw [hnames]
    constructor
    · rintro ⟨id, hid, rfl⟩
      obtain ⟨name, hlive, rfl⟩ := (hids id).1 hid
      rwa [h.resolve_number hsize hlive]
    · intro hlive
      exact ⟨t.number name, (hids _).2 ⟨name, hlive, rfl⟩, h.resolve_number hsize hlive⟩

end Roster

end ClassDeps.Cache
