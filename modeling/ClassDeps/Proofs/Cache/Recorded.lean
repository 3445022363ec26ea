import ClassDeps.Proofs.Cache.Aggregation
import ClassDeps.Proofs.Cache.Imports
import ClassDeps.Proofs.Class.Resolved
import ClassDeps.Proofs.Store.Every

/-!
# Where rows come from

Whatever stands in the stores of a cache was made of some document and of the numbers of a table: rows are records of
documents, and links are edges of documents. Every operation of a session keeps it so, also one that fails, and so
does a table that grows.

## Main definitions

* `Cache.IsRecord`, `Cache.IsEdge` — the rows and links that documents make
* `StoreContents.Recorded`, `Cache.Recorded` — stores with nothing else in them

## Main statements

* `StoreContents.Recorded.mono` — more documents and more names
* `Recorded.getClass`, `importDocument`, `indexReferences`, `removeClass` — what operations leave
-/

namespace ClassDeps

/-- A table has all names of a document. -/
def SymbolTable.Knows (t : SymbolTable) (document : ClassDocument) : Prop :=
  ∀ name ∈ document.normal.names, name ∈ t.symbols

theorem SymbolTable.Knows.mono {t u : SymbolTable} {document : ClassDocument} (h : t.Knows document)
    (hgrow : t ≤ u) : u.Knows document :=
  fun name hname => SymbolTable.mem_of_le hgrow (h name hname)

/-- A table that grows keeps the records of the documents that it knows. -/
theorem SymbolTable.Knows.numbered_eq {t u : SymbolTable} {document : ClassDocument} (h : t.Knows document)
    (hgrow : t ≤ u) : document.numbered u = document.numbered t :=
  ClassShape.map_number_of_le hgrow h

namespace Cache

/-- The record of one of some documents under its key, before or after its class was indexed. -/
def IsRecord (documents : List ClassDocument) (t : SymbolTable) (key : Bytes) (record : ClassRecord) : Prop :=
  ∃ d ∈ documents, t.Knows d ∧ key = StoreKey.encode (d.numbered t).name ∧
    (record = d.numbered t ∨ record = (d.numbered t).withoutReferences)

/-- An edge that indexing the class of one of some documents adds. -/
inductive IsEdge (documents : List ClassDocument) (t : SymbolTable) : Link → Prop where
  | referencer {d : ClassDocument} {key : DeclarationKey} : d ∈ documents → t.Knows d →
    key ∈ (d.numbered t).references → IsEdge documents t ⟨StoreKey.encode key, (d.numbered t).name⟩
  | referenced {d : ClassDocument} {key : DeclarationKey} : d ∈ documents → t.Knows d →
    key ∈ (d.numbered t).references → IsEdge documents t ⟨StoreKey.encode (d.numbered t).name, key.owner⟩
  | subclass {d : ClassDocument} {supertype : SymbolId} : d ∈ documents → t.Knows d →
    supertype ∈ (d.numbered t).supertypes →
    IsEdge documents t ⟨StoreKey.encode supertype, (d.numbered t).name⟩

variable {documents others : List ClassDocument} {t u : SymbolTable}

theorem IsRecord.mono {key : Bytes} {record : ClassRecord} (h : IsRecord documents t key record)
    (hdocuments : documents ⊆ others) (hgrow : t ≤ u) : IsRecord others u key record := by
  obtain ⟨d, hd, hknows, hrecord⟩ := h
  refine ⟨d, hdocuments hd, hknows.mono hgrow, ?_⟩
  rwa [hknows.numbered_eq hgrow]

theorem IsEdge.mono {link : Link} (h : IsEdge documents t link) (hdocuments : documents ⊆ others)
    (hgrow : t ≤ u) : IsEdge others u link := by
  cases h with
  | referencer hd hknows hkey =>
    rw [← hknows.numbered_eq hgrow] at hkey ⊢
    exact .referencer (hdocuments hd) (hknows.mono hgrow) hkey
  | referenced hd hknows hkey =>
    rw [← hknows.numbered_eq hgrow] at hkey ⊢
    exact .referenced (hdocuments hd) (hknows.mono hgrow) hkey
  | subclass hd hknows hsupertype =>
    rw [← hknows.numbered_eq hgrow] at hsupertype ⊢
    exact .subclass (hdocuments hd) (hknows.mono hgrow) hsupertype

/-! ## Edges of a record -/

section Edges

variable {q : SymbolId} {record : ClassRecord} (h : IsRecord documents t (StoreKey.encode q) record)

include h

theorem IsRecord.withoutReferences : IsRecord documents t (StoreKey.encode q) record.withoutReferences := by
  obtain ⟨d, hd, hknows, hkey, rfl | rfl⟩ := h
  · exact ⟨d, hd, hknows, hkey, .inr rfl⟩
  · exact ⟨d, hd, hknows, hkey, .inr rfl⟩

theorem IsRecord.referencer {key : DeclarationKey} (hkey : key ∈ record.references) :
    IsEdge documents t ⟨StoreKey.encode key, q⟩ := by
  obtain ⟨d, hd, hknows, hq, rfl | rfl⟩ := h
  · rw [StoreKey.encode_eq_iff.1 hq]
    exact .referencer hd hknows hkey
  · cases hkey

theorem IsRecord.referenced {key : DeclarationKey} (hkey : key ∈ record.references) :
    IsEdge documents t ⟨StoreKey.encode q, key.owner⟩ := by
  obtain ⟨d, hd, hknows, hq, rfl | rfl⟩ := h
  · rw [hq]
    exact .referenced hd hknows hkey
  · cases hkey

theorem IsRecord.subclass {supertype : SymbolId} (hsupertype : supertype ∈ record.supertypes) :
    IsEdge documents t ⟨StoreKey.encode supertype, q⟩ := by
  obtain ⟨d, hd, hknows, hq, rfl | rfl⟩ := h
  · rw [StoreKey.encode_eq_iff.1 hq]
    exact .subclass hd hknows hsupertype
  · rw [StoreKey.encode_eq_iff.1 hq]
    exact .subclass hd hknows hsupertype

end Edges

end Cache

open Cache (IsRecord IsEdge)

/-- What a store holds was made of some documents. -/
structure StoreContents.Recorded (documents : List ClassDocument) (t : SymbolTable) (c : StoreContents) : Prop where
  rows : KeyValueStore.Rows (IsRecord documents t) c.rows
  links : ∀ link ∈ c.links, IsEdge documents t link

/-- What a cache holds, also in memory, was made of some documents. -/
structure Cache.Recorded (documents : List ClassDocument) (t : SymbolTable) (c : Cache) : Prop where
  classes : c.classes.Every (IsRecord documents t)
  remote : KeyValueStore.Rows (IsRecord documents t) c.remote.rows
  referencers : ∀ link ∈ c.referencers.links, IsEdge documents t link
  referenced : ∀ link ∈ c.referenced.links, IsEdge documents t link
  subclasses : ∀ link ∈ c.subclasses.links, IsEdge documents t link

/-- What the five stores of a cache hold. -/
def Cache.storeContents (c : Cache) : List StoreContents :=
  [.keyValue c.classes.rows, .keyValue c.remote.rows, .multiValue c.referencers.links,
    .multiValue c.referenced.links, .multiValue c.subclasses.links]

variable {documents others : List ClassDocument} {t u : SymbolTable}

namespace StoreContents.Recorded

theorem empty (kind : StoreKind) : StoreContents.Recorded documents t (.empty kind) := by
  cases kind with
  | keyValue => exact ⟨.empty, fun _ h => nomatch h⟩
  | multiValue => exact ⟨.empty, fun _ h => nomatch h⟩

theorem mono {c : StoreContents} (h : c.Recorded documents t) (hdocuments : documents ⊆ others) (hgrow : t ≤ u) :
    c.Recorded others u :=
  ⟨h.rows.mono fun _ _ hrecord => hrecord.mono hdocuments hgrow,
    fun link hlink => (h.links link hlink).mono hdocuments hgrow⟩

end StoreContents.Recorded

/-- Importing a document changes the table by interning, also if the document is refused. -/
theorem Cache.interned_importDocument (c : Cache) (document : ClassDocument) (t : SymbolTable) :
    t.Interned ((importDocument document t).run c).1.2 := by
  have hgrows := document.grows_intern t
  rw [run_importDocument]
  match hintern : document.intern t with
  | (.error _, _) =>
    rw [hintern] at hgrows
    exact hgrows
  | (.ok _, _) =>
    rw [hintern] at hgrows
    exact hgrows

namespace Cache.Recorded

variable {c : Cache}

theorem mono (h : c.Recorded documents t) (hdocuments : documents ⊆ others) (hgrow : t ≤ u) :
    c.Recorded others u where
  classes := h.classes.mono fun _ _ hrecord => hrecord.mono hdocuments hgrow
  remote := h.remote.mono fun _ _ hrecord => hrecord.mono hdocuments hgrow
  referencers link hlink := (h.referencers link hlink).mono hdocuments hgrow
  referenced link hlink := (h.referenced link hlink).mono hdocuments hgrow
  subclasses link hlink := (h.subclasses link hlink).mono hdocuments hgrow

theorem storeContents (h : c.Recorded documents t) : ∀ contents ∈ c.storeContents, contents.Recorded documents t := by
  simp only [Cache.storeContents, List.forall_mem_cons]
  exact ⟨⟨h.classes.rows, fun _ h => nomatch h⟩, ⟨h.remote, fun _ h => nomatch h⟩, ⟨.empty, h.referencers⟩,
    ⟨.empty, h.referenced⟩, ⟨.empty, h.subclasses⟩, List.forall_mem_nil _⟩

/-! ## Look-ups -/

theorem getClass (h : c.Recorded documents t) (q : SymbolId) :
    (c.after (Cache.getClass q)).Recorded documents t := by
  rw [after_getClass]
  exact { h with classes := h.classes.get exact_record q }

theorem isRemote (h : c.Recorded documents t) (q : SymbolId) :
    (c.after (Cache.isRemote q)).Recorded documents t := by
  rw [after_isRemote]
  refine { h with remote := ?_ }
  rw [KeyValueStore.rows_get]
  exact h.remote

theorem backDependencies (h : c.Recorded documents t) (q : SymbolId) :
    (c.after (Cache.backDependencies q)).Recorded documents t :=
  (c.after_backDependencies q).symm ▸ h.getClass q

theorem isRecord_of_get (h : c.Recorded documents t) {q : SymbolId} {record : ClassRecord}
    (hget : (c.classes.get q).1 = .ok (some record)) : IsRecord documents t (StoreKey.encode q) record :=
  h.classes.of_get exact_record hget

/-! ## Changes -/

/-- A document that is refused changes the symbols only; one that is taken gets a record. -/
theorem importDocument (h : c.Recorded documents t) {document : ClassDocument} (hdocument : document ∈ documents)
    {answer : Except CacheError SymbolId} {d : Cache}
    (hrun : (Cache.importDocument document t).run c = ((answer, u), d)) : d.Recorded documents u := by
  have hgrows := interned_importDocument c document t
  rw [hrun] at hgrows
  have hlater := h.mono (List.Subset.refl _) hgrows.le
  rw [run_importDocument] at hrun
  match hintern : document.intern t with
  | (.error error, table) =>
    rw [hintern] at hrun
    cases hrun
    exact hlater
  | (.ok record, table) =>
    rw [hintern] at hrun
    cases hrun
    obtain ⟨hknows, hrecord⟩ := ClassShape.record_of_le hintern (SymbolTable.le_refl _)
    refine { hlater with classes := hlater.classes.put ?_ }
    exact ⟨document, hdocument, hknows, congrArg _ (congrArg _ hrecord), .inl hrecord⟩

theorem link (h : c.Recorded documents t) {q : SymbolId} {record : ClassRecord}
    (hrecord : IsRecord documents t (StoreKey.encode q) record) {key : DeclarationKey}
    (hkey : key ∈ record.references) : (Cache.link q c key).Recorded documents t := by
  refine { h with referencers := fun link hlink => ?_, referenced := fun link hlink => ?_ }
  · obtain rfl | hbefore := Ordered.Set.mem_insert.1 hlink
    · exact hrecord.referencer hkey
    · exact h.referencers link hbefore
  · rw [Cache.link] at hlink
    split at hlink
    · obtain rfl | hbefore := Ordered.Set.mem_insert.1 hlink
      · exact hrecord.referenced hkey
      · exact h.referenced link hbefore
    · exact h.referenced link hlink

theorem inherit (h : c.Recorded documents t) {q : SymbolId} {record : ClassRecord}
    (hrecord : IsRecord documents t (StoreKey.encode q) record) {supertype : SymbolId}
    (hsupertype : supertype ∈ record.supertypes) : (Cache.inherit q c supertype).Recorded documents t := by
  refine { h with subclasses := fun link hlink => ?_ }
  obtain rfl | hbefore := Ordered.Set.mem_insert.1 hlink
  · exact hrecord.subclass hsupertype
  · exact h.subclasses link hbefore

/-- Indexing adds edges of the record only. -/
theorem indexed (h : c.Recorded documents t) {q : SymbolId} {record : ClassRecord}
    (hrecord : IsRecord documents t (StoreKey.encode q) record) :
    (c.indexed q record).Recorded documents t := by
  have hlinked : (record.references.foldl (Cache.link q) c).Recorded documents t :=
    List.foldlRecOn _ _ h fun _ hbefore _ hkey => hbefore.link hrecord hkey
  have hinherited : (record.supertypes.foldl (Cache.inherit q)
      (record.references.foldl (Cache.link q) c)).Recorded documents t :=
    List.foldlRecOn _ _ hlinked fun _ hbefore _ hsupertype => hbefore.inherit hrecord hsupertype
  exact { hinherited with classes := hinherited.classes.put hrecord.withoutReferences }

theorem indexReferences (h : c.Recorded documents t) (q : SymbolId) :
    (c.after (Cache.indexReferences q)).Recorded documents t := by
  rw [after_indexReferences]
  split
  · rename_i hget
    exact (h.getClass q).indexed (h.isRecord_of_get hget)
  · exact h.getClass q

theorem removeRecord (h : c.Recorded documents t) (q : SymbolId) (record : ClassRecord) :
    (c.after (Cache.removeRecord q record)).Recorded documents t where
  classes := h.classes.remove q
  remote := h.remote
  referencers := by
    refine List.foldlRecOn (motive := fun index : MultiValueStore DeclarationKey =>
      ∀ link ∈ index.links, IsEdge documents t link) _ _ h.referencers ?_
    exact fun _ hbefore _ _ link hlink => hbefore link (Ordered.Set.mem_filter.1 hlink).1
  referenced := h.referenced
  subclasses := h.subclasses

theorem purged {κ : Type} [StoreKey κ] {index : MultiValueStore κ} {p : Link → Prop}
    (h : ∀ link ∈ index.links, p link) (k : κ) (value : Int32) :
    ∀ link ∈ ((index.remove k).2.purge value).2.links, p link := by
  intro link hlink
  rw [MultiValueStore.purge, MultiValueStore.keep, Ordered.Set.mem_filter] at hlink
  exact h link (Ordered.Set.mem_filter.1 hlink.1).1

theorem removeEntries (h : c.Recorded documents t) (q : SymbolId) :
    (c.after (Cache.removeEntries q)).Recorded documents t := by
  have hafter : c.after (Cache.removeEntries q) = { c with
      referencers := ((c.referencers.remove (.type q)).2.purge q).2
      referenced := ((c.referenced.remove q).2.purge q).2
      subclasses := ((c.subclasses.remove q).2.purge q).2
      remote := (c.remote.remove q).2 } := rfl
  rw [hafter]
  constructor
  · exact h.classes
  · exact h.remote.erase _
  · exact purged h.referencers _ _
  · exact purged h.referenced _ _
  · exact purged h.subclasses _ _

theorem removeClass (h : c.Recorded documents t) (q : SymbolId) :
    (c.after (Cache.removeClass q)).Recorded documents t := by
  rw [after_removeClass]
  split
  · exact ((h.getClass q).removeRecord q _).removeEntries q
  · exact (h.getClass q).removeEntries q
  · exact h.getClass q

end Cache.Recorded

end ClassDeps
