import ClassDeps.Proofs.Cache.ByName
import ClassDeps.Proofs.Class.Sites

/-!
# Imports that are tried again

Some documents are imported, the next one is refused, and all of them are imported again with a table that has got the
names of the refused attempt. This succeeds if importing them at once does and the table has room, and it leaves the
same by names.

## Main definitions

* `Cache.Takes` — a cache takes a document in

## Main statements

* `ClassShape.intern_of_wellFormed` — why a well-formed document is refused
* `Cache.importAll_eq_ok_iff`, `importAll_eq_error` — when documents are imported
* `Cache.importAll_again` — documents that are imported again
-/

namespace ClassDeps

open Json (depthLimit)
open SymbolTable (limit)

namespace SymbolTable

variable {t u : SymbolTable} {name : String}

theorem size_add (t : SymbolTable) (name : String) :
    (t.add name).size = if name ∈ t.symbols then t.size else t.size + 1 := by
  unfold add size
  split
  · rfl
  · exact List.length_append

/-- The more names a table has, the fewer it gets by interning. -/
theorem size_extend_add_le (h : ∀ name ∈ t.symbols, name ∈ u.symbols) (names : List String) :
    (u.extend names).size + t.size ≤ (t.extend names).size + u.size := by
  induction names generalizing t u with
  | nil => exact Nat.le_of_eq (Nat.add_comm u.size t.size)
  | cons name names ih =>
    have hadd : ∀ other ∈ (t.add name).symbols, other ∈ (u.add name).symbols :=
      fun other hmem => mem_add.2 ((mem_add.1 hmem).imp_left (h other))
    have hrest := ih hadd
    have ht := t.size_add name
    have hu := u.size_add name
    rw [extend_cons, extend_cons]
    by_cases hmem : name ∈ t.symbols
    · rw [if_pos hmem] at ht
      rw [if_pos (h name hmem)] at hu
      omega
    · rw [if_neg hmem] at ht
      split at hu <;> omega

theorem Built.extend {names : List String} (h : t.Built) (hroom : (t.extend names).size ≤ limit) :
    (t.extend names).Built := by
  induction names generalizing t with
  | nil => exact h
  | cons name names ih =>
    have hfirst := Nat.le_trans (size_le_of_le (le_extend (t.add name) names)) hroom
    exact ih (h.intern (intern_eq_ok hfirst)) hroom

end SymbolTable

/-! ## Well-formed documents -/

theorem SymbolTable.eq_full_of_intern {t : SymbolTable} {name : String} {fault : InternalFault}
    (h : t.intern name = .error fault) : fault = .symbolTableFull := by
  unfold intern at h
  split at h
  · cases h
  · split at h
    · cases h
    · cases h
      rfl

theorem Site.eq_full_of_visit {site : Site} {t u : SymbolTable} {error : CacheError} (hsound : site.fault? = none)
    (h : site.visit t = (.error error, u)) : error = .corrupted (.internal .symbolTableFull) := by
  rw [visit_of_sound hsound, Interning.name] at h
  split at h
  · cases h
  · rename_i hintern
    rw [SymbolTable.eq_full_of_intern hintern] at h
    cases h
    rfl

theorem Interning.visitAll_eq_error {sites : List Site} {t u : SymbolTable} {error : CacheError}
    (hsound : ∀ site ∈ sites, site.fault? = none) (h : visitAll sites t = (.error error, u)) :
    error = .corrupted (.internal .symbolTableFull) := by
  induction sites generalizing t with
  | nil => cases h
  | cons site sites ih =>
    rw [List.forall_mem_cons] at hsound
    rcases hfirst : site.visit t with ⟨error' | _, s⟩
    · rw [visitAll_cons_of_error hfirst] at h
      cases h
      exact site.eq_full_of_visit hsound.1 hfirst
    · rw [visitAll_cons_of_ok hfirst] at h
      exact ih hsound.2 h

/-- A well-formed document is refused only if the table is full. -/
theorem ClassShape.intern_of_wellFormed {c : ClassDocument} {t u : SymbolTable} {error : CacheError}
    (hwf : c.WellFormed) (h : c.intern t = (.error error, u)) : error = .corrupted (.internal .symbolTableFull) := by
  have hvisit := c.visits_intern.run t
  rw [h] at hvisit
  exact Interning.visitAll_eq_error (c.tells.sound.2 hwf) hvisit

namespace Cache

/-- A cache takes a document in: the document is well-formed, and its record can be read when it is indexed. -/
def Takes (c : Cache) (document : ClassDocument) : Prop :=
  document.WellFormed ∧ (document.nesting ≤ depthLimit ∨ c.classes.memory.capacity ≠ 0)

variable {c d e : Cache} {documents before others : List ClassDocument} {document : ClassDocument}
  {t u v table : SymbolTable} {record : ClassRecord} {error : CacheError}

theorem takes_imported (hfits : c.classes.memory.Fits) : (c.imported record).Takes document ↔ c.Takes document := by
  rw [Takes, (memory_imported hfits record).1, Takes]

/-! ## When documents are imported -/

/-- A document is imported and indexed if the cache takes it in and the table has room for its names. -/
theorem importIndexed_takes_iff (hfits : c.classes.memory.Fits) (hsize : t.size ≤ limit) :
    importIndexed document t c = .ok (table, d) ↔ c.Takes document ∧ table = t.extend document.normal.names ∧
      table.size ≤ limit ∧ d = c.imported (document.numbered table) := by
  rw [importIndexed_eq_ok_iff hfits]
  constructor
  · rintro ⟨record, hintern, hreadable, rfl⟩
    rw [ClassShape.nesting_of_intern hintern] at hreadable
    obtain ⟨hwf, hroom, rfl, rfl⟩ := (ClassShape.intern_eq_ok_iff hsize).1 hintern
    exact ⟨⟨hwf, hreadable⟩, rfl, hroom, rfl⟩
  · rintro ⟨⟨hwf, hreadable⟩, rfl, hroom, rfl⟩
    have hintern := (ClassShape.intern_eq_ok_iff hsize).2 ⟨hwf, hroom, rfl, rfl⟩
    rw [← ClassShape.nesting_of_intern hintern] at hreadable
    exact ⟨_, hintern, hreadable, rfl⟩

/-- Documents are imported if the cache takes all of them in and the table has room for their names. They get the
numbers of the last table. -/
theorem importAll_eq_ok_iff (hfits : c.classes.memory.Fits) (hsize : t.size ≤ limit) :
    importAll documents t c = .ok (table, d) ↔ (∀ x ∈ documents, c.Takes x) ∧
      table = t.extend (documents.flatMap (·.normal.names)) ∧ table.size ≤ limit ∧
      d = documents.foldl (fun c x => c.imported (x.numbered table)) c := by
  induction documents generalizing t c with
  | nil =>
    constructor
    · intro h
      cases h
      exact ⟨List.forall_mem_nil _, rfl, hsize, rfl⟩
    · rintro ⟨-, rfl, -, rfl⟩
      rfl
  | cons document documents ih =>
    have hfits' (record : ClassRecord) := (memory_imported hfits record).2
    have hnumbered : document.numbered (t.extend document.normal.names) =
        document.numbered ((t.extend document.normal.names).extend (documents.flatMap (·.normal.names))) :=
      (SymbolTable.Knows.numbered_eq (fun _ hmem => SymbolTable.mem_extend.2 (.inr hmem))
        (SymbolTable.le_extend _ _)).symm
    rw [importAll_cons, List.forall_mem_cons, List.flatMap_cons, SymbolTable.extend_append, List.foldl_cons]
    constructor
    · intro h
      rcases hfirst : importIndexed document t c with error | ⟨u, e⟩
      · rw [hfirst] at h
        cases h
      · rw [hfirst] at h
        obtain ⟨htakes, rfl, hroom, rfl⟩ := (importIndexed_takes_iff hfits hsize).1 hfirst
        obtain ⟨hrest, rfl, hroom', rfl⟩ := (ih (hfits' _) hroom).1 h
        refine ⟨⟨htakes, fun x hx => (takes_imported hfits).1 (hrest x hx)⟩, rfl, hroom', ?_⟩
        rw [hnumbered]
    · rintro ⟨⟨htakes, hrest⟩, rfl, hroom, rfl⟩
      have hroom' := Nat.le_trans (SymbolTable.size_le_of_le (SymbolTable.le_extend _ _)) hroom
      rw [(importIndexed_takes_iff hfits hsize).2 ⟨htakes, rfl, hroom', rfl⟩]
      refine (ih (hfits' _) hroom').2 ⟨fun x hx => (takes_imported hfits).2 (hrest x hx), rfl, hroom, ?_⟩
      rw [hnumbered]

/-- Documents that a cache takes in are refused only if the table is full. -/
theorem importAll_eq_error (hfits : c.classes.memory.Fits) (hsize : t.size ≤ limit) (htakes : ∀ x ∈ documents, c.Takes x)
    (h : importAll documents t c = .error error) : error = .corrupted (.internal .symbolTableFull) := by
  induction documents generalizing t c with
  | nil => cases h
  | cons document documents ih =>
    rw [List.forall_mem_cons] at htakes
    rw [importAll_cons] at h
    rcases hfirst : importIndexed document t c with error' | ⟨u, e⟩
    · rw [hfirst] at h
      cases h
      rcases hintern : document.intern t with ⟨error' | record, u⟩
      · rw [importIndexed, run_importDocument, hintern] at hfirst
        cases hfirst
        exact ClassShape.intern_of_wellFormed htakes.1.1 hintern
      · have hreadable := htakes.1.2
        rw [← ClassShape.nesting_of_intern hintern] at hreadable
        rw [(importIndexed_eq_ok_iff hfits).2 ⟨record, hintern, hreadable, rfl⟩] at hfirst
        cases hfirst
    · rw [hfirst] at h
      obtain ⟨-, rfl, hroom, rfl⟩ := (importIndexed_takes_iff hfits hsize).1 hfirst
      exact ih (memory_imported hfits _).2 hroom (fun x hx => (takes_imported hfits).2 (htakes.2 x hx)) h

/-! ## Documents that are imported again -/

theorem knows_extend {x : ClassDocument} (hx : x ∈ documents) : (t.extend (documents.flatMap (·.normal.names))).Knows x :=
  fun _ hname => SymbolTable.mem_extend.2 (.inr (List.mem_flatMap_of_mem hx hname))

/-- What an import leaves, with the names of its table or of one that it grows to. -/
theorem named_importAll (hrecorded : c.Recorded documents t) (hfits : c.classes.memory.Fits) (hsize : t.size ≤ limit)
    (h : importAll others t c = .ok (table, d)) (hgrow : table ≤ u) (hu : u.Built) :
    d.named u = others.foldl Named.imported (c.named t) := by
  obtain ⟨-, rfl, hroom, rfl⟩ := (importAll_eq_ok_iff hfits hsize).1 h
  have hnumbered : ∀ x ∈ others,
      x.numbered (t.extend (others.flatMap (·.normal.names))) = x.numbered u :=
    fun x hx => ((knows_extend hx).numbered_eq hgrow).symm
  have hfold : others.foldl (fun c x => c.imported (x.numbered (t.extend (others.flatMap (·.normal.names))))) c =
      others.foldl (fun c x => c.imported (x.numbered u)) c :=
    List.foldl_ext _ _ _ fun c x hx => by rw [hnumbered x hx]
  rw [hfold, named_foldl_imported (fun x hx => (knows_extend hx).mono hgrow) hu.nodup hu.size_le,
    hrecorded.named_of_le (SymbolTable.le_trans (SymbolTable.le_extend _ _) hgrow) hu.size_le]

/-- Some documents are imported, and then all of them with a table that may have got more names. If importing all of
them at once succeeds, then so does this, and leaves the same by names, or the additional names fill the table. -/
theorem importAll_again (hrecorded : c.Recorded documents t) (hfits : c.classes.memory.Fits) (ht : t.Built)
    (hbefore : importAll before t c = .ok (table, d)) (hgrow : table ≤ u) (hu : u.Built)
    (h : importAll (before ++ others) t c = .ok (v, e)) :
    (∃ w f, importAll (before ++ others) u d = .ok (w, f) ∧ f.named w = e.named v) ∨
      importAll (before ++ others) u d = .error (.corrupted (.internal .symbolTableFull)) ∧
        limit + t.size < u.size + v.size := by
  obtain ⟨htakes, hv, hv', -⟩ := (importAll_eq_ok_iff hfits ht.size_le).1 h
  obtain ⟨hcapacity, hfits'⟩ := memory_importAll hfits hbefore
  obtain ⟨-, htable, -⟩ := (importAll_eq_ok_iff hfits ht.size_le).1 hbefore
  have htakes' : ∀ x ∈ before ++ others, d.Takes x := by
    intro x hx
    rw [Takes, hcapacity]
    exact htakes x hx
  by_cases hroom : (u.extend ((before ++ others).flatMap (·.normal.names))).size ≤ limit
  · have hnamed := named_importAll hrecorded hfits ht.size_le hbefore
      (SymbolTable.le_trans hgrow (SymbolTable.le_extend _ _)) (hu.extend hroom)
    refine .inl ⟨_, _, (importAll_eq_ok_iff hfits' hu.size_le).2 ⟨htakes', rfl, hroom, rfl⟩, ?_⟩
    rw [named_foldl_imported (fun _ => knows_extend) (hu.extend hroom).nodup hroom, hnamed, Named.foldl_imported_again]
    refine (named_importAll hrecorded hfits ht.size_le h (SymbolTable.le_refl v) ?_).symm
    exact hv ▸ ht.extend (hv ▸ hv')
  · right
    have hkeeps : ∀ name ∈ t.symbols, name ∈ u.symbols := fun name hmem =>
      SymbolTable.mem_of_le hgrow (htable ▸ SymbolTable.mem_extend.2 (.inl hmem))
    have hfew := SymbolTable.size_extend_add_le hkeeps ((before ++ others).flatMap (·.normal.names))
    refine ⟨?_, by rw [hv]; omega⟩
    rcases himport : importAll (before ++ others) u d with error | ⟨w, f⟩
    · rw [importAll_eq_error hfits' hu.size_le htakes' himport]
    · obtain ⟨-, rfl, hroom', -⟩ := (importAll_eq_ok_iff hfits' hu.size_le).1 himport
      exact absurd hroom' hroom

end Cache

end ClassDeps
