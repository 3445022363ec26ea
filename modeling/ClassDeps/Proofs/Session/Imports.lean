import ClassDeps.Proofs.Cache.Imports
import ClassDeps.Proofs.Cache.Opened
import ClassDeps.Session

/-!
# Imports of a session

When a session has imported some files, its cache and its symbols are what importing the documents of the files,
one after the other, leaves.

## Main definitions

* `Session.Run.cache` — what the files of a session hold
* `Session.Run.Separate` — the stores of a session are different files

## Main statements

* `Session.of_onCache` — operations of a session are operations on its cache
* `Session.of_importFile`, `Session.of_importFiles` — imports that succeed
-/

namespace ClassDeps.Session

open Cache (importIndexed importAll)

/-- The cache of a session, with what its files hold now. -/
def Run.cache (r : Run) : Cache :=
  r.session.cache.cache r.files

/-- The stores of a session are different files. -/
def Run.Separate (r : Run) : Prop :=
  r.session.cache.Separate r.files

variable {r s : Run} {α : Type}

/-! ## Operations -/

theorem eq_ok_of_mem {ε α : Type} {result : Except ε α} {a : α} (h : a ∈ result.toOption) : result = .ok a := by
  cases result with
  | error error => cases h
  | ok value =>
    cases h
    rfl

/-- A session after the answer of its cache, with new symbols. -/
def Run.update (r : Run) (symbols : SymbolTable) (cache : OpenCache) (files : Files) : Run :=
  { r with session := { r.session with cache, symbols }, files }

theorem onCache_apply (op : Cache.Op α) (r : Run) :
    onCache op r = (match (r.session.cache.run op.run r.files).1 with
      | .ok value => (pure value : Command α)
      | .error error => throw (Failure.cache error)) { r with
        session := { r.session with cache := (r.session.cache.run op.run r.files).2.1 }
        files := (r.session.cache.run op.run r.files).2.2 } := rfl

theorem onCache_eq (op : Cache.Op α) (r : Run) {answer : Except CacheError α} {cache : OpenCache} {files : Files}
    (h : r.session.cache.run op.run r.files = (answer, cache, files)) :
    onCache op r = (answer.mapError Failure.cache, r.update r.session.symbols cache files) := by
  rw [onCache_apply, h]
  cases answer <;> rfl

theorem importDocument_apply (document : ClassDocument) (r : Run) :
    importDocument document r =
      (match (r.session.cache.run (Cache.importDocument document r.session.symbols) r.files).1.1 with
        | .ok q => (pure q : Command SymbolId)
        | .error error => throw (Failure.cache error)) { r with
        session := { r.session with
          cache := (r.session.cache.run (Cache.importDocument document r.session.symbols) r.files).2.1
          symbols := (r.session.cache.run (Cache.importDocument document r.session.symbols) r.files).1.2 }
        files := (r.session.cache.run (Cache.importDocument document r.session.symbols) r.files).2.2 } := rfl

theorem importDocument_eq (document : ClassDocument) (r : Run) {answer : Except CacheError SymbolId}
    {symbols : SymbolTable} {cache : OpenCache} {files : Files}
    (h : r.session.cache.run (Cache.importDocument document r.session.symbols) r.files =
      ((answer, symbols), cache, files)) :
    importDocument document r = (answer.mapError Failure.cache, r.update symbols cache files) := by
  rw [importDocument_apply, h]
  cases answer <;> rfl

/-- An operation of a session is the operation on its cache, and leaves the symbols alone. -/
theorem exists_onCache {op : Cache.Op α} (hr : r.Separate) (hroot : (r.cache.after op).root = r.cache.root) :
    ∃ answer s, onCache op r = (answer.mapError Failure.cache, s) ∧ r.cache.perform op = (answer, s.cache) ∧
      s.session.symbols = r.session.symbols ∧ s.Separate := by
  have hcache := OpenCache.cache_run hr op.run hroot
  have hseparate := OpenCache.separate_run hr op.run
  match hrun : r.session.cache.run op.run r.files with
  | (answer, cache, files) =>
    rw [hrun] at hcache hseparate
    have hanswer : (r.cache.perform op).1 = answer := congrArg Prod.fst hrun
    exact ⟨answer, r.update r.session.symbols cache files, onCache_eq op r hrun, Prod.ext hanswer hcache.symm, rfl,
      hseparate⟩

theorem of_onCache {op : Cache.Op α} {a : α} (hr : r.Separate) (hroot : (r.cache.after op).root = r.cache.root)
    (h : onCache op r = (.ok a, s)) :
    r.cache.perform op = (.ok a, s.cache) ∧ s.session.symbols = r.session.symbols ∧ s.Separate := by
  obtain ⟨error | value, _, honCache, hperform⟩ := exists_onCache hr hroot
  · cases honCache.symm.trans h
  · cases honCache.symm.trans h
    exact hperform

/-- Importing a document in a session is importing it in its cache with its symbols. -/
theorem exists_importDocument (hr : r.Separate) (document : ClassDocument) :
    ∃ answer s, importDocument document r = (answer.mapError Failure.cache, s) ∧
      (Cache.importDocument document r.session.symbols).run r.cache = ((answer, s.session.symbols), s.cache) ∧
      s.Separate := by
  have hroot := Cache.root_apply (.importDocument document r.session.symbols) r.cache
  have hcache := OpenCache.cache_run hr (Cache.importDocument document r.session.symbols) hroot
  have hseparate := OpenCache.separate_run hr (Cache.importDocument document r.session.symbols)
  match hrun : r.session.cache.run (Cache.importDocument document r.session.symbols) r.files with
  | ((answer, symbols), cache, files) =>
    rw [hrun] at hcache hseparate
    have hanswer : ((Cache.importDocument document r.session.symbols).run r.cache).1 = (answer, symbols) :=
      congrArg Prod.fst hrun
    exact ⟨answer, r.update symbols cache files, importDocument_eq document r hrun, Prod.ext hanswer hcache.symm,
      hseparate⟩

theorem of_importDocument {document : ClassDocument} {q : SymbolId} (hr : r.Separate)
    (h : importDocument document r = (.ok q, s)) :
    (Cache.importDocument document r.session.symbols).run r.cache = ((.ok q, s.session.symbols), s.cache) ∧
      s.Separate := by
  obtain ⟨error | value, _, himport, hrun⟩ := exists_importDocument hr document
  · cases himport.symm.trans h
  · cases himport.symm.trans h
    exact hrun

/-! ## Files -/

theorem readDocument_apply (path : String) (r : Run) :
    readDocument path r = (match r.files.read path with
      | .error fault => (throw (Failure.read path fault) : Command ClassDocument)
      | .ok bytes => match Dialect.document.shape.ofBytes? bytes with
        | some document => pure document
        | none => throw (Failure.parse path (.format .notADocument))) r := rfl

theorem of_readDocument {path : String} {document : ClassDocument} (h : readDocument path r = (.ok document, s)) :
    s = r ∧ ∃ bytes, r.files.read path = .ok bytes ∧
      Dialect.document.shape.ofBytes? bytes = some document := by
  rw [readDocument_apply] at h
  cases hbytes : r.files.read path with
  | error fault =>
    rw [hbytes] at h
    cases h
  | ok bytes =>
    rw [hbytes] at h
    cases hdocument : Dialect.document.shape.ofBytes? bytes with
    | none =>
      simp only [hdocument] at h
      cases h
    | some document =>
      simp only [hdocument] at h
      cases h
      exact ⟨rfl, bytes, rfl, hdocument⟩

/-- A file whose import succeeds holds a document, which was imported and indexed. -/
theorem of_importFile {path : String} (hr : r.Separate) (h : importFile path r = (.ok (), s)) :
    ∃ bytes document, r.files.read path = .ok bytes ∧
      Dialect.document.shape.ofBytes? bytes = some document ∧
      importIndexed document r.session.symbols r.cache = .ok (s.session.symbols, s.cache) ∧ s.Separate := by
  obtain ⟨document, r', hread, hrest⟩ := Files.exists_of_bind h
  obtain ⟨q, u, himport, hrest⟩ := Files.exists_of_bind hrest
  obtain ⟨⟨⟩, v, hindex, hprint⟩ := Files.exists_of_bind hrest
  obtain ⟨rfl, bytes, hbytes, hdocument⟩ := of_readDocument hread
  obtain ⟨himport, hu⟩ := of_importDocument hr himport
  -- The line that is printed comes after everything that can fail.
  have hroot := Cache.root_apply (.indexReferences q) u.cache
  obtain ⟨hindex, hsymbols, hv⟩ := of_onCache hu hroot hindex
  have hprinted : s = { v with
      printed := v.printed ++ Listing.line ("✓ " ++ v.session.symbols.resolve q) } :=
    (congrArg Prod.snd hprint).symm
  subst hprinted
  refine ⟨bytes, document, hbytes, hdocument, ?_, hv⟩
  rw [importIndexed, himport]
  simp only
  rw [hindex, ← hsymbols]
  rfl

/-- A file is imported if it holds a document that can be imported and indexed. -/
theorem exists_importFile {path : String} {bytes : Bytes} {document : ClassDocument} {table : SymbolTable}
    {cache : Cache} (hr : r.Separate) (hbytes : r.files.read path = .ok bytes)
    (hdocument : Dialect.document.shape.ofBytes? bytes = some document)
    (h : importIndexed document r.session.symbols r.cache = .ok (table, cache)) :
    ∃ s, importFile path r = (.ok (), s) ∧ s.session.symbols = table ∧ s.cache = cache ∧ s.Separate := by
  have hread : readDocument path r = (.ok document, r) := by
    rw [readDocument_apply, hbytes]
    simp only [hdocument]
    rfl
  obtain ⟨answer, u, himport, hrun, hu⟩ := exists_importDocument hr document
  rw [importIndexed, hrun] at h
  cases answer with
  | error error => cases h
  | ok q =>
    obtain ⟨answer, v, hindex, hperform, hsymbols, hv⟩ := exists_onCache hu (Cache.root_apply (.indexReferences q) u.cache)
    simp only [hperform] at h
    cases answer with
    | error error => cases h
    | ok done =>
      cases h
      refine ⟨{ v with printed := v.printed ++ Listing.line ("✓ " ++ v.session.symbols.resolve q) }, ?_, hsymbols, rfl,
        hv⟩
      rw [importFile, Files.bind_apply, hread]
      simp only
      rw [Files.bind_apply, himport]
      simp only [Except.mapError]
      rw [Files.bind_apply, hindex]
      rfl

theorem importFiles_cons (path : String) (paths : List String) :
    importFiles (path :: paths) = importFile path >>= fun _ => importFiles paths := rfl

/-- Files are imported one after the other. -/
theorem importFiles_cons_eq_ok_iff {path : String} {paths : List String} :
    importFiles (path :: paths) r = (.ok (), s) ↔
      ∃ u, importFile path r = (.ok (), u) ∧ importFiles paths u = (.ok (), s) := by
  rw [importFiles_cons]
  constructor
  · intro h
    obtain ⟨⟨⟩, u, hfile, hrest⟩ := Files.exists_of_bind h
    exact ⟨u, hfile, hrest⟩
  · rintro ⟨u, hfile, hrest⟩
    rw [Files.bind_apply, hfile]
    exact hrest

/-- After imports that succeed, cache and symbols are what importing the documents of the files one after the
other leaves. -/
theorem of_importFiles {paths : List String} (hr : r.Separate) (h : importFiles paths r = (.ok (), s)) :
    ∃ documents : List ClassDocument, documents.length = paths.length ∧
      (∀ d ∈ documents, ∃ bytes, Dialect.document.shape.ofBytes? bytes = some d) ∧
      importAll documents r.session.symbols r.cache = .ok (s.session.symbols, s.cache) ∧ s.Separate := by
  induction paths generalizing r with
  | nil =>
    cases h
    exact ⟨[], rfl, List.forall_mem_nil _, rfl, hr⟩
  | cons path paths ih =>
    obtain ⟨u, hfile, h⟩ := importFiles_cons_eq_ok_iff.1 h
    obtain ⟨bytes, document, -, hdocument, himport, hu⟩ := of_importFile hr hfile
    obtain ⟨documents, hlength, hdocuments, hall, hs⟩ := ih hu h
    refine ⟨document :: documents, congrArg Nat.succ hlength, ?_, ?_, hs⟩
    · exact List.forall_mem_cons.2 ⟨⟨bytes, hdocument⟩, hdocuments⟩
    · rw [Cache.importAll_cons, himport]
      exact hall

end ClassDeps.Session
