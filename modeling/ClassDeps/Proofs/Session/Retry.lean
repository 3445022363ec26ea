import ClassDeps.Proofs.Cache.Repeated
import ClassDeps.Proofs.Codecs
import ClassDeps.Proofs.Session.Reached
import Mathlib.Data.Fintype.EquivFin

/-!
# Imports that fail and are tried again

An import that fails because of what a file holds leaves what importing the files before it leaves, but for symbols that
it added. Once the file holds a document that can be imported, all files can be imported in the same session, and then
the stores hold by names what they would hold if the import had not failed before. There are two exceptions: a session
before did not save its symbols, or the symbols that were added fill the table.

## Main definitions

* `Files.document?`, `Files.Describes` — the class document in a file
* `Session.Answers` — imports of a session beside those of its cache
* `Session.Refused` — why the import of a file fails before its class is written
* `Session.Run.Spoils` — an import that fails and makes a difference

## Main statements

* `Session.answers_importFiles` — importing files is importing their documents
* `Session.Refused.importFile` — a file that is refused
* `Session.import_retried` — an import that fails and is tried again
* `Session.import_not_retried` — the exceptions
-/

namespace ClassDeps

open SymbolTable (limit)

namespace Files

variable {t u : Files} {path : String} {place : Place} {bytes : Bytes} {document : ClassDocument}

/-- The class document in a file, if there is one. -/
def document? (t : Files) (path : String) : Option ClassDocument :=
  (t.read path).toOption.bind Dialect.document.shape.ofBytes?

/-- A file holds a class document. -/
def Describes (t : Files) (path : String) (document : ClassDocument) : Prop :=
  t.document? path = some document

theorem describes_iff : t.Describes path document ↔
    ∃ bytes, t.read path = .ok bytes ∧ Dialect.document.shape.ofBytes? bytes = some document := by
  rw [Describes, document?, Option.bind_eq_some_iff]
  refine exists_congr fun bytes => and_congr_left fun _ => ?_
  cases t.read path <;> simp [Except.toOption]

theorem Shows.describes (h : t.Shows u) (hdescribes : t.Describes path document) : u.Describes path document := by
  obtain ⟨bytes, hbytes, hdocument⟩ := describes_iff.1 hdescribes
  refine describes_iff.2 ⟨bytes, h path bytes (fun hquiet => ?_) hbytes, hdocument⟩
  rw [IsQuiet, hdocument] at hquiet
  cases hquiet

/-- A file holds the document that is written to it. -/
theorem describes_setEntry (hlocate : t.locate path = .ok place) (hplace : t.entryAt? place ≠ some .directory)
    (hdocument : Dialect.document.shape.ofBytes? bytes = some document) :
    (t.setEntry place (.file bytes)).Describes path document := by
  have hagree : Agree (· = place) t (t.setEntry place (.file bytes)) := .setEntry (by rfl) hplace _
  refine describes_iff.2 ⟨bytes, read_eq_ok_iff.2 ⟨place, .file bytes, ?_, ?_, rfl⟩, hdocument⟩
  · exact locate_of_directories hagree.working hagree.directory hlocate
  · rw [entryAt?_setEntry hplace, if_pos rfl]

theorem Amended.edited (h : Amended t u) (entries : Ordered.Map Place Entry) :
    Amended { t with entries } { u with entries } :=
  ⟨rfl, h.users, h.working, h.length, h.file⟩

end Files

namespace Session

open Files (Amended Attached)
open Cache (importIndexed importAll)

variable {root path : String} {r s m : Run} {before paths : List String} {document : ClassDocument}
  {documents : List ClassDocument} {failure : Failure} {error : CacheError} {state : SymbolTable × Cache}
  {table : SymbolTable} {result : Except Failure Unit × Run}

/-! ## Imports that may fail -/

/-- An import in a session goes as the import in its cache does. -/
inductive Answers : Except CacheError (SymbolTable × Cache) → Except Failure Unit × Run → Prop where
  | ok (s : Run) : Answers (.ok (s.session.symbols, s.cache)) (.ok (), s)
  | error (error : CacheError) (s : Run) : Answers (.error error) (.error (.cache error), s)

theorem Answers.of_ok (h : Answers (.ok state) result) :
    ∃ s, result = (.ok (), s) ∧ state = (s.session.symbols, s.cache) := by
  cases h with
  | ok s => exact ⟨s, rfl, rfl⟩

theorem Answers.of_error (h : Answers (.error error) result) : ∃ s, result = (.error (.cache error), s) := by
  cases h with
  | error _ s => exact ⟨s, rfl⟩

/-- The stores of a session are different files, and open. -/
structure Run.Steady (r : Run) : Prop where
  separate : r.Separate
  attached : Attached r.session.cache.handles r.files

theorem Run.Healthy.steady {n : Nat} (h : r.Healthy root n documents) : r.Steady :=
  ⟨h.separate, h.attached⟩

theorem Run.Steady.edited (h : r.Steady) (entries : Ordered.Map Place Entry) : (r.edited entries).Steady :=
  ⟨⟨h.separate.nodup, h.separate.known⟩, h.attached⟩

/-- Imports, which may fail, keep the stores where they are and show the same documents. -/
theorem Run.Steady.imported {answer : Except Failure Unit} (h : r.Steady)
    (himport : importFiles paths r = (answer, s)) :
    r.Leads (fun _ => False) 0 (imports paths r) s ∧ s.Steady ∧ Amended r.files s.files := by
  have hleads : r.Leads (fun _ => False) 0 _ s := leads_of_importFiles (fun _ hnone => hnone.elim) himport
  have hamended := hleads.commits.amended h.attached
  refine ⟨hleads, ⟨h.separate.of_handles hleads.handles (Nat.le_of_eq hamended.length.symm), ?_⟩, hamended⟩
  exact hleads.handles ▸ hamended.attached h.attached

theorem readDocument_of_describes (h : r.files.Describes path document) : readDocument path r = (.ok document, r) := by
  obtain ⟨bytes, hbytes, hdocument⟩ := Files.describes_iff.1 h
  rw [readDocument_apply, hbytes]
  simp only [hdocument]
  rfl

theorem answers_importFile (hr : r.Separate) (h : r.files.Describes path document) :
    Answers (importIndexed document r.session.symbols r.cache) (importFile path r) := by
  obtain ⟨answer, u, himport, hrun, hu⟩ := exists_importDocument hr document
  rw [importFile, Files.bind_apply, readDocument_of_describes h]
  simp only
  rw [Files.bind_apply, himport, importIndexed, hrun]
  cases answer with
  | error error => exact .error error u
  | ok q =>
    obtain ⟨answer, v, hindex, hperform, hsymbols, -⟩ :=
      exists_onCache hu (Cache.root_apply (.indexReferences q) u.cache)
    simp only [Except.mapError]
    rw [Files.bind_apply, hindex, hperform]
    cases answer with
    | error error => exact .error error v
    | ok done =>
      simp only
      rw [← hsymbols]
      exact .ok { v with printed := v.printed ++ Listing.line ("✓ " ++ v.session.symbols.resolve q) }

/-- Importing files is importing the documents in them, whether it succeeds or not. -/
theorem answers_importFiles (hr : r.Steady) (h : List.Forall₂ r.files.Describes paths documents) :
    Answers (importAll documents r.session.symbols r.cache) (importFiles paths r) := by
  induction paths generalizing r documents with
  | nil =>
    cases h
    exact .ok r
  | cons path paths ih =>
    obtain ⟨document, rest, hfirst, hrest, rfl⟩ := List.forall₂_cons_left_iff.1 h
    have hanswers := answers_importFile hr.separate hfirst
    rw [importFiles_cons, Files.bind_apply, Cache.importAll_cons]
    generalize importIndexed document r.session.symbols r.cache = outcome at hanswers
    rcases himport : importFile path r with ⟨result, s⟩
    rw [himport] at hanswers
    cases hanswers with
    | error error => exact .error error s
    | ok =>
      -- The other files hold what they held before.
      obtain ⟨-, hs, hamended⟩ := hr.imported (importFiles_singleton himport)
      exact ih hs (hrest.imp fun _ _ hdescribes => hamended.shows.1.describes hdescribes)

/-- Files that were imported held documents. -/
theorem describes_of_importFiles (hr : r.Steady) (h : importFiles paths r = (.ok (), s)) :
    ∃ documents, List.Forall₂ r.files.Describes paths documents := by
  induction paths generalizing r with
  | nil => exact ⟨[], .nil⟩
  | cons path paths ih =>
    obtain ⟨u, hfile, hrest⟩ := importFiles_cons_eq_ok_iff.1 h
    obtain ⟨bytes, document, hbytes, hdocument, -⟩ := of_importFile hr.separate hfile
    obtain ⟨-, hu, hamended⟩ := hr.imported (importFiles_singleton hfile)
    obtain ⟨documents, hdocuments⟩ := ih hu hrest
    exact ⟨document :: documents, .cons (Files.describes_iff.2 ⟨bytes, hbytes, hdocument⟩)
      (hdocuments.imp fun _ _ hdescribes => hamended.shows.2.describes hdescribes)⟩

theorem importAll_of_importFiles (hr : r.Steady) (hpaths : List.Forall₂ r.files.Describes paths documents)
    (h : importFiles paths r = (.ok (), s)) :
    importAll documents r.session.symbols r.cache = .ok (s.session.symbols, s.cache) := by
  have hanswers := answers_importFiles hr hpaths
  rw [h] at hanswers
  generalize importAll documents r.session.symbols r.cache = outcome at hanswers
  cases hanswers
  rfl

/-- A file with a document that the cache takes in is imported exactly if there is room for its names. -/
theorem importFiles_singleton_iff (hr : r.Steady) (hfits : r.cache.classes.memory.Fits)
    (hsize : r.session.symbols.size ≤ limit) (hdescribes : r.files.Describes path document)
    (htakes : r.cache.Takes document) :
    (∃ s, importFiles [path] r = (.ok (), s)) ↔ (r.session.symbols.extend document.normal.names).size ≤ limit := by
  have hpaths : List.Forall₂ r.files.Describes [path] [document] := .cons hdescribes .nil
  have hiff (table : SymbolTable) (cache : Cache) :
      importAll [document] r.session.symbols r.cache = .ok (table, cache) ↔ _ :=
    Cache.importAll_eq_ok_iff hfits hsize
  rw [List.flatMap_singleton] at hiff
  constructor
  · rintro ⟨s, h⟩
    obtain ⟨-, htable, hroom, -⟩ := (hiff _ _).1 (importAll_of_importFiles hr hpaths h)
    exact htable ▸ hroom
  · intro hroom
    have hanswers := answers_importFiles hr hpaths
    rw [(hiff _ _).2 ⟨List.forall_mem_singleton.2 htakes, rfl, hroom, rfl⟩] at hanswers
    obtain ⟨s, himport, -⟩ := hanswers.of_ok
    exact ⟨s, himport⟩

theorem importFiles_append_of_ok (h : importFiles before r = (.ok (), m)) (paths : List String) :
    importFiles (before ++ paths) r = importFiles paths m := by
  induction before generalizing r with
  | nil =>
    cases h
    rfl
  | cons path before ih =>
    obtain ⟨u, hfile, hrest⟩ := importFiles_cons_eq_ok_iff.1 h
    rw [List.cons_append, importFiles_cons, Files.bind_apply, hfile]
    exact ih hrest

theorem importFiles_cons_of_error (h : importFile path r = (.error failure, s)) (rest : List String) :
    importFiles (path :: rest) r = (.error failure, s) := by
  rw [importFiles_cons, Files.bind_apply, h]

/-- Importing a file of a session that can be reached leads to another one. -/
theorem Reached.imported (h : Reached root (.busy r)) (hdescribes : r.files.Describes path document)
    (htakes : r.cache.Takes document) (hroom : (r.session.symbols.extend document.normal.names).size ≤ limit) :
    ∃ s, Reached root (.busy s) ∧ s.session.symbols = r.session.symbols.extend document.normal.names ∧
      s.cache.classes.memory.capacity = r.cache.classes.memory.capacity ∧ Amended r.files s.files := by
  obtain ⟨n, documents, hr⟩ := h.healthy
  have hpaths : List.Forall₂ r.files.Describes [path] [document] := .cons hdescribes .nil
  obtain ⟨s, himport⟩ := (importFiles_singleton_iff hr.steady hr.fits hr.built.size_le hdescribes htakes).2 hroom
  have hall := importAll_of_importFiles hr.steady hpaths himport
  refine ⟨s, ?_, ?_, (Cache.memory_importAll hr.fits hall).1, (hr.steady.imported himport).2.2⟩
  · have hafter : r.after (.importFiles [path]) = s := congrArg Prod.snd himport
    exact hafter ▸ h.after (.importFiles [path])
  · obtain ⟨-, htable, -, -⟩ := (Cache.importAll_eq_ok_iff hr.fits hr.built.size_le).1 hall
    rw [htable, List.flatMap_singleton]

/-- A document is written to a file that had none, which shows all other ones still. -/
theorem Reached.written {place : Place} {bytes text : Bytes} (h : Reached root (.busy r))
    (hlocate : r.files.locate path = .ok place) (hentry : r.files.entryAt? place = some (.file bytes))
    (hquiet : Files.IsQuiet bytes) (hplace : symbolPlace root r.files ≠ place)
    (hmissing : (symbolsOf root).exists? SymbolTable.fileName r.files = false)
    (hdocument : Dialect.document.shape.ofBytes? text = some document) :
    ∃ entries, Reached root (.busy (r.edited entries)) ∧ (r.edited entries).files.Describes path document ∧
      r.files.Shows (r.edited entries).files := by
  have hfile : r.files.entryAt? place ≠ some .directory := by
    rw [hentry]
    exact fun hdirectory => by cases hdirectory
  have hagree : Files.Agree (· = place) r.files (r.files.setEntry place (.file text)) := .setEntry (by rfl) hfile _
  refine ⟨(r.files.setEntry place (.file text)).entries, h.edited (.setEntry hfile hplace hmissing),
    Files.describes_setEntry hlocate hfile hdocument, hagree.shows fun other htouched old hold => ?_⟩
  rw [htouched, hentry] at hold
  cases hold
  exact hquiet

/-! ## Files that are refused -/

/-- Why a file is refused: it cannot be read, it holds no document, or the document is rejected while its names are
interned. -/
inductive Refused (path : String) (r : Run) : Failure → Prop where
  | unreadable {fault : SystemFault} : r.files.read path = .error fault → Refused path r (.read path fault)
  | invalid {bytes : Bytes} : r.files.read path = .ok bytes → Dialect.document.shape.ofBytes? bytes = none →
    Refused path r (.parse path (.format .notADocument))
  | rejected {document : ClassDocument} {error : CacheError} {table : SymbolTable} : r.files.Describes path document →
    document.intern r.session.symbols = (.error error, table) → Refused path r (.cache error)

/-- A document that is refused adds symbols only. -/
theorem importFile_rejected (hr : r.Separate) (hdescribes : r.files.Describes path document)
    (hintern : document.intern r.session.symbols = (.error error, table)) :
    ∃ s, importFile path r = (.error (.cache error), s) ∧ s.cache = r.cache ∧ s.session.symbols = table := by
  obtain ⟨answer, s, himport, hrun, -⟩ := exists_importDocument hr document
  rw [Cache.run_importDocument, hintern] at hrun
  obtain ⟨hanswer, hcache⟩ := Prod.mk.inj hrun
  obtain ⟨rfl, hsymbols⟩ := Prod.mk.inj hanswer
  refine ⟨s, ?_, hcache.symm, hsymbols.symm⟩
  rw [importFile, Files.bind_apply, readDocument_of_describes hdescribes]
  simp only
  rw [Files.bind_apply, himport]
  rfl

/-- A file that is refused leaves the stores as they were. -/
theorem Refused.importFile (hr : r.Separate) (h : Refused path r failure) :
    ∃ s, importFile path r = (.error failure, s) ∧ s.cache = r.cache := by
  cases h with
  | unreadable hread =>
    refine ⟨r, ?_, rfl⟩
    rw [Session.importFile, Files.bind_apply, readDocument_apply, hread]
    rfl
  | invalid hbytes hnone =>
    refine ⟨r, ?_, rfl⟩
    rw [Session.importFile, Files.bind_apply, readDocument_apply, hbytes]
    simp only [hnone]
    rfl
  | rejected hdescribes hintern =>
    obtain ⟨s, himport, hcache, -⟩ := importFile_rejected hr hdescribes hintern
    exact ⟨s, himport, hcache⟩

/-! ## Imports that are tried again -/

/-- Some files were imported, after which the symbols may have got more. If these files and others can be imported from
the start, then they can be imported now, too, and leave the same by names, or the symbols fill the table. -/
theorem importFiles_again {n : Nat} {failed : Run} (hr : r.Healthy root n documents)
    (hbefore : importFiles before r = (.ok (), m)) (hfailed : failed.Steady) (hcache : failed.cache = m.cache)
    (hbuilt : failed.session.symbols.Built) (hgrows : m.session.symbols ≤ failed.session.symbols)
    (hamended : Amended r.files failed.files) {entries : Ordered.Map Place Entry}
    (hkept : ∀ p ∈ before, ∀ d, r.files.Describes p d → (r.edited entries).files.Describes p d)
    (h : importFiles (before ++ paths) (r.edited entries) = (.ok (), s)) :
    (∃ s', importFiles (before ++ paths) (failed.edited entries) = (.ok (), s') ∧
      s'.cache.named s'.session.symbols = s.cache.named s.session.symbols) ∨
    ∃ s', importFiles (before ++ paths) (failed.edited entries) =
        (.error (.cache (.corrupted (.internal .symbolTableFull))), s') ∧
      limit + r.session.symbols.size < failed.session.symbols.size + s.session.symbols.size := by
  -- The documents of all files, of which the first ones are those that were imported.
  obtain ⟨imported, himported⟩ := describes_of_importFiles hr.steady hbefore
  obtain ⟨all, hall⟩ := describes_of_importFiles (hr.steady.edited entries) h
  have hothers := List.forall₂_drop before.length hall
  rw [List.drop_left] at hothers
  have hstay : List.Forall₂ (r.edited entries).files.Describes before imported :=
    ((List.forall₂_and_left before imported).2 ⟨fun _ hp => hp, himported⟩).imp fun p d h => hkept p h.1 d h.2
  have hdocuments := List.rel_append hstay hothers
  have hagain : List.Forall₂ (failed.edited entries).files.Describes (before ++ paths)
      (imported ++ all.drop before.length) :=
    hdocuments.imp fun _ _ hdescribes => (hamended.edited entries).shows.1.describes hdescribes
  have hanswers := answers_importFiles (hfailed.edited entries) hagain
  change Answers (importAll _ failed.session.symbols failed.cache) _ at hanswers
  rw [hcache] at hanswers
  have hwhole : importAll (imported ++ all.drop before.length) (r.edited entries).session.symbols
      (r.edited entries).cache = .ok (s.session.symbols, s.cache) :=
    importAll_of_importFiles (hr.steady.edited entries) hdocuments h
  obtain ⟨table, cache, hretried, hnamed⟩ | ⟨hfull, hroom⟩ := Cache.importAll_again
    (OpenCache.Recorded.cache hr.recorded) hr.fits hr.built (importAll_of_importFiles hr.steady himported hbefore)
    hgrows hbuilt hwhole
  · rw [hretried] at hanswers
    obtain ⟨s', himport, hstate⟩ := hanswers.of_ok
    obtain ⟨rfl, rfl⟩ := Prod.mk.inj hstate
    exact .inl ⟨s', himport, hnamed⟩
  · rw [hfull] at hanswers
    obtain ⟨s', himport⟩ := hanswers.of_error
    exact .inr ⟨s', himport, hroom⟩

/-- An import fails because some file is refused. That leaves the session as importing the files before it does, but for
symbols that were added. If all files can be imported from the start once others than those before it have changed, then
they can be imported now, too, and leave the same by names, or the symbols that were added fill the table. -/
theorem import_retried (hreached : Reached root (.busy r)) (hbefore : importFiles before r = (.ok (), m))
    (hrefused : Refused path m failure) :
    ∃ failed : Run, (∀ rest, importFiles (before ++ path :: rest) r = (.error failure, failed)) ∧
      failed.cache = m.cache ∧ r.session.symbols ≤ m.session.symbols ∧
      m.session.symbols ≤ failed.session.symbols ∧
      ∀ (rest : List String) (entries : Ordered.Map Place Entry) (s : Run),
        (∀ p ∈ before, ∀ d, r.files.Describes p d → (r.edited entries).files.Describes p d) →
        importFiles (before ++ path :: rest) (r.edited entries) = (.ok (), s) →
        (∃ s', importFiles (before ++ path :: rest) (failed.edited entries) = (.ok (), s') ∧
          s'.cache.named s'.session.symbols = s.cache.named s.session.symbols) ∨
        ∃ s', importFiles (before ++ path :: rest) (failed.edited entries) =
            (.error (.cache (.corrupted (.internal .symbolTableFull))), s') ∧
          limit + r.session.symbols.size < failed.session.symbols.size + s.session.symbols.size := by
  obtain ⟨n, documents, hr⟩ := hreached.healthy
  obtain ⟨hleads, hm, hamended⟩ := hr.steady.imported hbefore
  obtain ⟨failed, himport, hcache⟩ := hrefused.importFile hm.separate
  obtain ⟨hfailed, hsteady, hamended'⟩ := hm.imported (importFiles_cons_of_error himport [])
  refine ⟨failed, fun rest => ?_, hcache, hleads.grows.le, hfailed.grows.le, fun rest entries s hkept h => ?_⟩
  · rw [importFiles_append_of_ok hbefore, importFiles_cons_of_error himport]
  · exact importFiles_again hr hbefore hsteady hcache (hfailed.grows.built (hleads.grows.built hr.built))
      hfailed.grows.le (hamended.trans hamended') hkept h

/-- A class is imported and another one is refused, after two of its names were interned. Then a file with a third class
takes the place of the refused one, and both files are imported. -/
theorem import_retried_once :
    ∃ (r m failed s s' : Run) (failure : Failure) (entries : Ordered.Map Place Entry), Reached "/c" (.busy r) ∧
      importFiles ["/A.json"] r = (.ok (), m) ∧ Refused "/B.json" m failure ∧
      importFiles (["/A.json"] ++ ["/B.json"]) r = (.error failure, failed) ∧ failed.cache = m.cache ∧
      importFiles (["/A.json"] ++ ["/B.json"]) (r.edited entries) = (.ok (), s) ∧
      importFiles (["/A.json"] ++ ["/B.json"]) (failed.edited entries) = (.ok (), s') ∧
      s.session.symbols.symbols = ["A", "C"] ∧ failed.session.symbols.symbols = ["A", "B", "S"] ∧
      s'.cache.named s'.session.symbols = s.cache.named s.session.symbols := by
  let a : Files := Files.empty.setEntry ["A.json"] (.file (.ofText "\x7b\"name\":\"A\"\x7d"))
  let t : Files := a.setEntry ["B.json"]
    (.file (.ofText "\x7b\"name\":\"B\",\"superName\":\"S\",\"interfaces\":[\"\"]\x7d"))
  let u : Files := (Session.open "/c" .standard t).2
  let entries : Ordered.Map Place Entry :=
    (u.setEntry ["B.json"] (.file (.ofText "\x7b\"name\":\"C\",\"superName\":\"A\"\x7d"))).entries
  have ht : t.Storeless := (Files.Storeless.empty.setFile (by decide) _).setFile (by decide) _
  obtain ⟨session, hopen, hbefore, ⟨document, hdocument, hrejected⟩, hnames, hkept, hall, hnames'⟩ :
      ∃ s ∈ (Session.open "/c" .standard t).1.toOption, (importFiles ["/A.json"] ⟨s, u, ""⟩).1 = .ok () ∧
      (∃ document ∈ (importFiles ["/A.json"] ⟨s, u, ""⟩).2.files.document? "/B.json",
        (document.intern (importFiles ["/A.json"] ⟨s, u, ""⟩).2.session.symbols).1 =
          .error (.format (.empty "interface name"))) ∧
      (importFiles ["/A.json", "/B.json"] ⟨s, u, ""⟩).2.session.symbols.symbols = ["A", "B", "S"] ∧
      (Run.edited ⟨s, u, ""⟩ entries).files.document? "/A.json" = u.document? "/A.json" ∧
      (importFiles ["/A.json", "/B.json"] (Run.edited ⟨s, u, ""⟩ entries)).1 = .ok () ∧
      (importFiles ["/A.json", "/B.json"] (Run.edited ⟨s, u, ""⟩ entries)).2.session.symbols.symbols = ["A", "C"] := by
    decide +kernel
  have hreached : Reached "/c" (.busy ⟨session, u, ""⟩) :=
    .opened (.new ht.sound ht.unused) (Prod.ext (eq_ok_of_mem hopen) rfl)
  have hrefused : Refused "/B.json" (importFiles ["/A.json"] ⟨session, u, ""⟩).2
      (.cache (.format (.empty "interface name"))) :=
    .rejected hdocument (Prod.ext hrejected rfl)
  obtain ⟨failed, hfailed, hcache, -, -, hagain⟩ := import_retried hreached (Prod.ext hbefore rfl) hrefused
  have hgrown : failed.session.symbols.symbols = ["A", "B", "S"] := by
    have hrun := congrArg (fun state => state.2.session.symbols.symbols) (hfailed [])
    exact hrun.symm.trans hnames
  obtain ⟨s', hretried, hnamed⟩ | ⟨s', -, hroom⟩ := hagain [] entries _
    (List.forall_mem_singleton.2 fun d hd => hkept.trans hd) (Prod.ext hall rfl)
  · exact ⟨_, _, failed, _, s', _, entries, hreached, Prod.ext hbefore rfl, hrefused, hfailed [], hcache,
      Prod.ext hall rfl, hretried, hnames', hgrown, hnamed⟩
  · rw [SymbolTable.size, SymbolTable.size, SymbolTable.size, hgrown] at hroom
    change _ < _ + (importFiles ["/A.json", "/B.json"] _).2.session.symbols.symbols.length at hroom
    rw [hnames'] at hroom
    exact absurd (Nat.lt_of_le_of_lt (Nat.le_add_right _ _) hroom) (by decide)

/-! ## Imports that cannot be tried again -/

/-- A file is refused. Once files have changed its import succeeds if it was not tried before, but not with the same
result after the failure. -/
def Run.Spoils (path : String) (r : Run) : Prop :=
  ∃ (failure : Failure) (failed fresh : Run) (entries : Ordered.Map Place Entry), Refused path r failure ∧
    importFiles [path] r = (.error failure, failed) ∧ importFiles [path] (r.edited entries) = (.ok (), fresh) ∧
    ¬∃ retried, importFiles [path] (failed.edited entries) = (.ok (), retried) ∧
      retried.cache.named retried.session.symbols = fresh.cache.named fresh.session.symbols

/-- After a session that could not save its symbols, a class that was imported in it gets the name of a class that is
refused in the next session, and that name makes a difference when the file of the refused class holds another one. -/
theorem exists_spoiled_unsaved : ∃ (t : Files) (v : Visit) (r : Run), t.Sound ∧ Unused "/c" t ∧ ¬v.Saves "/c" t ∧
    Session.open "/c" .standard (v.run "/c" t) = (.ok r.session, r.files) ∧ r.Spoils "/B.json" := by
  let a : Files := Files.empty.setEntry ["A.json"] (.file (.ofText "\x7b\"name\":\"A\"\x7d"))
  let b : Files := a.setEntry ["B.json"]
    (.file (.ofText "\x7b\"name\":\"Z\",\"interfaces\":[\"\"]\x7d"))
  -- A file is in the way of the directory of the symbols.
  let t : Files := (b.setEntry ["c"] .directory).setEntry ["c", "symbols"] (.file (.ofText "x"))
  let v : Visit := ⟨.standard, [.importFiles ["/A.json"]], false⟩
  let u : Files := (Session.open "/c" .standard (v.run "/c" t)).2
  let entries : Ordered.Map Place Entry :=
    (u.setEntry ["B.json"] (.file (.ofText "\x7b\"name\":\"B\"\x7d"))).entries
  have hdirectory : ∀ id, Entry.directory ≠ .store id := by
    intro id h
    cases h
  have hb : b.Storeless := (Files.Storeless.empty.setFile (by decide) _).setFile (by decide) _
  have ht : t.Storeless := (hb.setEntry (by decide) hdirectory).setFile (by decide) _
  have hunsaved : ¬v.Saves "/c" t := by decide +kernel
  obtain ⟨s, hopen, ⟨document, hdocument, hrejected⟩, hfailed, hfresh, hnames, hretried, hsymbol, hrecord⟩ :
      ∃ s ∈ (Session.open "/c" .standard (v.run "/c" t)).1.toOption,
      (∃ document ∈ u.document? "/B.json",
        (document.intern s.symbols).1 = .error (.format (.empty "interface name"))) ∧
      (importFiles ["/B.json"] ⟨s, u, ""⟩).1 = .error (.cache (.format (.empty "interface name"))) ∧
      (importFiles ["/B.json"] (Run.edited ⟨s, u, ""⟩ entries)).1 = .ok () ∧
      (importFiles ["/B.json"] (Run.edited ⟨s, u, ""⟩ entries)).2.session.symbols.symbols = ["B"] ∧
      (importFiles ["/B.json"] ((importFiles ["/B.json"] ⟨s, u, ""⟩).2.edited entries)).1 = .ok () ∧
      (importFiles ["/B.json"] ((importFiles ["/B.json"] ⟨s, u, ""⟩).2.edited entries)).2.session.symbols.symbol? 0 =
        some "Z" ∧
      ∃ document ∈ t.document? "/A.json", ∃ record ∈ (document.intern .empty).1.toOption,
        (importFiles ["/B.json"] ((importFiles ["/B.json"] ⟨s, u, ""⟩).2.edited entries)).2.cache.classes.rows.get?
          (StoreKey.encode (0 : SymbolId)) = some (Storable.form.toBytes record.withoutReferences) := by
    decide +kernel
  refine ⟨t, v, ⟨s, u, ""⟩, ht.sound, ht.unused, hunsaved, Prod.ext (eq_ok_of_mem hopen) rfl, _, _, _, entries,
    .rejected hdocument (Prod.ext hrejected rfl), Prod.ext hfailed rfl, Prod.ext hfresh rfl, ?_⟩
  -- There is a record of that name in one session, and the name is unknown in the other one.
  rintro ⟨retried, hrun, hsame⟩
  obtain rfl := (congrArg Prod.snd hrun).symm
  obtain ⟨_, -, record, -, hrow⟩ := hrecord
  have hmem : (some "Z", _) ∈ Cache.Named.records (Cache.named _ _) :=
    ⟨0, record.withoutReferences, hrow, by rw [hsymbol]⟩
  rw [hsame] at hmem
  obtain ⟨q, _, -, hnamed⟩ := hmem
  have hknown := SymbolTable.mem_of_symbol? (Prod.mk.inj hnamed).1.symm
  rw [hnames] at hknown
  exact absurd hknown (by decide)

/-- A class that implements interfaces and has nothing else. -/
def implementing (name : String) (interfaces : List String) : ClassDocument :=
  { ClassDocument.new name with interfaces }

variable {name : String} {interfaces : List String}

theorem names_implementing : (implementing name interfaces).normal.names = name :: interfaces := by
  simp [implementing, ClassDocument.new, ClassShape.normal, ClassShape.names, normalName, annotationsNames]

theorem wellFormed_implementing : (implementing name interfaces).WellFormed ↔ "" ∉ name :: interfaces := by
  rw [← names_implementing]
  exact ⟨fun h => h.1, fun h => ⟨h, List.forall_mem_nil _, List.forall_mem_nil _⟩⟩

theorem ofBytes?_implementing (name : String) (interfaces : List String) :
    Dialect.document.shape.ofBytes? (Dialect.document.shape.toBytes (implementing name interfaces)) =
      some (implementing name interfaces) := by
  refine RecordType.classDocument.ofBytes?_toBytes ?_ ?_
  · exact ⟨List.forall_mem_nil _, List.forall_mem_nil _, List.forall_mem_nil _, List.forall_mem_nil _⟩
  · have hdepth : (Dialect.document.shape.write (implementing name interfaces)).depth ≤ 1 + 1 := by
      have hnames : (Json.array (interfaces.map Json.ofText)).depth ≤ 0 + 1 := by
        rw [Json.depth_array_le, List.forall_mem_map]
        exact fun _ _ => Nat.le_refl 0
      rw [Dialect.shape, Json.depth_record_le]
      have hflat : 0 ≤ 1 := Nat.zero_le 1
      simp only [List.forall_mem_cons]
      exact ⟨hflat, hflat, hnames, hflat, hflat, hflat, hflat, le_rfl, le_rfl, le_rfl, le_rfl, le_rfl,
        List.forall_mem_nil _⟩
    exact Nat.le_trans hdepth (by decide)

/-- A class that is refused for its interface. -/
def unnamed : ClassDocument :=
  implementing "Z" [""]

theorem intern_unnamed {t : SymbolTable} (hroom : (t.extend ["Z"]).size ≤ limit) :
    unnamed.intern t = (.error (.format (.empty "interface name")), t.extend ["Z"]) := by
  have hmet : unnamed.metNames = ["Z"] := by decide
  have hfault : unnamed.sites.findSome? Site.fault? = some (.empty "interface name") := by decide
  obtain ⟨hresult, htable⟩ := ClassShape.intern_eq (c := unnamed) (t := t) (hmet ▸ hroom)
  rw [hmet] at htable
  rw [hfault] at hresult
  rcases hintern : unnamed.intern t with ⟨error | record, u⟩
  · rw [hintern] at hresult htable
    cases hresult
    cases htable
    rfl
  · rw [hintern] at hresult
    cases hresult

/-- Any names can become the symbols of a session. -/
theorem exists_reached_symbols {name : String} {names : List String} (hnames : "" ∉ name :: names)
    (hnodup : (name :: names).Nodup) (hroom : (name :: names).length ≤ limit) :
    ∃ (r : Run) (entries : Ordered.Map Place Entry), Reached "/c" (.busy r) ∧
      r.session.symbols.symbols = name :: names ∧ r.cache.classes.memory.capacity ≠ 0 ∧
      r.files.Describes "/B.json" unnamed ∧
      (r.edited entries).files.Describes "/B.json" (implementing "B" []) := by
  let a : Files := Files.empty.setEntry ["A.json"] (.file (.ofText "x"))
  let t : Files := a.setEntry ["B.json"] (.file (.ofText "\x7b\"name\":\"Z\",\"interfaces\":[\"\"]\x7d"))
  let u : Files := (Session.open "/c" .standard t).2
  let entries : Ordered.Map Place Entry :=
    (u.setEntry ["B.json"] (.file (.ofText "\x7b\"name\":\"B\"\x7d"))).entries
  have ht : t.Storeless := (Files.Storeless.empty.setFile (by decide) _).setFile (by decide) _
  obtain ⟨session, hopen, hsymbols, hcapacity, hrejected, haccepted, hlocate, hentry, hquiet, hplace, hmissing⟩ :
      ∃ s ∈ (Session.open "/c" .standard t).1.toOption, s.symbols = .empty ∧
        (Run.cache ⟨s, u, ""⟩).classes.memory.capacity ≠ 0 ∧
        u.document? "/B.json" = some unnamed ∧
        Files.document? { u with entries } "/B.json" = some (implementing "B" []) ∧
        u.locate "/A.json" = .ok ["A.json"] ∧ u.entryAt? ["A.json"] = some (.file (.ofText "x")) ∧
        Dialect.document.shape.ofBytes? (.ofText "x") = none ∧ symbolPlace "/c" u ≠ ["A.json"] ∧
        (symbolsOf "/c").exists? SymbolTable.fileName u = false := by
    decide +kernel
  have hopened : Reached "/c" (.busy ⟨session, u, ""⟩) :=
    .opened (.new ht.sound ht.unused) (Prod.ext (eq_ok_of_mem hopen) rfl)
  -- A class that has all the names takes the place of what is no class.
  obtain ⟨entries', hwritten, hdescribes, hshows⟩ := hopened.written hlocate hentry hquiet hplace hmissing
    (ofBytes?_implementing name names)
  have hadded : (SymbolTable.empty.extend (name :: names)).symbols = name :: names := SymbolTable.symbols_extend hnodup
  have hextend : (Run.edited ⟨session, u, ""⟩ entries').session.symbols.extend (implementing name names).normal.names =
      SymbolTable.empty.extend (name :: names) := by
    rw [names_implementing]
    exact congrArg (SymbolTable.extend · (name :: names)) hsymbols
  have hfits : (SymbolTable.empty.extend (name :: names)).size ≤ limit := by rwa [SymbolTable.size, hadded]
  obtain ⟨r, hreached, hextended, hcapacity', hamended⟩ := hwritten.imported hdescribes
    ⟨wellFormed_implementing.2 hnames, .inr hcapacity⟩ (hextend ▸ hfits)
  rw [hextend] at hextended
  refine ⟨r, entries, hreached, hextended ▸ hadded, hcapacity' ▸ hcapacity, ?_, ?_⟩
  · exact hamended.shows.1.describes (hshows.describes hrejected)
  · have hedited : Amended { u with entries } { r.files with entries } := hamended.edited entries
    exact hedited.shows.1.describes haccepted

/-- There are as many names as one likes besides some others. -/
theorem exists_names (others : List String) (count : Nat) :
    ∃ names : List String, names.length = count ∧ names.Nodup ∧ ∀ name ∈ names, name ∉ others := by
  have : Infinite String := .of_injective String.ofList fun _ _ heq => String.ofList_injective heq
  obtain ⟨names, hsubset, hcard⟩ := Infinite.exists_superset_card_eq others.toFinset (others.toFinset.card + count)
    (Nat.le_add_right _ _)
  refine ⟨(names \ others.toFinset).toList, ?_, Finset.nodup_toList _, fun name hmem => ?_⟩
  · rw [Finset.length_toList, Finset.card_sdiff_of_subset hsubset, hcard, Nat.add_sub_cancel_left]
  · rw [Finset.mem_toList, Finset.mem_sdiff, List.mem_toFinset] at hmem
    exact hmem.2

/-- A class that is refused leaves no room for another one. -/
theorem Run.Healthy.spoils {n : Nat} {other : ClassDocument} {entries : Ordered.Map Place Entry}
    (hr : r.Healthy root n documents) (hrejected : r.files.Describes path document)
    (hintern : document.intern r.session.symbols = (.error error, table))
    (haccepted : (r.edited entries).files.Describes path other) (htakes : r.cache.Takes other)
    (hroom : (r.session.symbols.extend other.normal.names).size ≤ limit)
    (hfull : limit < (table.extend other.normal.names).size) : r.Spoils path := by
  obtain ⟨failed, himport, hcache, rfl⟩ := importFile_rejected hr.separate hrejected hintern
  have hfailure := importFiles_cons_of_error himport []
  obtain ⟨fresh, hfresh⟩ := (importFiles_singleton_iff (hr.steady.edited entries) hr.fits hr.built.size_le haccepted
    htakes).2 hroom
  refine ⟨_, failed, fresh, entries, .rejected hrejected hintern, hfailure, hfresh, ?_⟩
  rintro ⟨retried, hretried, -⟩
  obtain ⟨hleads, hfailed, hamended⟩ := hr.steady.imported hfailure
  have hroom' := (importFiles_singleton_iff (hfailed.edited entries) (hcache ▸ hr.fits)
    (hleads.grows.built hr.built).size_le ((hamended.edited entries).shows.1.describes haccepted)
    (hcache ▸ htakes)).1 ⟨retried, hretried⟩
  exact Nat.not_lt.2 hroom' hfull

/-- A table that has room for one more symbol is filled by a class that is refused. -/
theorem exists_spoiled_full : ∃ r : Run, Reached "/c" (.busy r) ∧ r.Spoils "/B.json" := by
  obtain ⟨names, hlength, hnodup, hnew⟩ := exists_names ["", "A", "Z", "B"] (limit - 2)
  have hcount : ("A" :: names).length + 1 = limit := by
    rw [List.length_cons, hlength]
    decide
  have hall : ("A" :: names ++ ["Z", "B"]).Nodup := by
    refine List.nodup_append.2 ⟨List.nodup_cons.2 ⟨fun h => hnew _ h (by decide), hnodup⟩, by decide, ?_⟩
    rintro name hmem _ hmem' rfl
    obtain rfl | hmem := List.mem_cons.1 hmem
    · exact absurd hmem' (by decide)
    · exact hnew name hmem (List.Sublist.subset (by decide) hmem')
  have hempty : "" ∉ "A" :: names := by
    rw [List.mem_cons, not_or]
    exact ⟨by decide, fun h => hnew _ h (by decide)⟩
  obtain ⟨r, entries, hreached, hsymbols, hcapacity, hrejected, haccepted⟩ :=
    exists_reached_symbols hempty (List.nodup_append.1 hall).1 (Nat.le_of_lt (Nat.lt_of_succ_le (Nat.le_of_eq hcount)))
  have hsize {others : List String} (h : others.Sublist ["Z", "B"]) :
      (r.session.symbols.extend others).size = ("A" :: names).length + others.length := by
    rw [SymbolTable.size, SymbolTable.symbols_extend (hsymbols ▸ hall.sublist (h.append_left _)), List.length_append,
      hsymbols]
  have htakes : r.cache.Takes (implementing "B" []) :=
    ⟨wellFormed_implementing.2 (by decide), .inr hcapacity⟩
  -- There is room for either class, but not for both.
  have hintern := intern_unnamed (Nat.le_of_eq ((hsize (by decide : ["Z"].Sublist _)).trans hcount))
  have hroom := Nat.le_of_eq ((hsize (by decide : ["B"].Sublist _)).trans hcount)
  have hfull : limit < (r.session.symbols.extend ["Z", "B"]).size := by
    rw [hsize (List.Sublist.refl _), ← hcount]
    exact Nat.lt_succ_self _
  obtain ⟨n, documents, hr⟩ := hreached.healthy
  exact ⟨r, hreached, hr.spoils hrejected hintern haccepted htakes hroom hfull⟩

/-- A failed import can make a difference after a session that could not save its symbols, and when the table is almost
full. -/
theorem import_not_retried :
    (∃ (t : Files) (v : Visit) (r : Run), t.Sound ∧ Unused "/c" t ∧ ¬v.Saves "/c" t ∧
      Session.open "/c" .standard (v.run "/c" t) = (.ok r.session, r.files) ∧ r.Spoils "/B.json") ∧
    ∃ r : Run, Reached "/c" (.busy r) ∧ r.Spoils "/B.json" :=
  ⟨exists_spoiled_unsaved, exists_spoiled_full⟩

end Session

end ClassDeps
