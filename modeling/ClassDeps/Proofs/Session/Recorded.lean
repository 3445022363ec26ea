import ClassDeps.Cli.Program
import ClassDeps.Proofs.Cache.Committed
import ClassDeps.Proofs.Cache.Spared
import ClassDeps.Proofs.Session.Imports

/-!
# What a session writes

Every command of a session writes records and edges of the documents that it imports, with the numbers of its own
table, and nothing else; its table grows by interning. This holds up to the point where a command fails, too.

## Main definitions

* `Session.Run.Recorded` — everything in the stores of a session was made of some documents
* `Session.Run.Leads` — what a session leads to
* `Session.imports`, `Run.allImported` — the documents that commands take up
* `Session.Run.after` — a session after a command

## Main statements

* `Session.Run.Leads.bind` — one command after the other
* `Session.leads_importFiles` — imports
* `Session.leads_after`, `leads_foldl_after` — commands
-/

namespace ClassDeps.Session

open Files (Spares)

/-- Everything in the stores of a session was made of some documents with the numbers of its table. -/
def Run.Recorded (n : Nat) (documents : List ClassDocument) (r : Run) : Prop :=
  r.session.cache.Recorded n documents r.session.symbols r.files

/-- A session leads to a later state of it: the table grows by interning, nothing but its stores is written, so that
nothing but stores and logs changes, and what was made of some documents with the numbers of the table still is. -/
structure Run.Leads (kept : Place → Prop) (n : Nat) (documents : List ClassDocument) (r s : Run) : Prop where
  recorded : r.Recorded n documents → s.Recorded n documents
  spares : Spares kept (fun _ => True) r.files s.files
  grows : r.session.symbols.Interned s.session.symbols
  root : s.session.cache.root = r.session.cache.root
  symbolStore : s.session.symbolStore = r.session.symbolStore
  handles : s.session.cache.handles = r.session.cache.handles
  commits : Files.Commits r.session.cache.handles r.files s.files
  fits : r.session.cache.classes.store.memory.Fits → s.session.cache.classes.store.memory.Fits

variable {kept : Place → Prop} {n : Nat} {documents : List ClassDocument} {r s u : Run} {α β : Type}

namespace Run.Leads

theorem refl (r : Run) : r.Leads kept n documents r :=
  ⟨id, .refl _, .refl, rfl, rfl, rfl, .refl, id⟩

theorem trans (h : r.Leads kept n documents s) (h' : s.Leads kept n documents u) :
    r.Leads kept n documents u where
  recorded hr := h'.recorded (h.recorded hr)
  spares := h.spares.trans h'.spares
  grows := h.grows.trans h'.grows
  root := h'.root.trans h.root
  symbolStore := h'.symbolStore.trans h.symbolStore
  handles := h'.handles.trans h.handles
  commits := h.commits.trans (h.handles ▸ h'.commits)
  fits hr := h'.fits (h.fits hr)

/-- A command, and what comes next if it does not fail. -/
theorem bind {op : Command α} {next : α → Command β} (hop : r.Leads kept n documents (op r).2)
    (hnext : ∀ a s, op r = (.ok a, s) → s.Leads kept n documents (next a s).2) :
    r.Leads kept n documents ((op >>= next) r).2 := by
  rw [Files.bind_apply]
  match h : op r with
  | (.ok a, s) =>
    rw [h] at hop
    exact hop.trans (hnext a s h)
  | (.error error, s) =>
    rw [h] at hop
    exact hop

end Run.Leads

theorem leads_print (text : String) (r : Run) : r.Leads kept n documents (print text r).2 :=
  ⟨id, .refl _, .refl, rfl, rfl, rfl, .refl, id⟩

theorem leads_symbolTable (r : Run) : r.Leads kept n documents (symbolTable r).2 :=
  .refl r

theorem leads_classId (name : String) (r : Run) : r.Leads kept n documents (classId name r).2 := by
  refine (leads_symbolTable r).bind fun table s _ => ?_
  cases table.id? name with
  | none => exact .refl s
  | some id => exact .refl s

theorem readDocument_snd (path : String) (r : Run) : (readDocument path r).2 = r := by
  rw [readDocument_apply]
  cases r.files.read path with
  | error fault => rfl
  | ok bytes =>
    simp only
    cases Dialect.document.shape.ofBytes? bytes <;> rfl

/-- The documents that importing files takes up, up to the first file whose import fails. -/
def imports : List String → Run → List ClassDocument
  | [], _ => []
  | path :: rest, r =>
    match readDocument path r with
    | (.error _, _) => []
    | (.ok document, _) =>
      document :: match importFile path r with
        | (.ok (), s) => imports rest s
        | (.error _, _) => []

section Operations

variable (haside : ∀ place, kept place → place.Aside)

include haside

/-- An operation of the cache that keeps it recorded. -/
theorem leads_onCache {op : Cache.Op α} (hop : ∀ (c : Cache) (table : SymbolTable), c.Recorded documents table →
      (c.after op).Recorded documents table)
    (hfits : ∀ c : Cache, c.classes.memory.Fits → (c.after op).classes.memory.Fits) (r : Run) :
    r.Leads kept n documents (onCache op r).2 := by
  rw [onCache_eq op r rfl]
  exact {
    recorded := fun h => OpenCache.Recorded.run h (hop _ _ h.cache) (SymbolTable.le_refl _)
    spares := OpenCache.spares_run haside fun _ _ => trivial
    grows := .refl
    root := rfl
    symbolStore := rfl
    handles := rfl
    commits := OpenCache.commits_run _ _ _
    fits := hfits r.cache }

/-- An operation that leaves the cache as it was. -/
theorem leads_onCache_of_same {op : Cache.Op α} (hop : ∀ c : Cache, c.after op = c) (r : Run) :
    r.Leads kept n documents (onCache op r).2 :=
  leads_onCache haside (fun c _ h => (hop c).symm ▸ h) (fun c h => (hop c).symm ▸ h) r

theorem leads_importDocument {document : ClassDocument} (hdocument : document ∈ documents) (r : Run) :
    r.Leads kept n documents (importDocument document r).2 := by
  have hgrows := Cache.interned_importDocument r.cache document r.session.symbols
  rw [importDocument_eq document r rfl]
  exact {
    recorded := fun h => OpenCache.Recorded.run h (h.cache.importDocument hdocument rfl) hgrows.le
    spares := OpenCache.spares_run haside fun _ _ => trivial
    grows := hgrows
    root := rfl
    symbolStore := rfl
    handles := rfl
    commits := OpenCache.commits_run _ _ _
    fits := (Cache.steps_apply (.importDocument document r.session.symbols) r.cache).classes.fits }

theorem leads_importFile {path : String}
    (hdocument : ∀ document s, readDocument path r = (.ok document, s) → document ∈ documents) :
    r.Leads kept n documents (importFile path r).2 := by
  have hread : r.Leads kept n documents (readDocument path r).2 := by
    rw [readDocument_snd]
    exact .refl r
  refine hread.bind fun document s hread => ?_
  refine (leads_importDocument haside (hdocument document s hread) s).bind fun q s _ => ?_
  refine (leads_onCache haside (fun _ _ h => h.indexReferences q) (Cache.fits_apply (.indexReferences q)) s).bind
    fun _ s _ => ?_
  exact (leads_symbolTable s).bind fun table s _ => leads_print _ s

/-- Imports write what was made of the documents that they take up, also when one of them fails. -/
theorem leads_importFiles {paths : List String} (hdocuments : imports paths r ⊆ documents) :
    r.Leads kept n documents (importFiles paths r).2 := by
  induction paths generalizing r with
  | nil => exact .refl r
  | cons path rest ih =>
    rw [importFiles_cons]
    have hfirst : ∀ document s, readDocument path r = (.ok document, s) → document ∈ documents := by
      intro document s hread
      refine hdocuments ?_
      rw [imports, hread]
      exact List.mem_cons_self
    refine (leads_importFile haside hfirst).bind fun _ s himport => ih ?_
    -- A file that was imported was read, so that the documents of the others follow.
    obtain ⟨document, s', hread, -⟩ := Files.exists_of_bind himport
    rw [imports, hread, himport] at hdocuments
    exact fun d hd => hdocuments (List.mem_cons_of_mem document hd)

/-! ## Commands -/

theorem leads_listClasses (r : Run) : r.Leads kept n documents (listClasses r).2 := by
  have hnames (c : Cache) : c.after Cache.classNames = c := by
    rw [Cache.after, Cache.perform_classNames]
  refine (leads_onCache_of_same haside hnames r).bind fun names s _ => ?_
  exact (leads_symbolTable s).bind fun table s _ => leads_print _ s

theorem leads_showClass (name : String) (r : Run) : r.Leads kept n documents (showClass name r).2 := by
  refine (leads_classId name r).bind fun q s _ => ?_
  refine (leads_onCache haside (fun _ _ h => h.getClass q) (Cache.fits_apply (.getClass q)) s).bind fun found s _ => ?_
  cases found with
  | none => exact .refl s
  | some record =>
    refine (leads_onCache haside (fun _ _ h => h.isRemote q) (Cache.fits_apply (.isRemote q)) s).bind
      fun remote s _ => ?_
    refine (leads_onCache_of_same haside (fun _ => rfl) s).bind fun subclasses s _ => ?_
    exact (leads_symbolTable s).bind fun table s _ => leads_print _ s

theorem leads_showDependencies (name : String) (r : Run) :
    r.Leads kept n documents (showDependencies name r).2 := by
  refine (leads_classId name r).bind fun q s _ => ?_
  have hfits (c : Cache) (h : c.classes.memory.Fits) : (c.after (Cache.backDependencies q)).classes.memory.Fits :=
    (c.after_backDependencies q).symm ▸ Cache.fits_apply (.getClass q) c h
  refine (leads_onCache haside (fun _ _ h => h.backDependencies q) hfits s).bind fun found s _ => ?_
  split
  · exact leads_print _ s
  · exact (leads_symbolTable s).bind fun table s _ => leads_print _ s

theorem leads_removeClass (name : String) (r : Run) : r.Leads kept n documents (removeClass name r).2 := by
  refine (leads_classId name r).bind fun q s _ => ?_
  exact (leads_onCache haside (fun _ _ h => h.removeClass q) (Cache.fits_apply (.removeClass q)) s).bind
    fun _ s _ => leads_print _ s

theorem leads_showStats (r : Run) : r.Leads kept n documents (showStats r).2 := by
  refine (leads_onCache_of_same haside (fun _ => rfl) r).bind fun stats s _ => ?_
  exact (leads_symbolTable s).bind fun table s _ => leads_print _ s

end Operations

/-! ## Sequences of commands -/

/-- A session after a command, which may have failed. Wiping is no command of a session. -/
def Run.after (r : Run) (command : Cli.Command) : Run :=
  match command.ofSession? with
  | none => r
  | some op => (op.run r).2

/-- The documents that a command takes up. -/
def Run.imported (r : Run) : Cli.Command → List ClassDocument
  | .importFiles paths => imports paths r
  | _ => []

/-- The documents that commands take up, one after the other. -/
def Run.allImported : Run → List Cli.Command → List ClassDocument
  | _, [] => []
  | r, command :: rest => r.imported command ++ (r.after command).allImported rest

theorem leads_after (haside : ∀ place, kept place → place.Aside) {command : Cli.Command}
    (hdocuments : r.imported command ⊆ documents) : r.Leads kept n documents (r.after command) := by
  cases command with
  | classes => exact leads_listClasses haside r
  | showClass name => exact leads_showClass haside name r
  | dependencies name => exact leads_showDependencies haside name r
  | importFiles paths => exact leads_importFiles haside hdocuments
  | remove name => exact leads_removeClass haside name r
  | stats => exact leads_showStats haside r
  | wipe => exact .refl r

/-- What commands write was made of the documents that they take up. -/
theorem leads_foldl_after (haside : ∀ place, kept place → place.Aside) {commands : List Cli.Command}
    (hdocuments : r.allImported commands ⊆ documents) :
    r.Leads kept n documents (commands.foldl Run.after r) := by
  induction commands generalizing r with
  | nil => exact .refl r
  | cons command rest ih =>
    have hboth := List.append_subset.1 hdocuments
    exact (leads_after haside hboth.1).trans (ih hboth.2)

end ClassDeps.Session
