import ClassDeps.Proofs.Cache.Meaning
import ClassDeps.Proofs.Session.Recorded
import ClassDeps.Proofs.Symbols.Saved

/-!
# Numbers keep their meaning

Records go to the stores at once, symbols to the disk only when a session ends. Whatever the sessions on a directory
do, and however their commands fail, every number in the stores stands afterwards for the name that it was made of,
if the symbols can be saved.

## Main definitions

* `Visit`, `Visit.run` — a session from its opening to its end
* `Visits` — visits one after the other, and what others do meanwhile

## Main statements

* `Visit.run_ofCommand` — a run of the program is a visit
* `Visits.ids_keep_meaning` — what the stores hold means the documents that were imported
-/

namespace ClassDeps

open Files (Spares)
open SymbolTable (onDisk)

/-! ## The file of the symbols -/

namespace Session

/-- The directory of the symbols of a cache. -/
def symbolsOf (root : String) : JsonStore :=
  ⟨Path.join root symbolDirectory⟩

/-- Where the symbols of a cache are saved. -/
def symbolPlace (root : String) (t : Files) : Place :=
  (symbolsOf root).place SymbolTable.fileName t

/-- The symbols of a cache that are saved. -/
def savedSymbols (root : String) (t : Files) : SymbolTable :=
  onDisk (symbolsOf root) t

theorem symbolPlace_eq (root : String) (t : Files) :
    symbolPlace root t = t.target root ++ [symbolDirectory] ++ [SymbolTable.fileName] := by
  have hdirectory : Path.IsName symbolDirectory := ⟨by decide, by decide, by decide⟩
  have hfile : Path.IsName SymbolTable.fileName := ⟨by decide, by decide, by decide⟩
  rw [symbolPlace, JsonStore.place, JsonStore.filePath, Files.target_join _ _ hfile, symbolsOf,
    Files.target_join _ _ hdirectory]

theorem aside_symbolPlace (root : String) (t : Files) : (symbolPlace root t).Aside := by
  rw [symbolPlace_eq]
  exact Place.aside_concat _ (by decide) (by decide)

theorem aside_of_eq {t : Files} {root : String} {place : Place} (h : place = symbolPlace root t) : place.Aside :=
  h ▸ aside_symbolPlace root t

/-- The symbols stand in a directory of their own. -/
theorem dropLast_symbolPlace (root : String) (t : Files) : (symbolPlace root t).dropLast ≠ t.target root := by
  rw [symbolPlace_eq, List.dropLast_concat]
  exact fun heq => by simpa using congrArg List.length heq

/-! ## The life of a session -/

variable {root : String} {config : Config} {t u : Files} {s : Session}

theorem open_eq (root : String) (config : Config) (t : Files) :
    Session.open root config t = match SymbolTable.load (symbolsOf root) t with
      | .error error => (.error (.loadSymbols error), t)
      | .ok symbols => match OpenCache.open root config t with
        | (.error error, t) => (.error (.cache error), t)
        | (.ok cache, t) => (.ok ⟨cache, symbols, symbolsOf root⟩, t) := rfl

theorem of_open (h : Session.open root config t = (.ok s, u)) :
    SymbolTable.load (symbolsOf root) t = .ok s.symbols ∧ OpenCache.open root config t = (.ok s.cache, u) ∧
      s.symbolStore = symbolsOf root := by
  rw [open_eq] at h
  split at h
  · cases h
  · rename_i hload
    split at h
    · cases h
    · rename_i hopen
      cases h
      exact ⟨hload, hopen, rfl⟩

/-- Opening a session spares the files that are none of its cache, whatever becomes of it. -/
theorem spares_open {kept : Place → Prop} {good : StoreContents → Prop}
    (haside : ∀ place, kept place → place.Aside) (hempty : ∀ kind, good (.empty kind))
    {result : Except Failure Session} (h : Session.open root config t = (result, u)) : Spares kept good t u := by
  have hopen : Spares kept good t (OpenCache.open root config t).2 :=
    OpenCache.spares_open haside hempty root config t
  rw [open_eq] at h
  split at h
  · cases h
    exact .refl t
  · split at h
    · rename_i hcache
      rw [hcache] at hopen
      cases h
      exact hopen
    · rename_i hcache
      rw [hcache] at hopen
      cases h
      exact hopen

end Session

/-! ## Visits -/

/-- What someone does with a cache: open a session, run some commands in it, whether they fail or not, and close it
or wipe the cache. Wiping among the commands counts for nothing. -/
structure Visit where
  config : Config
  commands : List Cli.Command
  wipes : Bool

namespace Visit

variable (v : Visit) (root : String) (t : Files)

/-- The session after the commands. -/
def work (s : Session) (t : Files) : Session.Run :=
  v.commands.foldl Session.Run.after ⟨s, t, ""⟩

/-- The files after the session has ended. -/
def finish (r : Session.Run) : Files :=
  if v.wipes then (r.session.wipe r.files).2 else (r.session.close r.files).2

/-- The files after a visit. Opening the session may fail. -/
def run : Files :=
  match Session.open root v.config t with
  | (.error _, u) => u
  | (.ok s, u) => v.finish (v.work s u)

/-- The documents that a visit imports. -/
def documents : List ClassDocument :=
  match Session.open root v.config t with
  | (.error _, _) => []
  | (.ok s, u) => Session.Run.allImported ⟨s, u, ""⟩ v.commands

/-- The symbols can be saved when the session ends. -/
def Saves : Prop :=
  ∀ s u, Session.open root v.config t = (.ok s, u) →
    ((v.work s u).session.symbols.save (v.work s u).session.symbolStore (v.work s u).files).1 = .ok ()

instance : Decidable (v.Saves root t) :=
  match hopen : Session.open root v.config t with
  | (.error _, _) => .isTrue fun s u h => by
    rw [hopen] at h
    cases h
  | (.ok s, u) =>
    match hsave : (v.work s u).session.symbols.save (v.work s u).session.symbolStore (v.work s u).files with
    | (.ok (), _) => .isTrue fun s u h => by
      rw [hopen] at h
      cases h
      rw [hsave]
    | (.error _, _) => .isFalse fun h => by
      have hsaved := h s u hopen
      rw [hsave] at hsaved
      cases hsaved

/-- The visit of one run of the program. -/
def ofCommand (command : Cli.Command) (config : Config) : Visit :=
  ⟨config, [command], command.ofSession?.isNone⟩

/-- A run of the program leaves what the visit with its only command leaves. -/
theorem run_ofCommand (command : Cli.Command) (root : String) (config : Config) (t : Files) :
    (Cli.runCommand command root config t).2.2 = (ofCommand command config).run root t := by
  unfold Cli.runCommand run
  simp only [ofCommand]
  obtain ⟨error | session, u⟩ := Session.open root config t
  · rfl
  · simp only [work, finish, List.foldl_cons, List.foldl_nil, Session.Run.after]
    cases command.ofSession? with
    | none =>
      simp only [Option.isNone_none, if_true]
      obtain ⟨error | wiped, w⟩ := session.wipe u
      · rfl
      · rfl
    | some op =>
      simp only [Option.isNone_some, Bool.false_eq_true, if_false]
      obtain ⟨result, r⟩ := op.run ⟨session, u, ""⟩
      simp only
      cases result with
      | error failure => simp only
      | ok => simp only

theorem run_of_error {error : Failure} {u : Files} (h : Session.open root v.config t = (.error error, u)) :
    v.run root t = u := by
  rw [run, h]

theorem run_of_open {s : Session} {u : Files} (h : Session.open root v.config t = (.ok s, u)) :
    v.run root t = v.finish (v.work s u) := by
  rw [run, h]

/-! ## The end of a visit -/

section

variable {v : Visit} {root : String} {t u : Files} {s : Session} {n : Nat} {documents : List ClassDocument}

/-- The end of a session whose symbols can be saved: they are on disk, and no store changes. -/
theorem of_finish {r : Session.Run} (hstore : r.session.symbolStore = Session.symbolsOf root)
    (hroot : r.session.cache.root = root) (hbuilt : r.session.symbols.Built)
    (hclean : r.session.symbols.dirty = false → r.session.symbols ≤ Session.savedSymbols root r.files)
    (hsave : (r.session.symbols.save r.session.symbolStore r.files).1 = .ok ()) :
    r.session.symbols ≤ Session.savedSymbols root (v.finish r) ∧
      Spares (fun _ => False) (fun _ => False) r.files (v.finish r) := by
  match hrun : r.session.symbols.save r.session.symbolStore r.files with
  | (.error error, table, w) =>
    rw [hrun] at hsave
    cases hsave
  | (.ok (), table, w) =>
    have hsaved := hrun
    rw [hstore] at hsaved
    obtain ⟨hle, hspares⟩ := SymbolTable.le_onDisk_of_save hbuilt hclean hsaved
    have hend : Spares (· = Session.symbolPlace root w) (fun _ => False) w (v.finish r) := by
      unfold finish
      split
      · rw [Session.wipe, hrun]
        simp only
        refine r.session.cache.spares_wipe (fun _ => Session.aside_of_eq) w fun place hplace => ?_
        rw [hplace, hroot]
        exact Session.dropLast_symbolPlace root w
      · rw [Session.close, hrun]
        simp only
        exact r.session.cache.spares_close (fun _ => Session.aside_of_eq) w
    refine ⟨SymbolTable.le_trans hle (SymbolTable.onDisk_le_of_spares hend rfl), ?_⟩
    exact hspares.trans (hend.mono nofun fun _ hnone => hnone)

theorem root_open {config : Config} {c : OpenCache} (h : OpenCache.open root config t = (.ok c, u)) : c.root = root :=
  (List.cons.inj (OpenCache.paths_open h)).1

/-- The commands of a session whose symbols can be saved, and its end. -/
theorem exists_work (hopen : Session.open root v.config t = (.ok s, u)) (hsaves : v.Saves root t)
    (hdocuments : v.documents root t ⊆ documents) :
    s.symbols = Session.savedSymbols root t ∧ ∃ r : Session.Run,
      Session.Run.Leads (· = Session.symbolPlace root t) n documents ⟨s, u, ""⟩ r ∧
      r.session.symbols ≤ Session.savedSymbols root (v.run root t) ∧
      Spares (fun _ => False) (fun _ => False) r.files (v.run root t) := by
  obtain ⟨hload, hcache, hstore⟩ := Session.of_open hopen
  obtain ⟨hbuilt, hdirty⟩ := SymbolTable.built_load hload
  have hloaded : s.symbols = Session.savedSymbols root t := (SymbolTable.onDisk_of_load hload).symm
  have hwork : Session.Run.Leads (· = Session.symbolPlace root t) n documents ⟨s, u, ""⟩ (v.work s u) := by
    refine Session.leads_foldl_after (fun _ => Session.aside_of_eq) ?_
    rwa [Visit.documents, hopen] at hdocuments
  have hopened : Spares (· = Session.symbolPlace root t) (fun _ => True) t u :=
    Session.spares_open (fun _ => Session.aside_of_eq) (fun _ => trivial) hopen
  -- A table that did not change is the one that was loaded, and that is still on disk.
  have hclean : (v.work s u).session.symbols.dirty = false →
      (v.work s u).session.symbols ≤ Session.savedSymbols root (v.work s u).files := by
    intro hclean
    obtain hsame | hchanged := hwork.grows.eq_or_dirty
    · rw [hsame, hloaded]
      exact SymbolTable.onDisk_le_of_spares (hopened.trans hwork.spares) rfl
    · rw [hclean] at hchanged
      cases hchanged
  obtain ⟨hsaved, hend⟩ := of_finish (hwork.symbolStore.trans hstore) (hwork.root.trans (root_open hcache))
    (hwork.grows.built hbuilt) hclean (hsaves s u hopen)
  rw [v.run_of_open root t hopen]
  exact ⟨hloaded, v.work s u, hwork, hsaved, hend⟩

/-- Symbols on disk stay there with their numbers. -/
theorem savedSymbols_le_run (hsaves : v.Saves root t) :
    Session.savedSymbols root t ≤ Session.savedSymbols root (v.run root t) := by
  match hopen : Session.open root v.config t with
  | (.error error, u) =>
    have hopened : Spares (· = Session.symbolPlace root t) (fun _ => True) t u :=
      Session.spares_open (fun _ => Session.aside_of_eq) (fun _ => trivial) hopen
    rw [v.run_of_error root t hopen]
    exact SymbolTable.onDisk_le_of_spares hopened rfl
  | (.ok s, u) =>
    obtain ⟨hloaded, r, hwork, hsaved, -⟩ := exists_work (n := 0) hopen hsaves (List.Subset.refl _)
    rw [← hloaded]
    exact SymbolTable.le_trans hwork.grows.le hsaved

theorem since_run (hsaves : v.Saves root t) (h : OpenCache.Since root n t) :
    OpenCache.Since root n (v.run root t) := by
  match hopen : Session.open root v.config t with
  | (.error error, u) =>
    have hopened : Spares (fun _ => False) (fun _ => True) t u := Session.spares_open nofun (fun _ => trivial) hopen
    rw [v.run_of_error root t hopen]
    exact h.spares hopened
  | (.ok s, u) =>
    have hopened : Spares (fun _ => False) (fun _ => True) t u := Session.spares_open nofun (fun _ => trivial) hopen
    obtain ⟨-, r, hwork, -, hend⟩ := exists_work (n := n) hopen hsaves (List.Subset.refl _)
    exact ((h.spares hopened).spares hwork.spares).spares hend

theorem recorded_contents {result : Except Failure Session} {table : SymbolTable}
    (hopen : Session.open root v.config t = (result, u)) (id : Nat) (h : (t.contents id).Recorded documents table) :
    (u.contents id).Recorded documents table := by
  have hopened : Spares (fun _ => False) (fun contents => ∃ kind, contents = .empty kind) t u :=
    Session.spares_open nofun (fun kind => ⟨kind, rfl⟩) hopen
  obtain hsame | ⟨kind, hempty⟩ := hopened.contents id
  · rwa [hsame]
  · rw [hempty]
    exact .empty kind

/-- A store that opening makes is empty, and nothing is in memory. -/
theorem recorded_of_open (hopen : Session.open root v.config t = (.ok s, u)) (hsince : OpenCache.Since root n t)
    (h : ∀ id, n ≤ id → (t.contents id).Recorded documents s.symbols) :
    Session.Run.Recorded n documents ⟨s, u, ""⟩ := by
  obtain ⟨-, hcache, -⟩ := Session.of_open hopen
  refine ⟨hsince.ids_open hcache, fun id hid => ?_, fun key record hheld => ?_⟩
  · exact recorded_contents hopen id (h id hid)
  · have hmemory : (s.cache.cache u).classes.memory = .new v.config.cacheSize.toNat := by
      rw [(OpenCache.cache_open hcache).2]
      rfl
    change (s.cache.cache u).classes.memory.value? key = some record at hheld
    rw [hmemory, Lru.value?_new] at hheld
    cases hheld

/-- What was made of documents before a visit was made of these and of those that the visit imports afterwards. -/
theorem recorded_run {before : List ClassDocument} (hsaves : v.Saves root t) (hsince : OpenCache.Since root n t)
    (h : ∀ id, n ≤ id → (t.contents id).Recorded before (Session.savedSymbols root t)) :
    ∀ id, n ≤ id → ((v.run root t).contents id).Recorded (before ++ v.documents root t)
      (Session.savedSymbols root (v.run root t)) := by
  intro id hid
  have hlater : ∀ id, n ≤ id → (t.contents id).Recorded (before ++ v.documents root t) (Session.savedSymbols root t) :=
    fun id hid => (h id hid).mono (List.subset_append_left _ _) (SymbolTable.le_refl _)
  match hopen : Session.open root v.config t with
  | (.error error, u) =>
    have hle := savedSymbols_le_run hsaves
    rw [v.run_of_error root t hopen] at hle ⊢
    exact (recorded_contents hopen id (hlater id hid)).mono (List.Subset.refl _) hle
  | (.ok s, u) =>
    obtain ⟨hloaded, r, hwork, hsaved, hend⟩ := exists_work (n := n) hopen hsaves
      (List.subset_append_right before _)
    rw [← hloaded] at hlater
    have hrecorded := hwork.recorded (recorded_of_open hopen hsince hlater)
    obtain hsame | hnone := hend.contents id
    · rw [hsame]
      exact (hrecorded.contents id hid).mono (List.Subset.refl _) hsaved
    · exact hnone.elim

end

end Visit

/-! ## Sequences of visits -/

/-- What others do with a tree while no one visits a cache: they may change any file that is neither a store nor that
of the symbols, and remove stores, but they make none. -/
structure Apart (root : String) (t u : Files) : Prop where
  working : u.working = t.working
  stores : u.stores = t.stores
  entry : ∀ place id, u.entryAt? place = some (.store id) → t.entryAt? place = some (.store id)
  symbols : Session.savedSymbols root u = Session.savedSymbols root t

/-- Visits one after the other, each of which can save the symbols, with the documents that they import. -/
inductive Visits (root : String) (t : Files) : List ClassDocument → Files → Prop where
  | none : Visits root t [] t
  | apart {documents : List ClassDocument} {u w : Files} :
    Visits root t documents u → Apart root u w → Visits root t documents w
  | visit {documents : List ClassDocument} {u : Files} (v : Visit) :
    Visits root t documents u → v.Saves root u → Visits root t (documents ++ v.documents root u) (v.run root u)

/-- There is no store at the places of the stores of a cache. -/
def Unused (root : String) (t : Files) : Prop :=
  ∀ path ∈ OpenCache.storePaths root, ∀ filePath mayCreate, Address.ofPath? path = some (.file filePath mayCreate) →
    ∀ id, t.entryAt? (t.target filePath) ≠ some (.store id)

namespace Visits

variable {root : String} {t u : Files} {documents : List ClassDocument}

theorem savedSymbols_le (h : Visits root t documents u) :
    Session.savedSymbols root t ≤ Session.savedSymbols root u := by
  induction h with
  | none => exact SymbolTable.le_refl _
  | apart _ hapart ih => rwa [hapart.symbols]
  | visit v _ hsaves ih => exact SymbolTable.le_trans ih (Visit.savedSymbols_le_run hsaves)

theorem recorded (h : Visits root t documents u) (hunused : Unused root t) :
    OpenCache.Since root t.stores.length u ∧ ∀ id, t.stores.length ≤ id →
      (u.contents id).Recorded documents (Session.savedSymbols root u) := by
  induction h with
  | none =>
    refine ⟨⟨Nat.le_refl _, fun path hpath filePath mayCreate haddress id hentry => ?_⟩, fun id hid => ?_⟩
    · exact absurd hentry (hunused path hpath filePath mayCreate haddress id)
    · have hempty : t.contents id = .empty .keyValue := by
        rw [Files.contents, List.getD_eq_getElem?_getD, List.getElem?_eq_none hid]
        rfl
      rw [hempty]
      exact .empty _
  | @apart documents u w _ hapart ih =>
    obtain ⟨hsince, hrecorded⟩ := ih
    refine ⟨⟨?_, fun path hpath filePath mayCreate haddress id hentry => ?_⟩, fun id hid => ?_⟩
    · rw [hapart.stores]
      exact hsince.length
    · rw [Files.target_of_working hapart.working] at hentry
      exact hsince.entry path hpath filePath mayCreate haddress id (hapart.entry _ id hentry)
    · rw [hapart.symbols, Files.contents, hapart.stores]
      exact hrecorded id hid
  | visit v _ hsaves ih =>
    obtain ⟨hsince, hrecorded⟩ := ih
    exact ⟨Visit.since_run hsaves hsince, Visit.recorded_run hsaves hsince hrecorded⟩

/-- However sessions on a directory end and whatever fails in them, each number in the stores stands for the very
name of an imported document that it was made of, and the symbols on disk keep their numbers. -/
theorem ids_keep_meaning (h : Visits root t documents u) :
    (Session.savedSymbols root t).symbols <+: (Session.savedSymbols root u).symbols ∧
      (Unused root t → ∀ path ∈ OpenCache.storePaths root, ∀ id, u.storeAt? path = some id →
        (u.contents id).Means documents (Session.savedSymbols root u)) := by
  refine ⟨h.savedSymbols_le, fun hunused path hpath id hid => ?_⟩
  obtain ⟨hsince, hrecorded⟩ := h.recorded hunused
  obtain ⟨filePath, mayCreate, haddress, hentry⟩ := Files.of_storeAt? hid
  have hyoung := hsince.entry path hpath filePath mayCreate haddress id hentry
  exact (hrecorded id hyoung).means (SymbolTable.built_onDisk (Session.symbolsOf root) u).size_le

/-- The first session on a directory imports a document, and fails to import another and to show its class. -/
theorem ids_keep_meaning_first :
    ∃ t documents u, Visits "/c" t documents u ∧ documents.map ClassShape.name = ["A"] ∧
      u.storeAt? "/c/classes.db" = some 0 ∧ (u.contents 0).rows.size = 1 ∧
      (u.contents 0).Means documents (Session.savedSymbols "/c" u) := by
  have hvisits : ∃ documents u,
      Visits "/c" (Files.empty.setEntry ["A.json"] (.file (.ofText "\x7b\"name\":\"A\"\x7d"))) documents u ∧
        documents.map ClassShape.name = ["A"] ∧ u.storeAt? "/c/classes.db" = some 0 ∧ (u.contents 0).rows.size = 1 :=
    ⟨_, _, .visit ⟨.standard, [.importFiles ["/A.json", "/B.json"], .showClass "B"], false⟩ .none
      (by decide +kernel), by decide +kernel⟩
  have hunused : Unused "/c" (Files.empty.setEntry ["A.json"] (.file (.ofText "\x7b\"name\":\"A\"\x7d"))) := by
    intro path hpath filePath mayCreate haddress id hentry
    rw [Files.entryAt?_setEntry (by decide)] at hentry
    split at hentry
    · cases hentry
    · rw [Files.entryAt?] at hentry
      split at hentry <;> cases hentry
  obtain ⟨documents, u, hvisits, hnames, hstore, hsize⟩ := hvisits
  exact ⟨_, documents, u, hvisits, hnames, hstore, hsize,
    (ids_keep_meaning hvisits).2 hunused "/c/classes.db" (by decide +kernel) 0 hstore⟩

end Visits

end ClassDeps
