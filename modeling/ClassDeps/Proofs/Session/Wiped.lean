import ClassDeps.Proofs.Cache.Wiped
import ClassDeps.Proofs.Session.Reached
import ClassDeps.Proofs.Symbols.Persistence

/-!
# Wiping through a session

A session saves its symbols before it wipes the cache. They are in a directory of their own, so that they are still
there afterwards: the next session finds a new cache, and the symbols with the numbers that they had.

## Main definitions

* `Session.InUse` — a session that is used while others change files

## Main statements

* `Session.InUse.usable` — what holds of a session in use
* `Session.Run.Usable.wiped` — what wiping through a session leaves
* `Session.wipe_then_open_fresh` — a directory that was wiped is like a new one
-/

namespace ClassDeps

open Files (Agree Located)

/-- Writing stores changes no entries but those of logs. -/
theorem Files.Commits.entry {handles : List (OpenFile × StoreKind)} {t u : Files} (h : Files.Commits handles t u)
    {place : Place} (haside : place.Aside) : u.entryAt? place = t.entryAt? place := by
  induction h with
  | refl => rfl
  | tail _ hcommit ih =>
    obtain ⟨handle, -, contents, -, rfl⟩ := hcommit
    exact (Files.entryAt?_modifyLog fun hlog => Files.not_aside_of_mem_logPlaces hlog haside).trans ih

namespace Session

variable {root : String} {config : Config} {t u v : Files} {r s : Run}

/-! ## Symbols that stay -/

/-- The document of a table is its own for as long as what stands at its place stays. -/
theorem current_of_entry {table : SymbolTable} (h : table.Current (symbolsOf root) t)
    (ht : Located ((symbolsOf root).filePath SymbolTable.fileName) t) (hworking : u.working = t.working)
    (hkept : ∀ place, t.entryAt? place = some .directory → u.entryAt? place = some .directory)
    (hentry : u.entryAt? (symbolPlace root t) = t.entryAt? (symbolPlace root t))
    (hfree : t.entryAt? (symbolPlace root t) ≠ some .directory) : table.Current (symbolsOf root) u := by
  have hplace : symbolPlace root u = symbolPlace root t := Files.target_of_working hworking _
  obtain hfile | ⟨hmissing, hempty⟩ := h
  · obtain ⟨bytes, hwritten, htext, hread⟩ := JsonStore.written_of_loadOptional hfile
    have hstays : (symbolsOf root).Written SymbolTable.fileName bytes u := by
      refine ⟨?_, ?_⟩
      · change u.locate _ = .ok (symbolPlace root u)
        rw [hplace]
        exact Files.locate_of_directories hworking hkept hwritten.located
      · change u.entryAt? (symbolPlace root u) = _
        rw [hplace, hentry]
        exact hwritten.entry
    exact .inl (hstays.loadOptional_eq htext hread)
  · refine .inr ⟨Bool.eq_false_iff.2 fun hexists => Bool.eq_false_iff.1 hmissing ?_, hempty⟩
    obtain ⟨entry, -, hfound⟩ := JsonStore.exists?_iff.1 hexists
    change u.entryAt? (symbolPlace root u) = some entry at hfound
    rw [hplace, hentry] at hfound
    have hfile : entry ≠ .directory := fun hdirectory => hfree (hdirectory ▸ hfound)
    exact JsonStore.exists?_iff.2 ⟨entry, ht entry hfound hfile, hfound⟩

theorem located_of_entry (h : Located ((symbolsOf root).filePath SymbolTable.fileName) t)
    (hworking : u.working = t.working)
    (hkept : ∀ place, t.entryAt? place = some .directory → u.entryAt? place = some .directory)
    (hentry : u.entryAt? (symbolPlace root t) = t.entryAt? (symbolPlace root t)) :
    Located ((symbolsOf root).filePath SymbolTable.fileName) u := by
  intro entry hfound hfile
  rw [Files.target_of_working hworking] at hfound ⊢
  exact Files.locate_of_directories hworking hkept (h entry (hentry.symm.trans hfound) hfile)

/-! ## Sessions in use -/

/-- A session that was opened and runs commands, while others change files but not the symbols on disk. If there were
symbols at first, they were found. -/
inductive InUse (root : String) : Run → Prop where
  | opened {config : Config} {t u : Files} {s : Session} :
    t.Sound → Located ((symbolsOf root).filePath SymbolTable.fileName) t → Session.open root config t = (.ok s, u) →
      InUse root ⟨s, u, ""⟩
  | after {r : Run} (command : Cli.Command) : InUse root r → InUse root (r.after command)
  | others {r : Run} {u : Files} : InUse root r → r.session.cache.Disturbed r.files u →
    u.entryAt? (symbolPlace root r.files) = r.files.entryAt? (symbolPlace root r.files) →
      InUse root { r with files := u }

/-- What holds of a session in use: its directory can be opened again, and unless its symbols have changed they are those
on disk. -/
structure Run.Usable (root : String) (r : Run) : Prop where
  cache : r.session.cache.Usable root r.files
  store : r.session.symbolStore = symbolsOf root
  built : r.session.symbols.Built
  located : Located ((symbolsOf root).filePath SymbolTable.fileName) r.files
  current : r.session.symbols.dirty = false → r.files.entryAt? (symbolPlace root r.files) ≠ some .directory →
    r.session.symbols.Current (symbolsOf root) r.files

namespace Run.Usable

theorem of_open {s : Session} (hplain : Address.IsPlain root) (hne : root ≠ "") (ht : t.Sound)
    (hlocated : Located ((symbolsOf root).filePath SymbolTable.fileName) t)
    (h : Session.open root config t = (.ok s, u)) : Run.Usable root ⟨s, u, ""⟩ where
  cache := .of_open hplain hne ht (Session.of_open h).2.1
  store := (Session.of_open h).2.2
  built := (SymbolTable.built_load (Session.of_open h).1).1
  located := located_changing hlocated (changes_open hplain h)
  current _ hfree := by
    have hload := (Session.of_open h).1
    have hspares : Files.Spares (· = symbolPlace root t) (fun _ => True) t u :=
      spares_open (fun _ => aside_of_eq) (fun _ => trivial) h
    obtain hfile | ⟨hmissing, hempty⟩ := SymbolTable.Current.of_load hload
    · exact .of_load ((SymbolTable.load_of_spares hfile hspares rfl).trans hload)
    · exact .inr ⟨missing_of_changes hlocated (changes_open hplain h) hfree hmissing, hempty⟩

/-- Nobody but the session changes its symbols. -/
theorem others (h : r.Usable root) (hdisturbed : r.session.cache.Disturbed r.files u)
    (hentry : u.entryAt? (symbolPlace root r.files) = r.files.entryAt? (symbolPlace root r.files)) :
    Run.Usable root { r with files := u } where
  cache := h.cache.disturbed hdisturbed
  store := h.store
  built := h.built
  located := located_of_entry h.located hdisturbed.working hdisturbed.directory hentry
  current hclean hfree := by
    change u.entryAt? (symbolPlace root u) ≠ _ at hfree
    rw [symbolPlace, JsonStore.place, Files.target_of_working hdisturbed.working, ← JsonStore.place, ← symbolPlace,
      hentry] at hfree
    exact current_of_entry (h.current hclean hfree) h.located hdisturbed.working hdisturbed.directory hentry hfree

/-- Commands write stores, and add to the symbols. -/
theorem after (h : r.Usable root) (command : Cli.Command) : (r.after command).Usable root := by
  have hleads : r.Leads (fun _ => False) 0 (r.imported command) (r.after command) :=
    leads_after nofun (List.Subset.refl _)
  have hdisturbed := OpenCache.Disturbed.of_commits hleads.commits
  have hsame := h.others hdisturbed (hleads.commits.entry (aside_symbolPlace root _))
  exact {
    cache := hsame.cache.of_handles hleads.root hleads.handles
    store := hleads.symbolStore.trans h.store
    built := hleads.grows.built h.built
    located := hsame.located
    current := fun hclean => by
      obtain hequal | hdirty := hleads.grows.eq_or_dirty
      · rw [hequal] at hclean ⊢
        exact hsame.current hclean
      · exact absurd (hclean.symm.trans hdirty) Bool.false_ne_true }

end Run.Usable

/-- A session in use stays usable, whatever it and others do. -/
theorem InUse.usable (hplain : Address.IsPlain root) (hne : root ≠ "") (h : InUse root r) : r.Usable root := by
  induction h with
  | opened ht hlocated hopen => exact .of_open hplain hne ht hlocated hopen
  | after command _ ih => exact ih.after command
  | others _ hdisturbed hentry ih => exact ih.others hdisturbed hentry

/-! ## Wiping -/

/-- Saving symbols changes nothing but their files. -/
theorem agree_of_save {table table' : SymbolTable} (hroot : Files.Reachable root t)
    (h : table.save (symbolsOf root) t = (.ok (), table', u)) :
    Agree (· ∈ (symbolsOf root).places SymbolTable.fileName t) t u ∧ u.stores = t.stores ∧
      (t.entryAt? (symbolPlace root t) ≠ some .directory → u.entryAt? (symbolPlace root u) ≠ some .directory) := by
  cases hdirty : table.dirty with
  | false =>
    cases (SymbolTable.save_of_clean hdirty _ _).symm.trans h
    exact ⟨.refl t, rfl, id⟩
  | true =>
    rw [SymbolTable.save, hdirty, if_pos rfl] at h
    split at h
    · rename_i hsave
      cases h
      obtain ⟨w, hsame, hagree, hstores, -, hready⟩ := (JsonStore.ready_of_save (within_symbolsOf root) hroot hsave).save
        (within_symbolsOf root) hroot SymbolFile.form ⟨SymbolFile.supported, table.symbols⟩
      cases hsave.symm.trans hsame
      exact ⟨hagree, hstores, fun _ => hready.document⟩
    · cases h

/-- The files of symbols are not in the way of stores. -/
theorem unobstructed_of_agree (h : OpenCache.Unobstructed root t)
    (hagree : Agree (· ∈ (symbolsOf root).places SymbolTable.fileName t) t u) : OpenCache.Unobstructed root u := by
  intro file hfile ending hending
  have hname : ∀ file ∈ OpenCache.storeFiles, ∀ ending ∈ ["", "-journal", Files.logEnding, Files.sharedEnding],
      file.1 ++ ending ≠ symbolDirectory := by decide
  rw [Files.target_of_working hagree.working, hagree.entry]
  · exact h file hfile ending hending
  · rw [places_symbolsOf]
    simp [hname file hfile ending hending]

/-- What wiping through a session leaves. -/
structure Run.Wiped (root : String) (r : Run) (u : Files) : Prop where
  /-- The symbols are saved before the cache is wiped. -/
  wiped : ∃ v, Agree (· ∈ (symbolsOf root).places SymbolTable.fileName r.files) r.files v ∧
    v.stores = r.files.stores ∧ OpenCache.Wiped root v u
  load : SymbolTable.load (symbolsOf root) u = .ok { r.session.symbols with dirty := false }
  /-- The next session has a new cache, and all numbers stand for what they did. -/
  opens : ∀ config, ∃ s w, Session.open root config u = (.ok s, w) ∧
    s.cache.cache w = .fresh root config.cacheSize.toNat ∧
      (∀ {α : Type} (query : Cache.Query α), (s.cache.cache w).Answers .empty query) ∧
        ∀ commands : List Cli.Command, r.session.symbols ≤ (commands.foldl Run.after ⟨s, w, ""⟩).session.symbols

theorem Run.Usable.wiped (h : r.Usable root) (hfree : OpenCache.Unobstructed root r.files)
    (hsymbols : r.files.entryAt? (symbolPlace root r.files) ≠ some .directory) {printed : String}
    (hwipe : r.session.wipe r.files = (.ok printed, u)) : r.Wiped root u := by
  unfold Session.wipe at hwipe
  rw [h.store] at hwipe
  split at hwipe
  · cases hwipe
  · rename_i table v hsave
    cases hwipe
    have hroot : Files.Reachable root r.files := .of_isDirectory h.cache.directory
    obtain ⟨hagree, hstores, hnone⟩ := agree_of_save hroot hsave
    obtain ⟨rfl, hcurrent⟩ := SymbolTable.of_save (fun hclean => h.current hclean hsymbols) hsave
    have hlocated : Located ((symbolsOf root).filePath SymbolTable.fileName) v := by
      have hchanging := changing_save root r.session.symbols r.files
      rw [hsave] at hchanging
      exact located_changing h.located hchanging
    have hwiped : OpenCache.Wiped root v (r.session.cache.wipe v) :=
      (h.cache.disturbed (.of_eq hagree.working hagree.directory hstores)).wiped (unobstructed_of_agree hfree hagree)
    have hload : SymbolTable.load (symbolsOf root) (r.session.cache.wipe v) = .ok { r.session.symbols with dirty := false } :=
      (current_of_entry hcurrent hlocated hwiped.working hwiped.directory
        (hwiped.elsewhere _ (dropLast_symbolPlace root v)) (hnone hsymbols)).load_eq h.built.unmark rfl
    refine ⟨⟨v, hagree, hstores, hwiped⟩, hload, fun config => ?_⟩
    obtain ⟨c, w, hopen, hfresh, hanswers⟩ := hwiped.opens config
    refine ⟨⟨c, { r.session.symbols with dirty := false }, symbolsOf root⟩, w, ?_, hfresh, hanswers, fun commands => ?_⟩
    · rw [open_eq, hload]
      simp only [hopen]
    · let next : Run := ⟨⟨c, { r.session.symbols with dirty := false }, symbolsOf root⟩, w, ""⟩
      have hleads : next.Leads (fun _ => False) 0 (next.allImported commands) (commands.foldl Run.after next) :=
        leads_foldl_after nofun (List.Subset.refl _)
      exact hleads.grows.le

end Session

end ClassDeps
