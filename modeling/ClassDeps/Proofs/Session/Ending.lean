import ClassDeps.Proofs.Session.Settled
import ClassDeps.Proofs.Session.Twins

/-!
# The end of a session

When a session ends, its symbols are saved if they changed, and its stores are left. That fails only if something is in
the way of the symbols. Nothing changes then but the files of logs and of symbols, and these hold the symbols of the
session.

## Main definitions

* `Session.Run.Open` — a session whose stores are open

## Main statements

* `Session.Run.Open.close_ok`, `Open.ready_of_close` — when a session ends well, and what that changes
* `Session.Run.Open.stands` — its stores are at their places afterwards
* `Session.savedSymbols_session` — the symbols that a session saves
-/

namespace ClassDeps

namespace SymbolTable

variable {t u : SymbolTable}

/-- A table that is marked as changed stays so until it is saved. -/
theorem Interned.dirty (h : t.Interned u) (hdirty : t.dirty = true) : u.dirty = true := by
  induction h with
  | refl => exact hdirty
  | intern _ hintern ih =>
    rw [(eq_add_of_intern hintern).1, add]
    split
    · exact ih
    · rfl

/-- A table that has the same symbols as before has not changed. -/
theorem Interned.eq_of_symbols_eq (h : t.Interned u) (hsymbols : u.symbols = t.symbols) : u = t := by
  induction h with
  | refl => rfl
  | @intern u v name id hinterned hintern ih =>
    rw [(eq_add_of_intern hintern).1] at hsymbols ⊢
    by_cases hmem : name ∈ u.symbols
    · have hadd : u.add name = u := if_pos hmem
      rw [hadd] at hsymbols ⊢
      exact ih hsymbols
    · have hadd : (u.add name).symbols = u.symbols ++ [name] := by rw [add, if_neg hmem]
      have hlength := List.IsPrefix.length_le hinterned.le
      rw [← hsymbols, hadd, List.length_append] at hlength
      exact absurd hlength (Nat.not_succ_le_self _)

end SymbolTable

namespace Session

open Files (Amended Confined Follows Held Reachable Standing)

variable {root : String} {config : Config} {n : Nat} {t u v : Files} {s : Session} {r r' : Run} {paths : List String}

/-- The stores of a session are open and at their places, by users from some number on. -/
structure Run.Open (root : String) (config : Config) (n : Nat) (r : Run) : Prop where
  held : List.Forall₂ (fun q file => Held config.journalMode q.1 q.2 file r.files) (OpenCache.requests root)
    r.session.cache.files
  users : ∀ file ∈ r.session.cache.files, n ≤ file.user
  confined : Confined (OpenCache.IsLog (r.files.target root)) n r.files
  settled : Settled root r.files
  reachable : Reachable root r.files
  directory : root = "" ∨ r.files.isDirectory root = true
  store : r.session.symbolStore = symbolsOf root
  built : r.session.symbols.Built
  capacity : r.cache.classes.memory.capacity = config.cacheSize.toNat
  fits : r.cache.classes.memory.Fits

namespace Run.Open

theorem of_open (hplain : Address.IsPlain root) (ht : Settled root t) (hopen : Session.open root config t = (.ok s, u)) :
    Run.Open root config t.users ⟨s, u, ""⟩ := by
  obtain ⟨hload, hcache, hstore⟩ := Session.of_open hopen
  obtain ⟨hheld, hconfined, hreachable, hdirectory⟩ := OpenCache.held_open hplain ht.sound hcache
  have hchanges : Changing root t u := changes_open hplain hopen
  have hclasses : (Run.cache ⟨s, u, ""⟩).classes.memory = .new config.cacheSize.toNat := by
    change (s.cache.cache u).classes.memory = _
    rw [(OpenCache.cache_open hcache).2]
    rfl
  exact {
    held := hheld.imp fun _ _ h => h.1
    users := fun file hfile => by
      obtain ⟨i, hi, rfl⟩ := List.getElem_of_mem hfile
      exact (hheld.get (hheld.length_eq ▸ hi) hi).2
    confined := by
      rw [Files.target_of_working hchanges.working_eq]
      exact hconfined
    settled := ht.changing hchanges
    reachable := hreachable
    directory := hdirectory
    store := hstore
    built := (SymbolTable.built_load hload).1
    capacity := by rw [hclasses]; rfl
    fits := by rw [hclasses]; exact Lru.fits_new _ }

theorem separate (h : r.Open root config n) : r.Separate :=
  OpenCache.separate_of_held h.held

theorem attached (h : r.Open root config n) : Files.Attached r.session.cache.handles r.files :=
  OpenCache.attached_of_held h.held

/-- Imports keep the stores open and change nothing but what they hold. -/
theorem importFiles (h : r.Open root config n) (himport : Session.importFiles paths r = (.ok (), r')) :
    r'.Open root config n ∧ Amended r.files r'.files := by
  have hleads : r.Leads (fun _ => False) 0 _ r' := leads_of_importFiles nofun himport
  have hamended := hleads.commits.amended h.attached
  have hfiles : r'.session.cache.files = r.session.cache.files := congrArg (List.map Prod.fst) hleads.handles
  have hagree : Files.Agree (fun _ => False) r.files r'.files := .of_entries hamended.working hamended.entries
  obtain ⟨documents, -, -, hall, -⟩ := of_importFiles h.separate himport
  obtain ⟨hcapacity, hfits⟩ := Cache.memory_importAll h.fits hall
  refine ⟨?_, hamended⟩
  exact {
    held := hfiles ▸ h.held.imp fun _ _ hheld => hamended.held hheld
    users := hfiles ▸ h.users
    confined := by
      rw [Files.target_of_working hamended.working]
      exact hamended.confined h.confined
    settled := h.settled.changing (hleads.commits.changes (OpenCache.users_of_held h.held))
    reachable := h.reachable.of_directories hagree.working hagree.directory
    directory := h.directory.imp_right (Files.isDirectory_of_directories hagree.working hagree.directory)
    store := hleads.symbolStore.trans h.store
    built := hleads.grows.built h.built
    capacity := hcapacity.trans h.capacity
    fits := hfits }

/-- Leaving the stores changes nothing but the files of the logs. -/
theorem follows_close (h : r.Open root config n) {w : Files} (hworking : w.working = r.files.working)
    (hstores : w.stores = r.files.stores) :
    Follows (OpenCache.IsLog (w.target root)) w (r.session.cache.close w) := by
  refine OpenCache.follows_close h.users ?_
  rw [Files.target_of_working hworking]
  exact h.confined.of_stores hstores

/-- The places of the symbols are those of no log. -/
theorem not_isLog_of_mem_places {place : Place} (h : place ∈ (symbolsOf root).places SymbolTable.fileName t)
    (directory : Place) : ¬OpenCache.IsLog directory place := by
  refine fun hlog => hlog.not_aside ?_
  rw [places_symbolsOf] at h
  simp only [List.mem_cons, List.not_mem_nil, or_false] at h
  obtain rfl | rfl | rfl := h
  · exact Place.aside_concat _ (by decide) (by decide)
  · exact Place.aside_concat _ (by decide) (by decide)
  · exact Place.aside_concat _ (by decide) (by decide)

/-- A session ends well if its symbols have not changed, or nothing is in the way of saving them. Nothing changes then
but the files of logs and of symbols. -/
theorem close_ok (h : r.Open root config n)
    (hready : r.session.symbols.dirty = true → (symbolsOf root).Ready SymbolTable.fileName r.files) :
    ∃ u, r.session.close r.files = (.ok (), u) ∧ Follows (Own root r.files) r.files u ∧
      r.files.Keeps u ∧
      ((symbolsOf root).Ready SymbolTable.fileName r.files → (symbolsOf root).Ready SymbolTable.fileName u) := by
  obtain ⟨table, w, hsave, hagree, hstores, hstays⟩ : ∃ table w,
      r.session.symbols.save (symbolsOf root) r.files = (.ok (), table, w) ∧
      Files.Agree (· ∈ (symbolsOf root).places SymbolTable.fileName r.files) r.files w ∧
      w.stores = r.files.stores ∧ ((symbolsOf root).Ready SymbolTable.fileName r.files →
        (symbolsOf root).Ready SymbolTable.fileName w) := by
    cases hdirty : r.session.symbols.dirty with
    | false => exact ⟨_, _, SymbolTable.save_of_clean hdirty _ _, .refl _, rfl, id⟩
    | true =>
      obtain ⟨w, hsave, hagree, hstores, -, hafter⟩ := (hready hdirty).save (within_symbolsOf root) h.reachable
        SymbolFile.form ⟨SymbolFile.supported, r.session.symbols.symbols⟩
      exact ⟨_, w, by rw [SymbolTable.save, hdirty, if_pos rfl, hsave], hagree, hstores, fun _ => hafter⟩
  have hleave := h.follows_close hagree.working hstores
  have hclose : r.session.close r.files = (.ok (), r.session.cache.close w) := by
    rw [Session.close, h.store, hsave]
    rfl
  refine ⟨r.session.cache.close w, hclose, ?_, ?_, fun hbefore => ?_⟩
  · refine ((Follows.of_agree hagree hstores).mono fun place hplace => .inr hplace).trans
      (hleave.mono fun place hplace => .inl ?_)
    rwa [← Files.target_of_working hagree.working]
  · exact (Files.Keeps.of_eq hstores).trans (r.session.cache.keeps_close w)
  · exact (hstays hbefore).agree hleave.toAgree fun place hplace => not_isLog_of_mem_places hplace _

/-- Nothing was in the way of the symbols if they were saved. -/
theorem ready_of_close (h : r.Open root config n) (hclose : r.session.close r.files = (.ok (), u))
    (hdirty : r.session.symbols.dirty = true) : (symbolsOf root).Ready SymbolTable.fileName r.files := by
  rw [Session.close, h.store, SymbolTable.save, hdirty, if_pos rfl] at hclose
  rcases hsave : (symbolsOf root).save SymbolFile.form SymbolTable.fileName
    ⟨SymbolFile.supported, r.session.symbols.symbols⟩ r.files with ⟨error | _, w⟩
  · rw [hsave] at hclose
    cases hclose
  · exact JsonStore.ready_of_save (within_symbolsOf root) h.reachable hsave

/-- After the end of a session its stores still stand at their places. -/
theorem stands (h : r.Open root config n) (hfollows : Follows (Own root r.files) r.files v) :
    List.Forall₂ (fun q id => Standing config.journalMode q.1 q.2 id v) (OpenCache.requests root)
      r.session.cache.ids := by
  rw [OpenCache.ids_eq, List.forall₂_map_right_iff]
  refine List.forall₂_iff_get.2 ⟨h.held.length_eq, fun i h₁ h₂ => ?_⟩
  have hrequest := List.get_mem (OpenCache.requests root) ⟨i, h₁⟩
  exact (h.held.get h₁ h₂).standing.follows hfollows (not_own_target hrequest r.files)

end Run.Open

/-- Whether anything is in the way of a document does not depend on what stores hold. -/
theorem ready_iff_of_amended {store : JsonStore} {name : String} (h : Amended t u) :
    store.Ready name t ↔ store.Ready name u := by
  have hforth : Files.Agree (fun _ => False) t u := .of_entries h.working h.entries
  have hback : Files.Agree (fun _ => False) u t := .of_entries h.working.symm h.entries.symm
  exact ⟨fun hready => hready.agree hforth fun _ _ => id, fun hready => hready.agree hback fun _ _ => id⟩

/-! ## Symbols on disk -/

/-- A session that ends well leaves its symbols on disk, if it has any. -/
theorem savedSymbols_session (hopen : Session.open root config t = (.ok s, u))
    (himport : Session.importFiles paths ⟨s, u, ""⟩ = (.ok (), r))
    (hclose : r.session.close r.files = (.ok (), v)) (hne : r.session.symbols.symbols ≠ []) :
    (savedSymbols root v).symbols = r.session.symbols.symbols := by
  obtain ⟨hload, -, hstore⟩ := Session.of_open hopen
  have hopened : Files.Spares (· = symbolPlace root t) (fun _ => True) t u :=
    spares_open (fun _ => aside_of_eq) (fun _ => trivial) hopen
  have hleads : Run.Leads (· = symbolPlace root t) 0 _ ⟨s, u, ""⟩ r :=
    leads_of_importFiles (fun _ => aside_of_eq) himport
  rw [close_apply, hleads.symbolStore, hstore] at hclose
  obtain ⟨hresult, rfl⟩ := Prod.mk.inj hclose
  cases hdirty : r.session.symbols.dirty with
  | false =>
    -- The symbols have not changed, so that they are those that were loaded.
    have hsame : r.session.symbols = savedSymbols root t := by
      obtain hsame | hchanged := hleads.grows.eq_or_dirty
      · rw [hsame]
        exact (SymbolTable.onDisk_of_load hload).symm
      · rw [hdirty] at hchanged
        cases hchanged
    have hend : Files.Spares (· = symbolPlace root t) (fun _ => True) r.files (r.session.cache.close r.files) :=
      r.session.cache.spares_close (fun _ => aside_of_eq) r.files
    rw [SymbolTable.save_of_clean hdirty]
    rw [hsame] at hne ⊢
    rw [savedSymbols, SymbolTable.onDisk_of_spares hne ((hopened.trans hleads.spares).trans hend) rfl, savedSymbols]
  | true =>
    match hsave : r.session.symbols.save (symbolsOf root) r.files with
    | (.error error, table, w) =>
      rw [hsave] at hresult
      cases hresult
    | (.ok (), table, w) =>
      have hbuilt := hleads.grows.built (SymbolTable.built_load hload).1
      obtain ⟨hsymbols, -⟩ : (SymbolTable.onDisk (symbolsOf root) w).symbols = r.session.symbols.symbols ∧
          r.files.Spares (fun _ => False) (fun _ => True) w := SymbolTable.onDisk_of_save hbuilt hdirty hsave
      have hend : Files.Spares (· = symbolPlace root w) (fun _ => True) w (r.session.cache.close w) :=
        r.session.cache.spares_close (fun _ => aside_of_eq) w
      rw [← hsymbols] at hne
      rw [savedSymbols, SymbolTable.onDisk_of_spares hne hend rfl, hsymbols]

end Session

end ClassDeps
