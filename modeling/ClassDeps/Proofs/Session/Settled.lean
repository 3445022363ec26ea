import ClassDeps.Proofs.Cache.Committed
import ClassDeps.Proofs.Files.Saving
import ClassDeps.Proofs.Session.Visits

/-!
# What sessions leave behind

Whatever the sessions on a directory do, its stores know their places afterwards, nothing that they keep beside the
stores is a class document, and the symbols are found where they were saved.

## Main definitions

* `Session.Own` — the places of the logs and of the symbols of a cache
* `Session.Settled` — what holds of a tree between two sessions
* `Left` — the trees that sessions leave

## Main statements

* `Visit.changing_run` — what a visit does to a tree
* `Left.settled` — what holds of the trees that sessions leave
-/

namespace ClassDeps

open Files (Agree Changes IsQuiet Located)

/-- The document of the symbols is none of a class, for it has no name. -/
theorem SymbolFile.isQuiet_toIndented (f : SymbolFile) : IsQuiet (form.write f).toIndented := by
  have hfound : Json.members? Dialect.document.shapeNames (.record f.members) = some [] := by
    simp only [Json.members?, Json.record, Json.named?_record]
    rfl
  rw [IsQuiet, Json.Form.ofBytes?, Json.ofBytes?_toIndented]
  change (Json.members? Dialect.document.shapeNames (.record f.members)).bind _ = none
  rw [hfound]
  rfl

namespace Session

variable {root : String} {t u : Files}

theorem within_symbolsOf (root : String) : (symbolsOf root).Within root SymbolTable.fileName where
  base := ⟨symbolDirectory, ⟨by decide, by decide, by decide⟩, by decide, rfl⟩
  document := ⟨⟨by decide, by decide, by decide⟩, by decide⟩
  temporary := ⟨⟨by decide, by decide, by decide⟩, by decide⟩

/-- The directory of the symbols is one of the cache, and their files stand in it. -/
theorem places_symbolsOf (root : String) (t : Files) : (symbolsOf root).places SymbolTable.fileName t =
    [t.target root ++ [symbolDirectory], t.target root ++ [symbolDirectory] ++ [SymbolTable.fileName],
      t.target root ++ [symbolDirectory] ++ [JsonStore.temporaryName SymbolTable.fileName]] := by
  have hbase : t.target (symbolsOf root).base = t.target root ++ [symbolDirectory] :=
    Files.target_join t root ⟨by decide, by decide, by decide⟩
  rw [JsonStore.places_eq (within_symbolsOf root), hbase]

/-- The paths to which the symbols of a cache are written. -/
def symbolPaths (root : String) : List String :=
  [(symbolsOf root).filePath SymbolTable.fileName,
    (symbolsOf root).filePath (JsonStore.temporaryName SymbolTable.fileName)]

/-- The places of the logs and of the symbols of a cache. -/
def Own (root : String) (t : Files) (place : Place) : Prop :=
  OpenCache.IsLog (t.target root) place ∨ place ∈ (symbolsOf root).places SymbolTable.fileName t

theorem own_of_working (h : u.working = t.working) : Own root u = Own root t := by
  funext place
  rw [Own, Own, Files.target_of_working h, JsonStore.places_of_working _ _ h]

theorem own_symbolPlace (root : String) (t : Files) : Own root t (symbolPlace root t) :=
  .inr (by simp [JsonStore.places, symbolPlace])

/-- Logs and symbols stand in the directory of the cache or in that of the symbols. -/
theorem Own.dropLast_eq {place : Place} (h : Own root t place) :
    place.dropLast = t.target root ∨ place.dropLast = t.target root ++ [symbolDirectory] := by
  obtain hlog | hsymbols := h
  · exact .inl hlog.dropLast_eq
  · rw [places_symbolsOf] at hsymbols
    simp only [List.mem_cons, List.not_mem_nil, or_false] at hsymbols
    obtain rfl | rfl | rfl := hsymbols
    · exact .inl List.dropLast_concat
    · exact .inr List.dropLast_concat
    · exact .inr List.dropLast_concat

/-- What holds of a tree between two sessions on a directory. -/
structure Settled (root : String) (t : Files) : Prop where
  sound : t.Sound
  quiet : ∀ place, Own root t place → ∀ bytes, t.entryAt? place = some (.file bytes) → IsQuiet bytes
  located : Located ((symbolsOf root).filePath SymbolTable.fileName) t

/-- What sessions on a directory may do to a tree. -/
abbrev Changing (root : String) : Files → Files → Prop :=
  Changes (· ∈ OpenCache.storePaths root) (· ∈ symbolPaths root)

/-- A store stands neither at the place of a log nor at one of the symbols. -/
theorem not_own_target {r : String × StoreKind} (hr : r ∈ OpenCache.requests root) (t : Files) :
    ¬Own root t (t.target r.1) := by
  obtain ⟨file, hfile, rfl⟩ := List.mem_map.1 hr
  obtain ⟨-, -, -, hlast⟩ := OpenCache.storeFiles_names file hfile
  rw [OpenCache.target_file t root hfile]
  rintro (hlog | hsymbols)
  · exact hlog.not_aside (OpenCache.aside_file hfile _)
  · have hname : file.1 ≠ symbolDirectory := by
      intro heq
      rw [heq] at hlast
      exact absurd hlast (by decide)
    rw [places_symbolsOf] at hsymbols
    simp [hname] at hsymbols

theorem target_ne_symbolPlace {path : String} (hpath : path ∈ OpenCache.storePaths root) (t : Files) :
    t.target path ≠ symbolPlace root t := by
  rw [OpenCache.storePaths_eq] at hpath
  obtain ⟨r, hr, rfl⟩ := List.mem_map.1 hpath
  exact fun heq => not_own_target hr t (heq ▸ own_symbolPlace root t)

/-- Whatever sessions do, the symbols are found by their path. -/
theorem located_changing (h : Located ((symbolsOf root).filePath SymbolTable.fileName) t) (hchanges : Changing root t u) :
    Located ((symbolsOf root).filePath SymbolTable.fileName) u := by
  refine hchanges.located (aside_symbolPlace root t) (fun path hpath => target_ne_symbolPlace hpath t) ?_ h
  intro path hpath heq
  have hnodup := JsonStore.nodup_places (within_symbolsOf root) t
  simp only [JsonStore.places, List.nodup_cons, List.mem_cons, List.not_mem_nil, or_false] at hnodup
  obtain rfl | hpath := List.mem_cons.1 hpath
  · rfl
  · rw [List.mem_singleton.1 hpath] at heq
    exact absurd heq.symm hnodup.2.1

/-- A document of symbols that is missing does not come about if none is saved. -/
theorem missing_of_changes (ht : Located ((symbolsOf root).filePath SymbolTable.fileName) t)
    (hchanges : Changes (· ∈ OpenCache.storePaths root) (fun _ => False) t u)
    (hfree : u.entryAt? (symbolPlace root u) ≠ some .directory)
    (h : (symbolsOf root).exists? SymbolTable.fileName t = false) :
    (symbolsOf root).exists? SymbolTable.fileName u = false := by
  refine Bool.eq_false_iff.2 fun hexists => Bool.eq_false_iff.1 h ?_
  obtain ⟨entry, -, hentry⟩ := JsonStore.exists?_iff.1 hexists
  have hplace : symbolPlace root u = symbolPlace root t := Files.target_of_working hchanges.working_eq _
  have hfile : entry ≠ .directory := fun hdirectory => hfree (hdirectory ▸ hentry)
  change u.entryAt? (symbolPlace root u) = some entry at hentry
  rw [hplace] at hentry
  -- Whatever file is there now was there before.
  have hbefore := hchanges.entry (aside_symbolPlace root t) (fun path hpath => target_ne_symbolPlace hpath t)
    (fun _ hnone => hnone.elim) hentry hfile
  exact JsonStore.exists?_iff.2 ⟨entry, ht entry hbefore hfile, hbefore⟩

/-- Whatever sessions do, a tree is settled. -/
theorem Settled.changing (h : Settled root t) (hchanges : Changing root t u) : Settled root u where
  sound := hchanges.sound h.sound
  quiet place hplace bytes hfile := by
    rw [own_of_working hchanges.working_eq] at hplace
    by_contra hquiet
    exact hquiet (h.quiet place hplace bytes (hchanges.file hquiet hfile))
  located := located_changing h.located hchanges

/-! ## The life of a session -/

theorem changes_openCache {documents : String → Prop} (hplain : Address.IsPlain root) (config : Config) (t : Files) :
    Changes (· ∈ OpenCache.storePaths root) documents t (OpenCache.open root config t).2 :=
  OpenCache.relates_open (fun _ => .refl) .trans
    (fun t => Files.changes_createDirectories (.createDirectories t root))
    (fun _ hpath kind journal t => Files.changes_openStore hpath (OpenCache.address_of_mem hplain hpath) t kind journal)
    (fun gone t => Files.changes_leaveStores t gone) config t

theorem changes_open {documents : String → Prop} (hplain : Address.IsPlain root) {config : Config}
    {result : Except Failure Session} (h : Session.open root config t = (result, u)) :
    Changes (· ∈ OpenCache.storePaths root) documents t u := by
  have hopen : Changes (· ∈ OpenCache.storePaths root) documents t (OpenCache.open root config t).2 :=
    changes_openCache hplain config t
  rw [open_eq] at h
  split at h
  · cases h
    exact .refl
  · split at h
    · rename_i hcache
      rw [hcache] at hopen
      cases h
      exact hopen
    · rename_i hcache
      rw [hcache] at hopen
      cases h
      exact hopen

theorem changing_save (root : String) (table : SymbolTable) (t : Files) :
    Changing root t (table.save (symbolsOf root) t).2.2 := by
  have hsave : Changing root t
      ((symbolsOf root).save SymbolFile.form SymbolTable.fileName ⟨SymbolFile.supported, table.symbols⟩ t).2 :=
    Files.changes_save (by simp [symbolPaths]) (by simp [symbolPaths]) (SymbolFile.isQuiet_toIndented _) t
  unfold SymbolTable.save
  split
  · split
    · rename_i h
      rw [h] at hsave
      exact hsave
    · rename_i h
      rw [h] at hsave
      exact hsave
  · exact .refl

theorem changes_closeCache {stores documents : String → Prop} (c : OpenCache) (t : Files) :
    Changes stores documents t (c.close t) := by
  rw [OpenCache.close_eq]
  exact Files.changes_foldl (fun _ _ t => Files.changes_leaveStores t _) t

theorem close_apply (s : Session) (t : Files) : s.close t =
    ((s.symbols.save s.symbolStore t).1.mapError .saveSymbols, s.cache.close (s.symbols.save s.symbolStore t).2.2) :=
  rfl

/-- A session that closes well has saved its symbols before. -/
theorem of_close {s : Session} (h : s.close t = (.ok (), u)) :
    ∃ table v, s.symbols.save s.symbolStore t = (.ok (), table, v) ∧ s.cache.close v = u := by
  rw [close_apply] at h
  match hsave : s.symbols.save s.symbolStore t with
  | (.ok (), table, v) =>
    rw [hsave] at h
    exact ⟨table, v, rfl, (Prod.mk.inj h).2⟩
  | (.error error, table, v) =>
    rw [hsave] at h
    cases h

theorem of_wipe {s : Session} {printed : String} (h : s.wipe t = (.ok printed, u)) :
    ∃ table v, s.symbols.save s.symbolStore t = (.ok (), table, v) ∧ s.cache.wipe v = u := by
  unfold Session.wipe at h
  split at h
  · cases h
  · rename_i table v hsave
    exact ⟨table, v, hsave, (Prod.mk.inj h).2⟩

theorem changing_close {s : Session} (hstore : s.symbolStore = symbolsOf root) (t : Files) :
    Changing root t (s.close t).2 := by
  rw [close_apply, hstore]
  dsimp only
  exact (changing_save root s.symbols t).trans (changes_closeCache s.cache _)

theorem changing_wipe {s : Session} (hstore : s.symbolStore = symbolsOf root) (t : Files) :
    Changing root t (s.wipe t).2 := by
  have hsave := changing_save root s.symbols t
  rw [← hstore] at hsave
  unfold wipe
  split
  · rename_i h
    rw [h] at hsave
    dsimp only at hsave ⊢
    exact hsave.trans (changes_closeCache s.cache _)
  · rename_i h
    rw [h] at hsave
    dsimp only [OpenCache.wipe] at hsave ⊢
    exact (hsave.trans (changes_closeCache s.cache _)).trans (Files.changes_removeFilesIn _ _)

end Session

/-! ## Visits -/

namespace Visit

variable {v : Visit} {root : String} {t : Files}

/-- A visit does nothing to a tree but what sessions may do. -/
theorem changing_run (hplain : Address.IsPlain root) (ht : t.Sound) (v : Visit) :
    Session.Changing root t (v.run root t) := by
  match hopen : Session.open root v.config t with
  | (.error error, u) =>
    rw [v.run_of_error root t hopen]
    exact Session.changes_open hplain hopen
  | (.ok s, u) =>
    obtain ⟨-, hcache, hstore⟩ := Session.of_open hopen
    obtain ⟨hheld, -⟩ := OpenCache.held_open hplain ht hcache
    have hwork : Session.Run.Leads (fun _ => False) 0 _ ⟨s, u, ""⟩ (v.work s u) :=
      Session.leads_foldl_after nofun (List.Subset.refl _)
    have hcommits : Session.Changing root u (v.work s u).files :=
      hwork.commits.changes (OpenCache.users_of_held (hheld.imp fun _ _ h => h.1))
    have hstore' := hwork.symbolStore.trans hstore
    have hfinish : Session.Changing root (v.work s u).files (v.finish (v.work s u)) := by
      unfold finish
      split
      · exact Session.changing_wipe hstore' _
      · exact Session.changing_close hstore' _
    rw [v.run_of_open root t hopen]
    exact ((Session.changes_open hplain hopen).trans hcommits).trans hfinish

end Visit

/-! ## What sessions leave -/

/-- The trees that sessions on a directory leave, whatever they do and whatever fails in them. Others may change
everything meanwhile but the logs and the symbols of the cache, as long as they take no directory away. -/
inductive Left (root : String) : Files → Prop where
  | new {t : Files} : t.Sound → (∀ place, Session.Own root t place → t.entryAt? place = none) → Left root t
  | visit {t : Files} (v : Visit) : Left root t → Left root (v.run root t)
  | others {t u : Files} : Left root t → u.Sound → Agree (fun place => ¬Session.Own root t place) t u → Left root u

theorem Left.settled {root : String} {t : Files} (hplain : Address.IsPlain root) (h : Left root t) :
    Session.Settled root t := by
  induction h with
  | new hsound hfree =>
    refine ⟨hsound, fun place hplace bytes hfile => ?_, fun entry hentry _ => ?_⟩
    · rw [hfree place hplace] at hfile
      cases hfile
    · have hnone := hfree _ (Session.own_symbolPlace root _)
      rw [Session.symbolPlace, JsonStore.place, hentry] at hnone
      cases hnone
  | visit v _ ih => exact ih.changing (Visit.changing_run hplain ih.sound v)
  | @others t u _ hsound hagree ih =>
    have hown : ∀ place, Session.Own root t place → u.entryAt? place = t.entryAt? place :=
      fun place hplace => hagree.entry place fun hnot => hnot hplace
    refine ⟨hsound, fun place hplace bytes hfile => ?_, fun entry hentry hfile => ?_⟩
    · rw [Session.own_of_working hagree.working] at hplace
      rw [hown place hplace] at hfile
      exact ih.quiet place hplace bytes hfile
    · have hsymbols := hown _ (Session.own_symbolPlace root t)
      rw [Session.symbolPlace, JsonStore.place] at hsymbols
      rw [Files.target_of_working hagree.working] at hentry ⊢
      rw [hsymbols] at hentry
      exact Files.locate_of_directories hagree.working hagree.directory (ih.located entry hentry hfile)

end ClassDeps
