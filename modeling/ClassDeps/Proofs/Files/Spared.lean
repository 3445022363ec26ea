import ClassDeps.Proofs.Files.Places
import ClassDeps.Proofs.Files.Stores
import Mathlib.Data.List.Basic

/-!
# Files beside stores

What opening, logging, committing and leaving store files does to a tree besides: directories stay, and so does every
file that is neither empty nor one of a log. Entries of stores do not move from one store to another.

## Main definitions

* `Place.Aside` — places of files that belong to no log
* `Files.Spares` — what a change of a tree spares, and what the stores hold that it changes

## Main statements

* `Spares.modifyLog`, `Spares.leaveStores` — logs
* `Furnished.spares` — directories
* `Spares.openStore` — opening a store file
* `Spares.setContents`, `Spares.removeFilesIn` — changing a store, and removing files
-/

namespace ClassDeps

/-- A place that is none of a file of a log. -/
def Place.Aside (place : Place) : Prop :=
  ∀ other : Place, ∀ ending ∈ [Files.logEnding, Files.sharedEnding], other.beside ending ≠ place

/-- A file whose name ends in another letter than the names of logs belongs to no log. -/
theorem Place.aside_concat (place : Place) {name : String} (h : name.toList.getLast? ≠ some 'l')
    (h' : name.toList.getLast? ≠ some 'm') : (place ++ [name]).Aside := by
  intro other ending hending heq
  rw [beside] at heq
  have hname : other.getLastD "" ++ ending = name := List.singleton_inj.1 (List.append_inj' heq rfl).2
  have hlast := congrArg (fun name : String => name.toList.getLast?) hname
  simp only [String.toList_append] at hlast
  simp only [List.mem_cons, List.not_mem_nil, or_false] at hending
  obtain rfl | rfl := hending
  · rw [List.getLast?_append_of_ne_nil _ (by decide)] at hlast
    exact h hlast.symm
  · rw [List.getLast?_append_of_ne_nil _ (by decide)] at hlast
    exact h' hlast.symm

namespace Files

/-- A change of a tree spares directories and the files at some places, unless they count as empty, and moves no
entry from one store to another. What a changed store holds is good. -/
structure Spares (kept : Place → Prop) (good : StoreContents → Prop) (t u : Files) : Prop where
  working : u.working = t.working
  length : t.stores.length ≤ u.stores.length
  contents : ∀ id, u.contents id = t.contents id ∨ good (u.contents id)
  directory : ∀ place, t.entryAt? place = some .directory → u.entryAt? place = some .directory
  file : ∀ place, kept place → ∀ bytes : Bytes, 2 ≤ bytes.length → t.entryAt? place = some (.file bytes) →
    u.entryAt? place = some (.file bytes)
  store : ∀ place id, u.entryAt? place = some (.store id) →
    t.entryAt? place = some (.store id) ∨ t.stores.length ≤ id

/-- What a change of entries spares: an entry that is changed is no directory, becomes no store, and is no file that
is to be kept. -/
structure Loses (kept : Place → Prop) (t u : Files) (place : Place) : Prop where
  directory : t.entryAt? place ≠ some .directory
  file : ∀ bytes : Bytes, 2 ≤ bytes.length → kept place → t.entryAt? place ≠ some (.file bytes)
  store : ∀ id, u.entryAt? place ≠ some (.store id)

variable {kept : Place → Prop} {good : StoreContents → Prop} {t u v : Files}

namespace Spares

theorem refl (t : Files) : Spares kept good t t where
  working := rfl
  length := Nat.le_refl _
  contents _ := .inl rfl
  directory _ h := h
  file _ _ _ _ h := h
  store _ _ h := .inl h

theorem trans (h : Spares kept good t u) (h' : Spares kept good u v) : Spares kept good t v where
  working := h'.working.trans h.working
  length := Nat.le_trans h.length h'.length
  contents id := by
    obtain hsame | hgood := h'.contents id
    · rw [hsame]
      exact h.contents id
    · exact .inr hgood
  directory place hplace := h'.directory place (h.directory place hplace)
  file place hkept bytes hbytes hfile := h'.file place hkept bytes hbytes (h.file place hkept bytes hbytes hfile)
  store place id hstore := by
    obtain hsame | hnew := h'.store place id hstore
    · exact h.store place id hsame
    · exact .inr (Nat.le_trans h.length hnew)

theorem mono {kept' : Place → Prop} {good' : StoreContents → Prop} (h : Spares kept good t u)
    (hkept : ∀ place, kept' place → kept place) (hgood : ∀ c, good c → good' c) : Spares kept' good' t u :=
  { h with
    contents := fun id => (h.contents id).imp_right (hgood _)
    file := fun place hplace => h.file place (hkept place hplace) }

theorem of_entries (hworking : u.working = t.working) (hstores : u.stores = t.stores)
    (hentry : ∀ place, u.entryAt? place = t.entryAt? place ∨ Loses kept t u place) : Spares kept good t u where
  working := hworking
  length := Nat.le_of_eq (congrArg List.length hstores.symm)
  contents id := .inl (by rw [Files.contents, Files.contents, hstores])
  directory place hplace := by
    obtain hsame | hloses := hentry place
    · rw [hsame, hplace]
    · exact absurd hplace hloses.directory
  file place hkept bytes hbytes hfile := by
    obtain hsame | hloses := hentry place
    · rw [hsame, hfile]
    · exact absurd hfile (hloses.file bytes hbytes hkept)
  store place id hstore := by
    obtain hsame | hloses := hentry place
    · exact .inl (hsame ▸ hstore)
    · exact absurd hstore (hloses.store id)

end Spares

/-! ## Single entries -/

theorem entryAt?_setEntry {place : Place} (h : t.entryAt? place ≠ some .directory) (entry : Entry) (other : Place) :
    (t.setEntry place entry).entryAt? other = if other = place then some entry else t.entryAt? other := by
  have hplace : place ≠ [] := fun hroot => h (by rw [hroot]; rfl)
  unfold entryAt?
  by_cases hother : other = place
  · rw [if_pos hother, hother, if_neg hplace, setEntry, Ordered.Map.get?_insert, if_pos rfl]
  · rw [if_neg hother, setEntry, Ordered.Map.get?_insert, if_neg hother]

theorem entryAt?_erase {place : Place} (h : t.entryAt? place ≠ some .directory) (other : Place) :
    entryAt? { t with entries := t.entries.erase place } other =
      if other = place then none else t.entryAt? other := by
  have hplace : place ≠ [] := fun hroot => h (by rw [hroot]; rfl)
  unfold entryAt?
  by_cases hother : other = place
  · rw [if_pos hother, hother, if_neg hplace, Ordered.Map.get?_erase, if_pos rfl]
  · rw [if_neg hother, Ordered.Map.get?_erase, if_neg hother]

/-- What stands directly in a directory goes with its files, unless it is a directory. -/
theorem entryAt?_removeFilesIn_of_locate {path : String} {base : Place} (h : t.locate path = .ok base)
    (place : Place) : (t.removeFilesIn path).entryAt? place =
      (t.entryAt? place).filter fun entry => entry = .directory || place.dropLast ≠ base := by
  rw [removeFilesIn, h, entryAt?, entryAt?]
  by_cases hroot : place = []
  · simp [hroot, Option.filter]
  · simp [hroot, Ordered.Map.get?_filter]

/-- Removing the files of a directory leaves a place as it is, or takes a file away from it. -/
theorem removeFilesIn_cases (t : Files) (path : String) (place : Place) :
    (t.removeFilesIn path).entryAt? place = t.entryAt? place ∨
      t.entryAt? place ≠ some .directory ∧ place.dropLast = t.target path ∧
        (t.removeFilesIn path).entryAt? place = none := by
  match hlocate : t.locate path with
  | .error _ => exact .inl (by rw [removeFilesIn, hlocate])
  | .ok base =>
    rw [entryAt?_removeFilesIn_of_locate hlocate, ← locate_eq_target hlocate]
    match t.entryAt? place with
    | none => exact .inl rfl
    | some entry =>
      by_cases hstays : entry = .directory ∨ place.dropLast ≠ base
      · exact .inl (Option.filter_eq_some_iff.2 ⟨rfl, by simpa using hstays⟩)
      · obtain ⟨hdirectory, hbelow⟩ := not_or.1 hstays
        refine .inr ⟨fun heq => hdirectory (Option.some.inj heq), Decidable.not_not.1 hbelow, ?_⟩
        simp [hdirectory, Decidable.not_not.1 hbelow]

theorem Spares.setEntry {place : Place} {entry : Entry} (hdirectory : t.entryAt? place ≠ some .directory)
    (hfile : ∀ bytes : Bytes, 2 ≤ bytes.length → kept place → t.entryAt? place ≠ some (.file bytes))
    (hstore : ∀ id, entry ≠ .store id) : Spares kept good t (t.setEntry place entry) := by
  refine .of_entries rfl rfl fun other => ?_
  have hentry := entryAt?_setEntry hdirectory entry other
  by_cases hother : other = place
  · subst hother
    rw [if_pos rfl] at hentry
    exact .inr ⟨hdirectory, hfile, fun id => by simpa [hentry] using hstore id⟩
  · exact .inl (hentry.trans (if_neg hother))

theorem Spares.erase {place : Place} (hdirectory : t.entryAt? place ≠ some .directory)
    (hfile : ∀ bytes : Bytes, 2 ≤ bytes.length → kept place → t.entryAt? place ≠ some (.file bytes)) :
    Spares kept good t { t with entries := t.entries.erase place } := by
  refine .of_entries rfl rfl fun other => ?_
  have hentry := entryAt?_erase hdirectory other
  by_cases hother : other = place
  · subst hother
    rw [if_pos rfl] at hentry
    exact .inr ⟨hdirectory, hfile, fun id => by simp [hentry]⟩
  · exact .inl (hentry.trans (if_neg hother))

/-! ## Directories -/

theorem Furnished.spares (h : t.Furnished u) : Spares kept good t u := by
  induction h with
  | refl => exact .refl t
  | make _ hfree ih => exact ih.trans (.setEntry (by simp [hfree]) (by simp [hfree]) nofun)

/-! ## Logs -/

namespace Spares

theorem foldl {α : Type} {step : Files → α → Files} {xs : List α}
    (h : ∀ x ∈ xs, ∀ t, Spares kept good t (step t x)) (t : Files) : Spares kept good t (xs.foldl step t) := by
  induction xs generalizing t with
  | nil => exact .refl t
  | cons x xs ih =>
    rw [List.forall_mem_cons] at h
    exact (h.1 t).trans (ih h.2 _)

theorem createLogFile {place : Place} (hplace : ¬kept place) (t : Files) :
    Spares kept good t (t.createLogFile place) := by
  unfold Files.createLogFile
  split
  · exact .refl t
  · rename_i hdirectory
    exact .setEntry hdirectory (fun _ _ hkept => absurd hkept hplace) nofun

theorem removeLogFile {place : Place} (hplace : ¬kept place) (t : Files) :
    Spares kept good t (t.removeLogFile place) := by
  unfold Files.removeLogFile
  split
  · exact .refl t
  · rename_i hdirectory
    exact .erase hdirectory fun _ _ hkept => absurd hkept hplace

theorem setLog (t : Files) (id : Nat) (log : Log) : Spares kept good t
    { t with stores := t.stores.set id { t.stores.getD id default with log } } where
  working := rfl
  length := Nat.le_of_eq (List.length_set ..).symm
  contents other := .inl (t.contents_setLog id log other)
  directory _ h := h
  file _ _ _ _ h := h
  store _ _ h := .inl h

/-- Changing what a store holds. -/
theorem setContents (t : Files) (id : Nat) {contents : StoreContents} (hgood : good contents) :
    Spares kept good t (t.setContents id contents) where
  working := rfl
  length := Nat.le_of_eq (t.length_setContents id contents).symm
  contents other := by
    obtain hsame | hnew := t.contents_setContents_or id contents other
    · exact .inl hsame
    · rw [hnew]
      exact .inr hgood
  directory _ h := h
  file _ _ _ _ h := h
  store _ _ h := .inl h

theorem addStore (t : Files) (place : Option Place) {kind : StoreKind} (hgood : good (.empty kind)) :
    Spares kept good t (t.addStore place kind).2 where
  working := rfl
  length := (t.keeps_addStore place kind).length
  contents id := by
    rw [t.contents_addStore]
    split
    · exact .inr hgood
    · exact .inl rfl
  directory _ h := h
  file _ _ _ _ h := h
  store _ _ h := .inl h

/-- Making the entry of a store that was just added. -/
theorem setEntry_addStore {place : Place} {kind : StoreKind} (hgood : good (.empty kind))
    (hdirectory : t.entryAt? place ≠ some .directory)
    (hfile : ∀ bytes : Bytes, 2 ≤ bytes.length → t.entryAt? place ≠ some (.file bytes)) :
    Spares kept good t ((t.addStore (some place) kind).2.setEntry place (.store t.stores.length)) := by
  have hadd : Spares kept good t (t.addStore (some place) kind).2 := addStore t (some place) hgood
  have hentry (other : Place) := entryAt?_setEntry (t := (t.addStore (some place) kind).2) hdirectory
    (.store t.stores.length) other
  refine { hadd with directory := fun other h => ?_, file := fun other _ bytes hbytes h => ?_,
                     store := fun other id h => ?_ }
  · have hne : other ≠ place := by
      rintro rfl
      exact hdirectory h
    rw [hentry, if_neg hne]
    exact h
  · have hne : other ≠ place := by
      rintro rfl
      exact hfile bytes hbytes h
    rw [hentry, if_neg hne]
    exact h
  · rw [hentry] at h
    split at h
    · cases h
      exact .inr (Nat.le_refl _)
    · exact .inl h

variable (haside : ∀ place, kept place → place.Aside)

include haside

theorem modifyLog (t : Files) (id : Nat) (change : Log → Log) : Spares kept good t (t.modifyLog id change) := by
  have hplaces (place : Option Place) : ∀ other ∈ logPlaces place, ¬kept other := by
    intro other hother hkept
    obtain ⟨ending, hending, hother⟩ := List.mem_filterMap.1 hother
    obtain ⟨store, -, rfl⟩ := Option.map_eq_some_iff.1 hother
    exact haside _ hkept store ending hending rfl
  have hlog : Spares kept good t { t with
      stores := t.stores.set id { t.stores.getD id default with
        log := change (t.stores.getD id default).log } } := setLog t id _
  unfold Files.modifyLog
  simp only
  split
  · exact hlog
  · split
    · exact hlog.trans (foldl (fun other hother => createLogFile (hplaces _ other hother)) _)
    · split
      · exact hlog.trans (foldl (fun other hother => removeLogFile (hplaces _ other hother)) _)
      · exact hlog

theorem leaveStores (t : Files) (gone : Nat → Bool) : Spares kept good t (t.leaveStores gone) :=
  foldl (fun id _ t => modifyLog haside t id _) t

theorem createStore {place : Place} {kind : StoreKind} {journal : JournalMode}
    (hgood : good (.empty kind)) (hdirectory : t.entryAt? place ≠ some .directory)
    (hfile : ∀ bytes : Bytes, 2 ≤ bytes.length → t.entryAt? place ≠ some (.file bytes)) :
    Spares kept good t (t.createStore place kind journal).2 := by
  unfold Files.createStore
  split
  · have hlog : ¬kept (place.beside logEnding) :=
      fun hkept => haside _ hkept place logEnding List.mem_cons_self rfl
    have hmade := (setEntry_addStore hgood hdirectory hfile).trans (removeLogFile hlog _)
    exact hmade.trans (modifyLog haside _ _ fun _ => .start journal t.users)
  · simp only
    split
    · exact .refl t
    · exact .setEntry hdirectory (fun bytes hbytes _ => hfile bytes hbytes) nofun

theorem joinStore (t : Files) (path : String) (place : Place) (id : Nat) (kind : StoreKind) (journal : JournalMode) :
    Spares kept good t (t.joinStore path place id kind journal).2 := by
  have hjoined (log : Log) : Spares kept good t { t.modifyLog id fun _ => log with users := t.users + 1 } :=
    { modifyLog haside t id fun _ => log with }
  rcases hjoin : t.joinStore path place id kind journal with ⟨result, u⟩
  cases join_joinStore hjoin with
  | barred => exact .refl _
  | joined => exact hjoined _
  | gone => exact (hjoined _).trans (leaveStores haside _ _)

/-- Opening a store file spares the files that are none of a store, whatever becomes of it. -/
theorem openStore (hgood : ∀ kind, good (.empty kind)) (t : Files) (path : String) (kind : StoreKind)
    (journal : JournalMode) : Spares kept good t (t.openStore path kind journal).2 := by
  have hparent : Spares kept good t (t.createParent path).2 := (Furnished.createParent t path).spares
  unfold Files.openStore
  split
  · rename_i hcreate
    rw [hcreate] at hparent
    exact hparent
  · rename_i created hcreate
    rw [hcreate] at hparent
    refine hparent.trans ?_
    split
    · exact .refl created
    · exact .addStore created none (hgood kind)
    · split
      · exact .refl created
      · rename_i place hplace
        have hdirectory := not_directory_of_storePlace? hplace
        split
        · exact .joinStore haside created ..
        · exact .refl created
        · rename_i entry hstore hfile hentry
          refine .createStore haside (hgood kind) hdirectory fun bytes hbytes hbytes' => ?_
          rw [hentry, Option.some.injEq] at hbytes'
          match bytes, hbytes with
          | b :: b' :: rest, _ => exact hfile b b' rest hbytes'
        · rename_i hnone
          split
          · exact .createStore haside (hgood kind) hdirectory (by simp [hnone])
          · exact .refl created

omit haside in
/-- Removing the files of a directory spares those of other directories. -/
theorem removeFilesIn {path : String} (hkept : ∀ place, kept place → place.dropLast ≠ t.target path) :
    Spares kept good t (t.removeFilesIn path) := by
  have hsame : (t.removeFilesIn path).working = t.working ∧ (t.removeFilesIn path).stores = t.stores := by
    unfold Files.removeFilesIn
    split <;> exact ⟨rfl, rfl⟩
  refine .of_entries hsame.1 hsame.2 fun place => (removeFilesIn_cases t path place).imp_right ?_
  rintro ⟨hdirectory, hbelow, hnone⟩
  exact ⟨hdirectory, fun _ _ hplace => absurd hbelow (hkept place hplace), fun id => by simp [hnone]⟩

end Spares

/-! ## Which store is opened -/

theorem id_createStore {place : Place} {kind : StoreKind} {journal : JournalMode} {file : OpenFile}
    (h : t.createStore place kind journal = (.ok file, u)) : file.id = t.stores.length := by
  unfold createStore at h
  split at h
  · cases h
    rfl
  · cases h

theorem id_joinStore {path : String} {place : Place} {id : Nat} {kind : StoreKind} {journal : JournalMode}
    {file : OpenFile} (h : t.joinStore path place id kind journal = (.ok file, u)) : file.id = id := by
  cases join_joinStore h with
  | joined => rfl

/-- A store that is opened is new, or the store at the place of its path. -/
theorem id_openStore {path : String} {kind : StoreKind} {journal : JournalMode} {file : OpenFile}
    (h : t.openStore path kind journal = (.ok file, u)) :
    t.stores.length ≤ file.id ∨ ∃ filePath mayCreate, Address.ofPath? path = some (.file filePath mayCreate) ∧
      t.entryAt? (t.target filePath) = some (.store file.id) := by
  obtain ⟨created, hfurnished, hattempt, -⟩ := attempt_openStore h
  have hcreated : Spares (fun _ => False) (fun _ => True) t created := hfurnished.spares
  cases hattempt with
  | nowhere => exact .inl hcreated.length
  | joins haddress _ hentry hjoin =>
    rw [id_joinStore hjoin]
    obtain hold | hnew := hcreated.store _ _ hentry
    · exact .inr ⟨_, _, haddress, target_of_working hcreated.working _ ▸ hold⟩
    · exact .inl hnew
  | creates _ _ _ hcreate => exact .inl ((id_createStore hcreate).symm ▸ hcreated.length)

end Files

end ClassDeps
