import ClassDeps.Proofs.Cache.Committed
import ClassDeps.Proofs.Cache.Spared
import ClassDeps.Proofs.Cache.Views

/-!
# Wiping a cache

Wiping removes every file that stands directly in the directory of a cache, whoever made it, and leaves the directories
in it alone with all that they hold. The directory is then opened like a new one, unless a directory stands where a
store is to be made.

## Main definitions

* `Files.Fit` — a store can be made at the place of a path
* `OpenCache.Disturbed`, `OpenCache.InUse` — a cache that is used while others change files
* `OpenCache.Unobstructed` — no directory is in the way of the stores
* `OpenCache.Wiped` — what wiping leaves

## Main statements

* `Files.openAll_of_fit` — opening stores where there are none
* `OpenCache.InUse.usable` — what stays as it was when a cache was opened
* `OpenCache.Usable.wiped` — what wiping a cache does
-/

namespace ClassDeps

namespace Files

variable {t u v : Files} {path : String} {kind : StoreKind} {journal : JournalMode} {id : Nat} {place : Place}
  {requests : List (String × StoreKind)}

/-! ## Stores of new files -/

/-- A store can be made at the place of a path, for as long as directories stay and none comes to stand there. -/
structure Fit (path : String) (t : Files) : Prop where
  address : Address.ofPath? path = some (.file path true)
  parent : ∀ parent, Path.parent? path = some parent → parent = "" ∨ t.isDirectory parent = true
  place : ∀ u : Files, u.working = t.working →
    (∀ place, t.entryAt? place = some .directory → u.entryAt? place = some .directory) →
    u.entryAt? (t.target path) ≠ some .directory → u.storePlace? path = some (t.target path)

namespace Fit

theorem of_standing (h : Standing journal path kind id t) : Fit path t where
  address := h.address
  parent := h.parent
  place _ hworking hkept hfree := h.way.storePlace?_eq h.place hworking hkept hfree

theorem of_directories (h : Fit path t) (hworking : u.working = t.working)
    (hkept : ∀ place, t.entryAt? place = some .directory → u.entryAt? place = some .directory) : Fit path u where
  address := h.address
  parent parent hparent := (h.parent parent hparent).imp_right (isDirectory_of_directories hworking hkept)
  place v hworking' hkept' hfree := by
    rw [target_of_working hworking] at hfree ⊢
    exact h.place v (hworking'.trans hworking) (fun place hplace => hkept' place (hkept place hplace)) hfree

/-- Where nothing stands a new store is made. -/
theorem openStore (h : Fit path t) (hnew : t.entryAt? (t.target path) = none)
    (hjournal : journalFault (t.target path) journal = none) (kind : StoreKind) :
    ∃ u, t.openStore path kind journal = (.ok ⟨t.stores.length, t.users⟩, u) ∧
      t.createStore (t.target path) kind journal = (.ok ⟨t.stores.length, t.users⟩, u) := by
  have hplace : t.storePlace? path = some (t.target path) := h.place t rfl (fun _ h => h) (by simp [hnew])
  obtain ⟨u, hmade⟩ : ∃ u, t.createStore (t.target path) kind journal = (.ok ⟨t.stores.length, t.users⟩, u) := by
    rw [createStore, hjournal]
    exact ⟨_, rfl⟩
  refine ⟨u, ?_, hmade⟩
  rw [Files.openStore, createParent_of_directory h.parent]
  simp only [h.address, hplace, hnew, if_true]
  exact hmade

end Fit

/-- Stores that are opened where there are none are new ones, and nothing is in them. -/
theorem openAll_of_fit (hfit : ∀ r ∈ requests, Fit r.1 t) (hnew : ∀ r ∈ requests, t.entryAt? (t.target r.1) = none)
    (hjournal : ∀ r ∈ requests, journalFault (t.target r.1) journal = none)
    (haside : ∀ r ∈ requests, (t.target r.1).Aside) (hdistinct : (requests.map fun r => t.target r.1).Nodup) :
    ∃ files u, openAll journal requests t = (.ok files, u) ∧ t.Keeps u ∧
      List.Forall₂ (fun r file => u.contents file.id = .empty r.2) requests files := by
  induction requests generalizing t with
  | nil => exact ⟨[], t, rfl, .refl t, .nil⟩
  | cons r requests ih =>
    rw [List.forall_mem_cons] at hfit hnew hjournal haside
    rw [List.map_cons, List.nodup_cons] at hdistinct
    obtain ⟨v, hopen, hmade⟩ := hfit.1.openStore hnew.1 hjournal.1 r.2
    obtain ⟨-, hworking, hkept, hentries, hlength, -, hfile⟩ := of_createStore (by simp [hnew.1]) hmade
    have htarget (path : String) : v.target path = t.target path := target_of_working hworking path
    -- The entries of the new store and of its log are not at the places of the others.
    have hstill : ∀ q ∈ requests, v.entryAt? (v.target q.1) = none := by
      intro q hq
      have hother : t.target q.1 ≠ t.target r.1 := fun heq => hdistinct.1 (List.mem_map.2 ⟨q, hq, heq⟩)
      have hlogs : t.target q.1 ∉ logPlaces (some (t.target r.1)) :=
        fun hmem => not_aside_of_mem_logPlaces hmem (haside.2 q hq)
      rw [htarget, hentries _ hlogs, if_neg hother]
      exact hnew.2 q hq
    obtain ⟨files, u, hrest, hkeeps, hempty⟩ := ih (fun q hq => (hfit.2 q hq).of_directories hworking hkept) hstill
      (fun q hq => by rw [htarget]; exact hjournal.2 q hq) (fun q hq => by rw [htarget]; exact haside.2 q hq)
      (by simpa only [htarget] using hdistinct.2)
    refine ⟨⟨t.stores.length, t.users⟩ :: files, u, openAll_cons_eq_ok_iff.2 ⟨_, files, v, rfl, hopen, hrest⟩,
      (keeps_openStore hopen).trans hkeeps, .cons ?_ hempty⟩
    rw [hkeeps.contents (by rw [hlength]; exact Nat.lt_succ_self _), contents, hfile, if_pos rfl]

/-! ## Removing files -/

/-- What stands directly in a directory goes, unless it is a directory. -/
theorem entryAt?_removeFilesIn (h : t.isDirectory path = true) (place : Place) :
    (t.removeFilesIn path).entryAt? place =
      (t.entryAt? place).filter fun entry => entry = .directory || place.dropLast ≠ t.target path := by
  obtain ⟨base, hlocate, -⟩ := isDirectory_iff.1 h
  rw [entryAt?_removeFilesIn_of_locate hlocate, locate_eq_target hlocate]

end Files

/-! ## New caches -/

namespace Cache

/-- Nothing is known. -/
def View.empty : View :=
  ⟨fun _ => none, fun _ => none, fun _ => false, fun _ => false, fun _ => false⟩

/-- The cache of a new directory answers every query as if nothing were known. -/
theorem answers_fresh (root : String) (capacity : Nat) {α : Type} (query : Query α) :
    (fresh root capacity).Answers .empty query := by
  have hshows : (fresh root capacity).Shows .empty := {
    toCoherent := .fresh root capacity
    keyed := (Reachable.fresh root capacity).keyed
    record := fun _ => rfl
    marker := fun _ => rfl
    referencer := fun _ _ => iff_of_false Bool.false_ne_true List.not_mem_nil
    referenced := fun _ _ => iff_of_false Bool.false_ne_true List.not_mem_nil
    subclass := fun _ _ => iff_of_false Bool.false_ne_true List.not_mem_nil }
  exact hshows.answers query fun q _ record hrecord => nomatch hrecord

end Cache

namespace OpenCache

open Files (Bounded Commits Fit)

variable {c : OpenCache} {root : String} {config : Config} {t u v : Files}

/-- A store does not stand at the place of a log. -/
theorem aside_target {r : String × StoreKind} (hr : r ∈ requests root) (t : Files) : (t.target r.1).Aside := by
  obtain ⟨file, hfile, rfl⟩ := List.mem_map.1 hr
  rw [target_file t root hfile]
  exact aside_file hfile _

/-- A cache is opened where it can have stores and there are none. -/
theorem open_of_fit (hdirectory : t.isDirectory root = true) (hfit : ∀ r ∈ requests root, Fit r.1 t)
    (hnew : ∀ r ∈ requests root, t.entryAt? (t.target r.1) = none) (config : Config) :
    ∃ c u, OpenCache.open root config t = (.ok c, u) ∧ c.cache u = .fresh root config.cacheSize.toNat := by
  have hjournal : ∀ r ∈ requests root, Files.journalFault (t.target r.1) config.journalMode = none := by
    intro r hr
    obtain ⟨file, hfile, rfl⟩ := List.mem_map.1 hr
    have hshort : ∀ file ∈ storeFiles, (file.1 ++ "-journal").utf8ByteSize ≤ Files.nameLimit := by decide
    unfold Files.journalFault
    split
    · rfl
    · rw [target_file t root hfile, Place.beside, List.getLastD_concat, List.getLastD_concat, if_pos (hshort file hfile)]
  obtain ⟨files, u, hopen, -, hempty⟩ := Files.openAll_of_fit hfit hnew hjournal (fun r hr => aside_target hr t)
    (nodup_targets t root)
  obtain ⟨c, hcache, rfl⟩ := open_of_openAll (Files.createDirectories_of_isDirectory hdirectory) hopen
  refine ⟨c, u, hcache, ?_⟩
  simp only [requests, storeFiles, OpenCache.files, List.map_cons, List.forall₂_cons] at hempty
  obtain ⟨h₁, h₂, h₃, h₄, h₅, -⟩ := hempty
  rw [(cache_open hcache).2, h₁, h₂, h₃, h₄, h₅]
  rfl

/-! ## Caches in use -/

/-- What others do while a cache is open. They take no directory away, and the handles of the cache are used for its own
stores only. -/
structure Disturbed (c : OpenCache) (t u : Files) : Prop where
  working : u.working = t.working
  directory : ∀ place, t.entryAt? place = some .directory → u.entryAt? place = some .directory
  length : t.stores.length ≤ u.stores.length
  place : ∀ id < t.stores.length, (u.stores.getD id default).place = (t.stores.getD id default).place
  users : ∀ id, ∀ file ∈ c.files, file.user ∈ (u.stores.getD id default).log.users →
    file.user ∈ (t.stores.getD id default).log.users ∨ id ∈ c.ids

/-- A cache that was opened and is used, while others change files. -/
inductive InUse (root : String) : OpenCache → Files → Prop where
  | opened {config : Config} {c : OpenCache} {t u : Files} :
    t.Sound → OpenCache.open root config t = (.ok c, u) → InUse root c u
  | run {α : Type} {c : OpenCache} {t : Files} (op : StateM Cache α) :
    InUse root c t → InUse root (c.run op t).2.1 (c.run op t).2.2
  | others {c : OpenCache} {t u : Files} : InUse root c t → c.Disturbed t u → InUse root c u

namespace Disturbed

theorem of_eq (hworking : u.working = t.working)
    (hkept : ∀ place, t.entryAt? place = some .directory → u.entryAt? place = some .directory)
    (hstores : u.stores = t.stores) : c.Disturbed t u where
  working := hworking
  directory := hkept
  length := Nat.le_of_eq (congrArg List.length hstores.symm)
  place _ _ := by rw [hstores]
  users _ _ _ huser := .inl (hstores ▸ huser)

theorem refl (c : OpenCache) (t : Files) : c.Disturbed t t :=
  .of_eq rfl (fun _ h => h) rfl

theorem trans (h : c.Disturbed t u) (h' : c.Disturbed u v) : c.Disturbed t v where
  working := h'.working.trans h.working
  directory place hplace := h'.directory place (h.directory place hplace)
  length := Nat.le_trans h.length h'.length
  place id hid := (h'.place id (Nat.lt_of_lt_of_le hid h.length)).trans (h.place id hid)
  users id file hfile huser := (h'.users id file hfile huser).elim (h.users id file hfile) .inr

/-- Someone writes a file, or makes a directory. -/
theorem setEntry {place : Place} (h : t.entryAt? place ≠ some .directory) (entry : Entry) :
    c.Disturbed t (t.setEntry place entry) := by
  have hagree : Files.Agree (fun _ => True) t (t.setEntry place entry) := .setEntry trivial h entry
  exact .of_eq rfl hagree.directory rfl

/-- Writing a store of a cache opens no log but its own. -/
theorem of_commit (h : Files.Commit c.handles t u) : c.Disturbed t u := by
  obtain ⟨handle, hhandle, contents, -, rfl⟩ := h
  have hset (id : Nat) : ((t.setContents handle.1.id contents).stores.getD id default).place =
        (t.stores.getD id default).place ∧
      ((t.setContents handle.1.id contents).stores.getD id default).log = (t.stores.getD id default).log := by
    rw [Files.getD_setContents]
    split
    · rename_i hid
      exact hid.1 ▸ ⟨rfl, rfl⟩
    · exact ⟨rfl, rfl⟩
  exact {
    working := Files.working_modifyLog _ _ _
    directory := fun place hplace => Files.directory_modifyLog hplace
    length := by rw [Files.length_modifyLog, Files.length_setContents]
    place := fun id _ => by
      rw [Files.stores_modifyLog, Files.getD_setLog]
      split
      · rename_i hid
        exact hid.1 ▸ (hset _).1
      · exact (hset id).1
    users := fun id file _ huser => by
      rw [Files.stores_modifyLog, Files.getD_setLog] at huser
      split at huser
      · rename_i hid
        refine .inr (hid.1 ▸ ?_)
        exact List.mem_map_of_mem (f := fun handle : OpenFile × StoreKind => handle.1.id) hhandle
      · exact .inl ((hset id).2 ▸ huser) }

theorem of_commits (h : Commits c.handles t u) : c.Disturbed t u := by
  induction h with
  | refl => exact .refl c t
  | tail _ hcommit ih => exact ih.trans (.of_commit hcommit)

end Disturbed

/-- What it takes to open the directory of a cache again, once its files are gone. -/
structure Usable (root : String) (c : OpenCache) (t : Files) : Prop where
  home : c.root = root
  directory : t.isDirectory root = true
  fit : ∀ r ∈ requests root, Fit r.1 t
  place : ∀ id ∈ c.ids, ∃ r ∈ requests root, (t.stores.getD id default).place = some (t.target r.1)
  bounded : Bounded (IsLog (t.target root)) (fun user => ∃ file ∈ c.files, file.user = user) t

theorem getD_of_le {id : Nat} (h : t.stores.length ≤ id) : t.stores.getD id default = default := by
  rw [List.getD_eq_getElem?_getD, List.getElem?_eq_none h]
  rfl

/-- A store with a place is there, and so is one with users. -/
theorem known_of_place {id : Nat} {place : Place} (h : (t.stores.getD id default).place = some place) :
    id < t.stores.length := by
  by_contra hid
  rw [getD_of_le (Nat.le_of_not_lt hid)] at h
  cases h

theorem known_of_user {id user : Nat} (h : user ∈ (t.stores.getD id default).log.users) : id < t.stores.length := by
  by_contra hid
  rw [getD_of_le (Nat.le_of_not_lt hid)] at h
  cases h

namespace Usable

theorem of_open (hplain : Address.IsPlain root) (hne : root ≠ "") (ht : t.Sound)
    (h : OpenCache.open root config t = (.ok c, u)) : Usable root c u := by
  obtain ⟨hheld, hconfined, -, hdirectory⟩ := held_open hplain ht h
  have hspares : Files.Spares (fun _ => False) (fun _ => True) t (OpenCache.open root config t).2 :=
    spares_open nofun (fun _ => trivial) root config t
  rw [h] at hspares
  have hstands : ∀ r ∈ requests root, ∃ id, Files.Standing config.journalMode r.1 r.2 id u := by
    intro r hr
    obtain ⟨i, hi, rfl⟩ := List.getElem_of_mem hr
    exact ⟨_, (hheld.get hi (hheld.length_eq ▸ hi)).1.standing⟩
  have hfiles : ∀ file ∈ c.files, t.users ≤ file.user ∧
      ∃ r ∈ requests root, (u.stores.getD file.id default).place = some (u.target r.1) := by
    intro file hfile
    obtain ⟨i, hi, rfl⟩ := List.getElem_of_mem hfile
    have hi' : i < (requests root).length := hheld.length_eq ▸ hi
    obtain ⟨hheld, huser⟩ := hheld.get hi' hi
    exact ⟨huser, _, List.getElem_mem hi', hheld.standing.home⟩
  exact {
    home := (List.cons.inj (paths_open h)).1
    directory := hdirectory.resolve_left hne
    fit := fun r hr => .of_standing (hstands r hr).choose_spec
    place := fun id hid => by
      obtain ⟨file, hfile, rfl⟩ := List.mem_map.1 (ids_eq c ▸ hid)
      exact (hfiles file hfile).2
    bounded := fun id user huser ⟨file, hfile, hsame⟩ place hplace => by
      rw [Files.target_of_working hspares.working]
      exact hconfined id user huser (hsame ▸ (hfiles file hfile).1) place hplace }

/-- It stays for as long as directories do, and nobody else uses the handles of the cache. -/
theorem disturbed (h : Usable root c t) (hdisturbed : c.Disturbed t u) : Usable root c u where
  home := h.home
  directory := Files.isDirectory_of_directories hdisturbed.working hdisturbed.directory h.directory
  fit r hr := (h.fit r hr).of_directories hdisturbed.working hdisturbed.directory
  place id hid := by
    obtain ⟨r, hr, hplace⟩ := h.place id hid
    refine ⟨r, hr, ?_⟩
    rw [hdisturbed.place id (known_of_place hplace), Files.target_of_working hdisturbed.working]
    exact hplace
  bounded id user huser := by
    rintro ⟨file, hfile, rfl⟩ place hplace
    rw [Files.target_of_working hdisturbed.working]
    obtain hold | hown := hdisturbed.users id file hfile huser
    · rw [hdisturbed.place id (known_of_user hold)] at hplace
      exact h.bounded id file.user hold ⟨file, hfile, rfl⟩ place hplace
    · obtain ⟨r, hr, hhome⟩ := h.place id hown
      rw [hdisturbed.place id (known_of_place hhome), hhome] at hplace
      exact isLog_of_mem hr hplace

/-- It depends on the handles of the cache, and not on what it has in memory. -/
theorem of_handles {d : OpenCache} (h : Usable root c t) (hroot : d.root = c.root) (hhandles : d.handles = c.handles) :
    Usable root d t := by
  have hfiles : d.files = c.files := congrArg (List.map Prod.fst) hhandles
  have hids : d.ids = c.ids := congrArg (List.map OpenFile.id) hfiles
  exact ⟨hroot.trans h.home, h.directory, h.fit, hids ▸ h.place, hfiles ▸ h.bounded⟩

/-- Closing the cache changes nothing but the files of its logs. -/
theorem follows_close (h : Usable root c t) : Files.Follows (IsLog (t.target root)) t (c.close t) :=
  follows_close_of_bounded (fun file hfile => ⟨file, hfile, rfl⟩) h.bounded

end Usable

theorem InUse.usable (hplain : Address.IsPlain root) (hne : root ≠ "") (h : InUse root c t) : Usable root c t := by
  induction h with
  | opened ht hopen => exact .of_open hplain hne ht hopen
  | @run α c t op _ ih => exact (ih.disturbed (.of_commits (commits_run c op t))).of_handles rfl rfl
  | others _ hdisturbed ih => exact ih.disturbed hdisturbed

/-! ## Wiping -/

/-- No directory stands where a store of a cache is to be made, or where there may be a file beside it. -/
def Unobstructed (root : String) (t : Files) : Prop :=
  ∀ file ∈ storeFiles, ∀ ending ∈ ["", "-journal", Files.logEnding, Files.sharedEnding],
    t.entryAt? (t.target root ++ [file.1 ++ ending]) ≠ some .directory

instance (root : String) (t : Files) : Decidable (Unobstructed root t) :=
  inferInstanceAs (Decidable (∀ file ∈ storeFiles, ∀ ending ∈ ["", "-journal", Files.logEnding, Files.sharedEnding], _))

/-- What wiping the cache of a directory leaves. -/
structure Wiped (root : String) (t u : Files) : Prop where
  working : u.working = t.working
  /-- Nothing but directories stands in the directory. -/
  direct : ∀ place entry, place.dropLast = t.target root → u.entryAt? place = some entry → entry = .directory
  /-- Directories stay, and so does what stands in them, or elsewhere. -/
  directory : ∀ place, t.entryAt? place = some .directory → u.entryAt? place = some .directory
  elsewhere : ∀ place, place.dropLast ≠ t.target root → u.entryAt? place = t.entryAt? place
  contents : ∀ id, u.contents id = t.contents id
  /-- The directory is opened like a new one, whatever the settings. -/
  opens : ∀ config, ∃ c v, OpenCache.open root config u = (.ok c, v) ∧
    c.cache v = .fresh root config.cacheSize.toNat ∧
      ∀ {α : Type} (query : Cache.Query α), (c.cache v).Answers .empty query

/-- Wiping changes nothing that a store holds. -/
theorem Usable.contents_wipe (h : Usable root c t) (id : Nat) : (c.wipe t).contents id = t.contents id := by
  have hstores : (c.wipe t).stores = (c.close t).stores := by
    rw [wipe, Files.removeFilesIn]
    split <;> rfl
  have hclosed : (c.wipe t).contents id = (c.close t).contents id := by rw [Files.contents, Files.contents, hstores]
  rw [hclosed]
  by_cases hid : id < t.stores.length
  · exact (c.keeps_close t).contents hid
  · have hold : t.stores.length ≤ id := Nat.le_of_not_lt hid
    have hclosed : (c.close t).stores.length ≤ id := Nat.le_trans (Nat.le_of_eq h.follows_close.length) hold
    rw [Files.contents, Files.contents, getD_of_le hclosed, getD_of_le hold]

/-- Wiping is closing the cache, and then removing what stands directly in its directory. -/
theorem Usable.entryAt?_wipe (h : Usable root c t) (place : Place) :
    (c.wipe t).entryAt? place = ((c.close t).entryAt? place).filter fun entry =>
      entry = .directory || place.dropLast ≠ t.target root := by
  obtain ⟨⟨hworking, hkept, -⟩, -, -⟩ := h.follows_close
  have hdirectory : (c.close t).isDirectory c.root = true :=
    h.home ▸ Files.isDirectory_of_directories hworking hkept h.directory
  rw [wipe, Files.entryAt?_removeFilesIn hdirectory, Files.target_of_working hworking, h.home]

theorem Usable.working_wipe (h : Usable root c t) : (c.wipe t).working = t.working := by
  rw [wipe, Files.removeFilesIn]
  split <;> exact h.follows_close.working

/-- Nothing but directories is left directly in the directory of the cache. -/
theorem Usable.eq_directory_of_wipe (h : Usable root c t) {place : Place} {entry : Entry}
    (hplace : place.dropLast = t.target root) (hstays : (c.wipe t).entryAt? place = some entry) : entry = .directory := by
  rw [h.entryAt?_wipe] at hstays
  simpa [hplace] using (Option.filter_eq_some_iff.1 hstays).2

/-- Wiping leaves nothing but directories, and where no directory is in the way the cache is a new one. -/
theorem Usable.wiped (h : Usable root c t) (hfree : Unobstructed root t) : Wiped root t (c.wipe t) := by
  obtain ⟨⟨-, hkept, hentry⟩, -, -⟩ := h.follows_close
  have hsame := h.working_wipe
  have hdirectories : ∀ place, t.entryAt? place = some .directory → (c.wipe t).entryAt? place = some .directory := by
    intro place hplace
    rw [h.entryAt?_wipe, hkept place hplace]
    rfl
  exact {
    working := hsame
    direct := fun _ _ => h.eq_directory_of_wipe
    directory := hdirectories
    elsewhere := fun place hplace => by
      rw [h.entryAt?_wipe, hentry place fun hlog => hplace hlog.dropLast_eq]
      cases t.entryAt? place <;> simp [hplace]
    contents := h.contents_wipe
    opens := fun config => by
      have hnew : ∀ r ∈ requests root, (c.wipe t).entryAt? ((c.wipe t).target r.1) = none := by
        intro r hr
        obtain ⟨file, hfile, rfl⟩ := List.mem_map.1 hr
        rw [target_file _ root hfile, Files.target_of_working hsame]
        refine Option.eq_none_iff_forall_ne_some.2 fun entry hstays => ?_
        obtain rfl := h.eq_directory_of_wipe List.dropLast_concat hstays
        rw [h.entryAt?_wipe] at hstays
        have hclosed := (Option.filter_eq_some_iff.1 hstays).1
        rw [hentry _ fun hlog => hlog.not_aside (aside_file hfile _)] at hclosed
        exact hfree file hfile "" List.mem_cons_self (by rwa [String.append_empty])
      obtain ⟨d, v, hopen, hfresh⟩ := open_of_fit (Files.isDirectory_of_directories hsame hdirectories h.directory)
        (fun r hr => (h.fit r hr).of_directories hsame hdirectories) hnew config
      exact ⟨d, v, hopen, hfresh, fun query => hfresh ▸ Cache.answers_fresh root _ query⟩ }

end OpenCache

end ClassDeps
