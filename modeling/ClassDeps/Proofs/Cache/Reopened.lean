import ClassDeps.Proofs.Cache.Opened
import ClassDeps.Proofs.Files.Addresses
import ClassDeps.Proofs.Files.Reopening

/-!
# Opening a cache again

The stores of a cache are opened one after the other. Once they were opened they stand at their places, each with a
handle of its own, and for as long as they do the cache is opened again with the same stores.

## Main definitions

* `Files.openAll` — opening store files one after the other
* `Files.Held` — a store stands at the place of a path, and someone has it open
* `OpenCache.requests`, `OpenCache.files` — the stores of a cache, by their paths and by their handles

## Main statements

* `Files.held_openAll` — stores that were opened one after the other
* `Files.openAll_of_standing` — opening stores that stand at their places
* `OpenCache.exists_openAll`, `OpenCache.open_of_openAll` — opening a cache is opening its stores
-/

namespace ClassDeps

namespace Files

variable {journal : JournalMode} {path other : String} {kind kind' : StoreKind} {file file' : OpenFile}
  {requests : List (String × StoreKind)} {files : List OpenFile} {touched : Place → Prop} {t u v : Files}

/-- Opens store files one after the other. -/
def openAll (journal : JournalMode) : List (String × StoreKind) → Files.Op (List OpenFile)
  | [] => return []
  | (path, kind) :: rest => do
    let file ← openKind path kind journal
    return file :: (← openAll journal rest)

theorem openKind_eq_ok_iff : openKind path kind journal t = (.ok file, u) ↔
    t.openStore path kind journal = (.ok file, u) := by
  unfold openKind
  match t.openStore path kind journal with
  | (.ok _, _) => exact ⟨fun h => by cases h; rfl, fun h => by cases h; rfl⟩
  | (.error _, _) => exact iff_of_false nofun nofun

theorem openAll_cons_eq_ok_iff : openAll journal ((path, kind) :: requests) t = (.ok files, u) ↔
    ∃ file rest v, files = file :: rest ∧ t.openStore path kind journal = (.ok file, v) ∧
      openAll journal requests v = (.ok rest, u) := by
  constructor
  · intro h
    obtain ⟨file, v, hfile, h⟩ := exists_of_bind h
    obtain ⟨rest, w, hrest, h⟩ := exists_of_bind h
    cases h
    exact ⟨file, rest, v, rfl, openKind_eq_ok_iff.1 hfile, hrest⟩
  · rintro ⟨file, rest, v, rfl, hfile, hrest⟩
    rw [openAll, bind_apply, openKind_eq_ok_iff.2 hfile]
    simp only
    rw [bind_apply, hrest]
    rfl

/-! ## Stores that are open -/

/-- A store stands at the place of a path, and someone has it open. -/
structure Held (journal : JournalMode) (path : String) (kind : StoreKind) (file : OpenFile) (t : Files) : Prop where
  standing : Standing journal path kind file.id t
  joined : (t.stores.getD file.id default).log.inUse = true → file.user ∈ (t.stores.getD file.id default).log.users
  user : file.user < t.users

/-- There is a way to a path of a store file, which is no other address, and no log is there. -/
structure Accessible (path : String) (t : Files) : Prop where
  way : t.Way path (t.target path)
  address : ∀ address, Address.ofPath? path = some address → address = .file path true
  aside : (t.target path).Aside

theorem Accessible.of_directories (h : Accessible path t) (hworking : u.working = t.working) (hkept : ∀ place,
    t.entryAt? place = some .directory → u.entryAt? place = some .directory) : Accessible path u where
  way := target_of_working hworking path ▸ h.way.of_directories hworking hkept
  address := h.address
  aside := target_of_working hworking path ▸ h.aside

theorem Opened.held (h : Opened journal path kind file t u) : Held journal path kind file u :=
  ⟨h.standing, h.joined, by rw [h.user, h.users]; exact Nat.lt_succ_self _⟩

/-- Opening a store leaves the others as they are. -/
theorem Held.opened (h : Held journal path kind file t) (hopened : Opened journal other kind' file' t u)
    (hne : t.target path ≠ t.target other) (haside : (t.target path).Aside) : Held journal path kind file u := by
  have hid : file.id ≠ file'.id := by
    intro heq
    have hknown := h.standing.known
    have hhome := h.standing.home
    rw [heq] at hknown hhome
    exact hne (Option.some.inj (hhome.symm.trans (hopened.home hknown)))
  have hsame := hopened.others file.id hid
  refine ⟨h.standing.of_alike hopened.working hopened.directory ?_ hopened.length (.of_eq hsame), ?_, ?_⟩
  · exact hopened.store _ hne (fun hmem => not_aside_of_mem_logPlaces hmem haside) _ h.standing.entry
  · rw [hsame]
    exact h.joined
  · rw [hopened.users]
    exact Nat.lt_succ_of_lt h.user

/-- Whoever opens a store is confined to the places of its log. -/
theorem Opened.confined (h : Opened journal path kind file t u)
    (hlogs : ∀ place ∈ logPlaces (some (t.target path)), touched place) {n : Nat} (hconfined : Confined touched n t) :
    Confined touched n u := by
  intro id user huser hle place hplace
  by_cases hid : id = file.id
  · rw [hid, h.standing.home, target_of_working h.working] at hplace
    exact hlogs place hplace
  · rw [h.others id hid] at huser hplace
    exact hconfined id user huser hle place hplace

theorem Sound.openStore (ht : t.Sound) (haccess : Accessible path t)
    (h : t.openStore path kind journal = (.ok file, u)) : u.Sound := by
  have hchanges : Changes (path = ·) (fun _ => False) t (t.openStore path kind journal).2 :=
    changes_openStore rfl haccess.address t kind journal
  rw [h] at hchanges
  exact hchanges.sound ht

theorem Accessible.opened (h : Accessible path t) (ht : t.Sound)
    (hopen : t.openStore path kind journal = (.ok file, u)) : Opened journal path kind file t u :=
  opened_of_openStore ht h.way h.address hopen

/-- What was open before other stores were opened is still open. -/
theorem Held.openAll (h : Held journal path kind file t) (ht : t.Sound) (haside : (t.target path).Aside)
    (haccess : ∀ r ∈ requests, Accessible r.1 t) (hne : ∀ r ∈ requests, t.target path ≠ t.target r.1)
    (hopen : openAll journal requests t = (.ok files, u)) : Held journal path kind file u := by
  induction requests generalizing t files with
  | nil =>
    cases hopen
    exact h
  | cons r requests ih =>
    obtain ⟨file', rest, v, -, hfirst, hrest⟩ := openAll_cons_eq_ok_iff.1 hopen
    rw [List.forall_mem_cons] at haccess hne
    have hopened := haccess.1.opened ht hfirst
    refine ih (h.opened hopened hne.1 haside) (ht.openStore haccess.1 hfirst) ?_ (fun r hr => ?_) (fun r hr => ?_) hrest
    · rwa [target_of_working hopened.working]
    · exact (haccess.2 r hr).of_directories hopened.working hopened.directory
    · rw [target_of_working hopened.working, target_of_working hopened.working]
      exact hne.2 r hr

/-- Stores that were opened one after the other stand at their places, each with a user of its own. -/
theorem held_openAll (ht : t.Sound) (haccess : ∀ r ∈ requests, Accessible r.1 t)
    (hdistinct : (requests.map fun r => t.target r.1).Nodup) (hopen : openAll journal requests t = (.ok files, u)) :
    List.Forall₂ (fun r file => Held journal r.1 r.2 file u ∧ t.users ≤ file.user) requests files ∧
      (∀ touched : Place → Prop, (∀ r ∈ requests, ∀ place ∈ logPlaces (some (t.target r.1)), touched place) →
        ∀ n, Confined touched n t → Confined touched n u) ∧
      u.working = t.working ∧
      ∀ place, t.entryAt? place = some .directory → u.entryAt? place = some .directory := by
  induction requests generalizing t files with
  | nil =>
    cases hopen
    exact ⟨.nil, fun _ _ _ hconfined => hconfined, rfl, fun _ h => h⟩
  | cons r requests ih =>
    obtain ⟨file, rest, v, rfl, hfirst, hrest⟩ := openAll_cons_eq_ok_iff.1 hopen
    rw [List.forall_mem_cons] at haccess
    rw [List.map_cons, List.nodup_cons] at hdistinct
    have hopened := haccess.1.opened ht hfirst
    have hsound := ht.openStore haccess.1 hfirst
    have htarget (path : String) : v.target path = t.target path := target_of_working hopened.working path
    have hrequests : ∀ r ∈ requests, Accessible r.1 v :=
      fun r hr => (haccess.2 r hr).of_directories hopened.working hopened.directory
    obtain ⟨hheld, hconfined, hworking, hkept⟩ := ih hsound hrequests (by simpa only [htarget] using hdistinct.2) hrest
    have husers : t.users ≤ v.users := by
      rw [hopened.users]
      exact Nat.le_succ _
    refine ⟨.cons ⟨?_, Nat.le_of_eq hopened.user.symm⟩ (hheld.imp fun r file h => ⟨h.1, Nat.le_trans husers h.2⟩), ?_,
      hworking.trans hopened.working, fun place h => hkept place (hopened.directory place h)⟩
    · refine hopened.held.openAll hsound ?_ hrequests (fun r' hr' heq => hdistinct.1 ?_) hrest
      · rw [htarget]
        exact haccess.1.aside
      · rw [htarget, htarget] at heq
        exact List.mem_map.2 ⟨r', hr', heq.symm⟩
    · intro touched hlogs n hn
      rw [List.forall_mem_cons] at hlogs
      refine hconfined touched (fun r' hr' => ?_) n (hopened.confined hlogs.1 hn)
      rw [htarget]
      exact hlogs.2 r' hr'

/-- Stores that stand at their places are opened one after the other. -/
theorem openAll_of_standing {ids : List Nat}
    (h : List.Forall₂ (fun r id => Standing journal r.1 r.2 id t) requests ids)
    (hlogs : ∀ r ∈ requests, ∀ place ∈ logPlaces (some (t.target r.1)), touched place)
    (hfree : ∀ r ∈ requests, ¬touched (t.target r.1)) :
    ∃ files u, openAll journal requests t = (.ok files, u) ∧ files.map OpenFile.id = ids ∧ Follows touched t u := by
  induction requests generalizing t ids with
  | nil =>
    cases h
    exact ⟨[], t, rfl, rfl, .refl t⟩
  | cons r requests ih =>
    cases h with
    | cons hfirst hrest =>
      rename_i id ids
      rw [List.forall_mem_cons] at hlogs hfree
      obtain ⟨v, hopen, hfollows⟩ := hfirst.openStore hlogs.1
      have htarget (path : String) : v.target path = t.target path := target_of_working hfollows.working path
      have hstanding : List.Forall₂ (fun r id => Standing journal r.1 r.2 id v) requests ids := by
        refine List.forall₂_iff_get.2 ⟨hrest.length_eq, fun i h₁ h₂ => ?_⟩
        exact (hrest.get h₁ h₂).follows hfollows (hfree.2 _ (List.get_mem requests ⟨i, h₁⟩))
      obtain ⟨files, u, hopens, hids, hrest⟩ := ih hstanding
        (fun r hr => by rw [htarget]; exact hlogs.2 r hr) (fun r hr => by rw [htarget]; exact hfree.2 r hr)
      exact ⟨⟨id, t.users⟩ :: files, u, openAll_cons_eq_ok_iff.2 ⟨_, files, v, rfl, hopen, hopens⟩,
        congrArg (id :: ·) hids, hfollows.trans hrest⟩

end Files

/-! ## The stores of a cache -/

theorem KeyValueStore.open_eq_ok {κ α : Type} {path : String} {capacity : Nat} {journal : JournalMode} {t u : Files}
    {s : OpenStore (KeyValueStore κ α)} (h : KeyValueStore.open path capacity journal t = (.ok s, u)) :
    t.openStore path .keyValue journal = (.ok s.file, u) := by
  obtain ⟨file, v, hfile, h⟩ := Files.exists_of_bind h
  cases h
  exact Files.openKind_eq_ok_iff.1 hfile

theorem KeyValueStore.exists_open {κ α : Type} {path : String} {capacity : Nat} {journal : JournalMode} {t u : Files}
    {file : OpenFile} (h : t.openStore path .keyValue journal = (.ok file, u)) :
    ∃ s : OpenStore (KeyValueStore κ α), s.file = file ∧ KeyValueStore.open path capacity journal t = (.ok s, u) := by
  refine ⟨⟨file, .ofRows path capacity (u.contents file.id).rows⟩, rfl, ?_⟩
  rw [KeyValueStore.open, Files.bind_apply, Files.openKind_eq_ok_iff.2 h]
  rfl

theorem MultiValueStore.open_eq_ok {κ : Type} {path : String} {journal : JournalMode} {t u : Files}
    {s : OpenStore (MultiValueStore κ)} (h : MultiValueStore.open path journal t = (.ok s, u)) :
    t.openStore path .multiValue journal = (.ok s.file, u) := by
  obtain ⟨file, v, hfile, h⟩ := Files.exists_of_bind h
  cases h
  exact Files.openKind_eq_ok_iff.1 hfile

theorem MultiValueStore.exists_open {κ : Type} {path : String} {journal : JournalMode} {t u : Files}
    {file : OpenFile} (h : t.openStore path .multiValue journal = (.ok file, u)) :
    ∃ s : OpenStore (MultiValueStore κ), s.file = file ∧ MultiValueStore.open path journal t = (.ok s, u) := by
  refine ⟨⟨file, ⟨path, (u.contents file.id).links⟩⟩, rfl, ?_⟩
  rw [MultiValueStore.open, Files.bind_apply, Files.openKind_eq_ok_iff.2 h]
  rfl

namespace OpenCache

open Files (openAll openAll_cons_eq_ok_iff)

variable {c : OpenCache} {root : String} {config : Config} {t u : Files}

/-- The files of the stores of a cache and their kinds, in the order in which they are opened. -/
def storeFiles : List (String × StoreKind) :=
  [(classesFile, .keyValue), (remoteFile, .keyValue), (referencersFile, .multiValue), (referencedFile, .multiValue),
    (subclassesFile, .multiValue)]

/-- The stores that a cache opens. -/
def requests (root : String) : List (String × StoreKind) :=
  storeFiles.map fun file => (Path.join root file.1, file.2)

/-- The files that a cache has open. -/
def files (c : OpenCache) : List OpenFile :=
  [c.classes.file, c.remote.file, c.referencers.file, c.referenced.file, c.subclasses.file]

theorem storePaths_eq (root : String) : storePaths root = (requests root).map Prod.fst := rfl

theorem ids_eq (c : OpenCache) : c.ids = c.files.map OpenFile.id := rfl

/-- Opening a cache is making its directory and opening its stores. -/
theorem exists_openAll (h : OpenCache.open root config t = (.ok c, u)) :
    ∃ made, t.createDirectories root = (.ok (), made) ∧
      openAll config.journalMode (requests root) made = (.ok c.files, u) := by
  obtain ⟨-, made, v₁, v₂, v₃, v₄, hroot, hclasses, hremote, hreferencers, hreferenced, hsubclasses⟩ :=
    open_eq_ok_iff.1 h
  refine ⟨made, hroot, ?_⟩
  refine openAll_cons_eq_ok_iff.2 ⟨_, _, v₁, rfl, KeyValueStore.open_eq_ok hclasses, ?_⟩
  refine openAll_cons_eq_ok_iff.2 ⟨_, _, v₂, rfl, KeyValueStore.open_eq_ok hremote, ?_⟩
  refine openAll_cons_eq_ok_iff.2 ⟨_, _, v₃, rfl, MultiValueStore.open_eq_ok hreferencers, ?_⟩
  refine openAll_cons_eq_ok_iff.2 ⟨_, _, v₄, rfl, MultiValueStore.open_eq_ok hreferenced, ?_⟩
  exact openAll_cons_eq_ok_iff.2 ⟨_, _, u, rfl, MultiValueStore.open_eq_ok hsubclasses, rfl⟩

theorem open_of_openAll {made : Files} {files : List OpenFile} (hroot : t.createDirectories root = (.ok (), made))
    (h : openAll config.journalMode (requests root) made = (.ok files, u)) :
    ∃ c, OpenCache.open root config t = (.ok c, u) ∧ c.files = files := by
  obtain ⟨f₁, rest, v₁, rfl, h₁, h⟩ := openAll_cons_eq_ok_iff.1 h
  obtain ⟨f₂, rest, v₂, rfl, h₂, h⟩ := openAll_cons_eq_ok_iff.1 h
  obtain ⟨f₃, rest, v₃, rfl, h₃, h⟩ := openAll_cons_eq_ok_iff.1 h
  obtain ⟨f₄, rest, v₄, rfl, h₄, h⟩ := openAll_cons_eq_ok_iff.1 h
  obtain ⟨f₅, rest, v₅, rfl, h₅, h⟩ := openAll_cons_eq_ok_iff.1 h
  cases h
  obtain ⟨classes, rfl, hclasses⟩ := KeyValueStore.exists_open (κ := SymbolId) (α := ClassRecord) h₁
  obtain ⟨remote, rfl, hremote⟩ := KeyValueStore.exists_open (κ := SymbolId) (α := Bool) h₂
  obtain ⟨referencers, rfl, hreferencers⟩ := MultiValueStore.exists_open (κ := DeclarationKey) h₃
  obtain ⟨referenced, rfl, hreferenced⟩ := MultiValueStore.exists_open (κ := SymbolId) h₄
  obtain ⟨subclasses, rfl, hsubclasses⟩ := MultiValueStore.exists_open (κ := SymbolId) h₅
  refine ⟨⟨root, classes, remote, referencers, referenced, subclasses⟩, ?_, rfl⟩
  exact open_eq_ok_iff.2 ⟨rfl, made, v₁, v₂, v₃, v₄, hroot, hclasses, hremote, hreferencers, hreferenced, hsubclasses⟩

/-! ## Places of the stores -/

/-- What is special about the names of the files of stores. -/
theorem storeFiles_names : ∀ file ∈ storeFiles, Path.IsName file.1 ∧ file.1.utf8ByteSize ≤ Files.nameLimit ∧
    Address.IsPlain file.1 ∧ file.1.toList.getLast? = some 'b' := by
  simp only [storeFiles, List.forall_mem_cons]
  exact ⟨⟨⟨by decide, by decide, by decide⟩, by decide, by decide, by decide⟩,
    ⟨⟨by decide, by decide, by decide⟩, by decide, by decide, by decide⟩,
    ⟨⟨by decide, by decide, by decide⟩, by decide, by decide, by decide⟩,
    ⟨⟨by decide, by decide, by decide⟩, by decide, by decide, by decide⟩,
    ⟨⟨by decide, by decide, by decide⟩, by decide, by decide, by decide⟩, List.forall_mem_nil _⟩

theorem target_file (t : Files) (root : String) {file : String × StoreKind} (h : file ∈ storeFiles) :
    t.target (Path.join root file.1) = t.target root ++ [file.1] :=
  t.target_join root (storeFiles_names file h).1

/-- No store stands at the place of a log. -/
theorem aside_file {file : String × StoreKind} (h : file ∈ storeFiles) (directory : Place) :
    (directory ++ [file.1]).Aside := by
  obtain ⟨-, -, -, hlast⟩ := storeFiles_names file h
  exact Place.aside_concat _ (by simp [hlast]) (by simp [hlast])

theorem nodup_targets (t : Files) (root : String) : ((requests root).map fun r => t.target r.1).Nodup := by
  have hmap : (requests root).map (fun r => t.target r.1) = storeFiles.map fun file => t.target root ++ [file.1] := by
    rw [requests, List.map_map]
    exact List.map_congr_left fun file hfile => target_file t root hfile
  have hnames : (storeFiles.map Prod.fst).Nodup := by decide
  rw [hmap, show storeFiles.map (fun file => t.target root ++ [file.1]) =
    (storeFiles.map Prod.fst).map fun name => t.target root ++ [name] from (List.map_map ..).symm]
  exact hnames.map fun _ _ heq => List.singleton_inj.1 (List.append_cancel_left heq)

/-- The path of a store is used as it is if that of the directory is no URI. -/
theorem address_of_mem (hplain : Address.IsPlain root) {path : String} (hpath : path ∈ storePaths root) :
    ∀ address, Address.ofPath? path = some address → address = .file path true := by
  rw [storePaths_eq, requests, List.map_map] at hpath
  obtain ⟨file, hfile, rfl⟩ := List.mem_map.1 hpath
  obtain ⟨hname, -, hplain', hlast⟩ := storeFiles_names file hfile
  exact fun address haddress => Address.ofPath?_join hplain hplain' hname (by simp [hlast]) haddress

/-- The stores of a cache can be opened if there is a way into its directory, whose path is no URI. -/
theorem accessible_requests (hplain : Address.IsPlain root) (h : Files.Reachable root t) :
    ∀ r ∈ requests root, Files.Accessible r.1 t := by
  intro r hr
  have haddress := address_of_mem hplain (storePaths_eq root ▸ List.mem_map_of_mem hr)
  obtain ⟨file, hfile, rfl⟩ := List.mem_map.1 hr
  obtain ⟨hname, hsize, -, -⟩ := storeFiles_names file hfile
  refine ⟨h.way_join hname hsize, haddress, ?_⟩
  rw [target_file t root hfile]
  exact aside_file hfile _

/-- The places of the logs of a cache. -/
def IsLog (directory place : Place) : Prop :=
  ∃ file ∈ storeFiles, place ∈ Files.logPlaces (some (directory ++ [file.1]))

theorem isLog_of_mem {r : String × StoreKind} (hr : r ∈ requests root) {place : Place}
    (hplace : place ∈ Files.logPlaces (some (t.target r.1))) : IsLog (t.target root) place := by
  obtain ⟨file, hfile, rfl⟩ := List.mem_map.1 hr
  rw [target_file t root hfile] at hplace
  exact ⟨file, hfile, hplace⟩

theorem IsLog.not_aside {directory place : Place} (h : IsLog directory place) : ¬place.Aside := by
  obtain ⟨file, -, hplace⟩ := h
  exact Files.not_aside_of_mem_logPlaces hplace

/-- Logs stand in the directory of their cache. -/
theorem IsLog.dropLast_eq {directory place : Place} (h : IsLog directory place) : place.dropLast = directory := by
  obtain ⟨file, -, hlog⟩ := h
  obtain ⟨ending, -, hplace⟩ := List.mem_filterMap.1 hlog
  obtain rfl : (directory ++ [file.1]).beside ending = place := Option.some.inj hplace
  rw [Place.beside, List.dropLast_concat, List.dropLast_concat]

/-! ## Opening -/

theorem reachable_of_openAll {journal : JournalMode} {made : Files} {files : List OpenFile}
    (hplain : Address.IsPlain root) (hroot : t.createDirectories root = (.ok (), made))
    (h : openAll journal (requests root) made = (.ok files, u)) : Files.Reachable root made := by
  obtain rfl | hdirectory := Files.isDirectory_of_createDirectories hroot
  -- The empty path needs no directory to be made, but its first store stands in the working directory.
  · have haddress := address_of_mem hplain (List.mem_cons_self : Path.join "" classesFile ∈ storePaths "")
    obtain ⟨file, rest, v, -, hfirst, -⟩ := openAll_cons_eq_ok_iff.1 h
    obtain ⟨created, hcreated, hdirectory⟩ := Files.parent_of_openStore haddress hfirst
    have hsame : made.createParent (Path.join "" classesFile) = (.ok (), made) := rfl
    rw [hsame] at hcreated
    cases hcreated
    rw [target_file made "" (List.mem_cons_self : (classesFile, .keyValue) ∈ storeFiles), List.dropLast_concat]
      at hdirectory
    exact .of_working hdirectory
  · exact .of_isDirectory hdirectory

/-- After a cache was opened, its stores stand at their places. -/
theorem held_open (hplain : Address.IsPlain root) (ht : t.Sound) (h : OpenCache.open root config t = (.ok c, u)) :
    List.Forall₂ (fun r file => Files.Held config.journalMode r.1 r.2 file u ∧ t.users ≤ file.user) (requests root)
        c.files ∧
      Files.Confined (IsLog (t.target root)) t.users u ∧ Files.Reachable root u ∧
      (root = "" ∨ u.isDirectory root = true) := by
  obtain ⟨made, hroot, hopen⟩ := exists_openAll h
  have hfurnished : t.Furnished (t.createDirectories root).2 := .createDirectories t root
  rw [hroot] at hfurnished
  have hchanges : Files.Changes (fun _ => False) (fun _ => False) t made := Files.changes_createDirectories hfurnished
  have hreachable := reachable_of_openAll hplain hroot hopen
  obtain ⟨hheld, hconfined, hworking, hkept⟩ := Files.held_openAll (hchanges.sound ht)
    (accessible_requests hplain hreachable) (nodup_targets made root) hopen
  rw [hfurnished.users_eq] at hheld
  refine ⟨hheld, ?_, hreachable.of_directories hworking hkept, ?_⟩
  · rw [← Files.target_of_working hfurnished.working_eq]
    exact hconfined _ (fun r hr place hplace => isLog_of_mem hr hplace) _
      (ht.confined.of_stores hfurnished.stores_eq)
  · exact (Files.isDirectory_of_createDirectories hroot).imp_right (Files.isDirectory_of_directories hworking hkept)

/-- A cache whose stores stand at their places is opened again with the same stores. -/
theorem open_of_standing {ids : List Nat} (hroot : root = "" ∨ t.isDirectory root = true)
    (h : List.Forall₂ (fun r id => Files.Standing config.journalMode r.1 r.2 id t) (requests root) ids)
    (haside : ∀ r ∈ requests root, (t.target r.1).Aside) :
    ∃ c u, OpenCache.open root config t = (.ok c, u) ∧ c.ids = ids ∧ Files.Follows (IsLog (t.target root)) t u := by
  have hmade : t.createDirectories root = (.ok (), t) := by
    obtain rfl | hdirectory := hroot
    · rfl
    · exact Files.createDirectories_of_isDirectory hdirectory
  obtain ⟨files, u, hopen, hids, hfollows⟩ := Files.openAll_of_standing h
    (fun r hr place hplace => isLog_of_mem hr hplace) (fun r hr hlog => hlog.not_aside (haside r hr))
  obtain ⟨c, hopen, hfiles⟩ := open_of_openAll hmade hopen
  exact ⟨c, u, hopen, by rw [ids_eq, hfiles, hids], hfollows⟩

/-! ## Closing -/

/-- Closing a cache is leaving its stores one after the other. -/
theorem close_eq (c : OpenCache) (t : Files) :
    c.close t = c.files.foldl (fun t file => t.leaveStores (· = file.user)) t := by
  simp only [close, OpenStore.close, files, List.foldl_cons, List.foldl_nil]

/-- Closing a cache changes nothing but the files of the logs that it has open. -/
theorem follows_close_of_bounded {touched : Place → Prop} {who : Nat → Prop} (hwho : ∀ file ∈ c.files, who file.user)
    (hbounded : Files.Bounded touched who t) : Files.Follows touched t (c.close t) := by
  rw [close_eq]
  generalize c.files = files at hwho
  induction files generalizing t with
  | nil => exact .refl t
  | cons file files ih =>
    rw [List.forall_mem_cons] at hwho
    have hgone : ∀ user, decide (user = file.user) = true → who user :=
      fun user huser => of_decide_eq_true huser ▸ hwho.1
    obtain ⟨hfollows, hbounded⟩ := hbounded.leaveStores hgone
    exact hfollows.trans (ih hbounded hwho.2)

/-- Closing a cache with late users changes nothing but the files of its logs. -/
theorem follows_close {touched : Place → Prop} {n : Nat} (husers : ∀ file ∈ c.files, n ≤ file.user)
    (hconfined : Files.Confined touched n t) : Files.Follows touched t (c.close t) :=
  follows_close_of_bounded husers hconfined

end OpenCache

end ClassDeps
