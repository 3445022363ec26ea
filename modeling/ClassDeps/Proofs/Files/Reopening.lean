import ClassDeps.Proofs.Files.Followed

/-!
# Opening a store again

A store that was opened stands at the place of its path from then on, and so it is opened again by whoever opens the
path with the same journal after the others have left.

## Main definitions

* `Files.Standing` — a store stands at the place of a path, and can be opened there
* `Files.Opened` — what opening the store at a path leads to

## Main statements

* `of_createStore`, `of_joinStore` — what making a store and what joining one lead to
* `opened_of_openStore` — opening a store that is there or not
* `Standing.openStore` — opening a store again
-/

namespace ClassDeps

theorem Place.beside_ne {ending : String} (h : ending ≠ "") (place : Place) : place.beside ending ≠ place := by
  intro heq
  rw [Place.beside] at heq
  have hlast := congrArg (fun place : Place => place.getLastD "") heq
  simp only [List.getLastD_concat] at hlast
  have hlength := congrArg String.length hlast
  rw [String.length_append] at hlength
  exact h (String.length_eq_zero_iff.1 (by omega))

namespace Files

variable {touched : Place → Prop} {t u v : Files} {path other : String} {kind : StoreKind} {journal : JournalMode}
  {id : Nat} {place : Place} {file : OpenFile}

theorem notMem_logPlaces (place : Place) : place ∉ logPlaces (some place) := by
  intro h
  obtain ⟨ending, hending, h⟩ := List.mem_filterMap.1 h
  have hne : ending ≠ "" := by
    rintro rfl
    exact absurd hending (by decide)
  exact Place.beside_ne hne place (Option.some.inj h)

/-- A directory for a store that is there is not made. -/
theorem createParent_of_directory
    (h : ∀ parent, Path.parent? path = some parent → parent = "" ∨ t.isDirectory parent = true) :
    t.createParent path = (.ok (), t) := by
  unfold createParent
  split
  · rfl
  · rename_i parent hparent
    obtain rfl | hdirectory := h parent hparent
    · rfl
    · rw [createDirectories_of_isDirectory hdirectory]
      rfl

/-- A directory that was made for a store is there. -/
theorem parent_of_createParent (h : t.createParent path = (.ok (), u)) :
    ∀ parent, Path.parent? path = some parent → parent = "" ∨ u.isDirectory parent = true := by
  intro parent hparent
  simp only [createParent, hparent] at h
  match hmade : t.createDirectories parent with
  | (.ok (), made) =>
    rw [hmade] at h
    cases h
    exact isDirectory_of_createDirectories hmade
  | (.error fault, made) =>
    rw [hmade] at h
    cases h

/-- A store stands at the place of a path: who opens the path with a journal opens the store. -/
structure Standing (journal : JournalMode) (path : String) (kind : StoreKind) (id : Nat) (t : Files) : Prop where
  address : Address.ofPath? path = some (.file path true)
  parent : ∀ parent, Path.parent? path = some parent → parent = "" ∨ t.isDirectory parent = true
  way : t.Way path (t.target path)
  place : t.storePlace? path = some (t.target path)
  entry : t.entryAt? (t.target path) = some (.store id)
  known : id < t.stores.length
  home : (t.stores.getD id default).place = some (t.target path)
  check : (t.stores.getD id default).check path kind = .ok ()
  inUse : (t.stores.getD id default).log.inUse = decide (journal = .wal)

namespace Standing

/-- The way to a place and the place itself stay for as long as directories do. -/
theorem of_directories (haddress : Address.ofPath? path = some (.file path true))
    (hparent : ∀ parent, Path.parent? path = some parent → parent = "" ∨ t.isDirectory parent = true)
    (hway : t.Way path (t.target path)) (hplace : t.storePlace? path = some (t.target path))
    (hworking : u.working = t.working)
    (hkept : ∀ place, t.entryAt? place = some .directory → u.entryAt? place = some .directory)
    (hentry : u.entryAt? (t.target path) = some (.store id)) (hknown : id < u.stores.length)
    (hhome : (u.stores.getD id default).place = some (t.target path))
    (hcheck : (u.stores.getD id default).check path kind = .ok ())
    (hinUse : (u.stores.getD id default).log.inUse = decide (journal = .wal)) :
    Standing journal path kind id u := by
  have htarget : u.target path = t.target path := target_of_working hworking path
  exact {
    address := haddress
    parent := fun parent h => (hparent parent h).imp_right (isDirectory_of_directories hworking hkept)
    way := htarget ▸ hway.of_directories hworking hkept
    place := htarget ▸ hway.storePlace?_eq hplace hworking hkept (by simp [hentry])
    entry := htarget ▸ hentry
    known := hknown
    home := htarget ▸ hhome
    check := hcheck
    inUse := hinUse }

/-- A store stands where it does for as long as its entry is there. -/
theorem of_alike (h : Standing journal path kind id t) (hworking : u.working = t.working)
    (hkept : ∀ place, t.entryAt? place = some .directory → u.entryAt? place = some .directory)
    (hentry : u.entryAt? (t.target path) = some (.store id)) (hlength : t.stores.length ≤ u.stores.length)
    (halike : (t.stores.getD id default).Alike (u.stores.getD id default)) : Standing journal path kind id u :=
  .of_directories h.address h.parent h.way h.place hworking hkept hentry (Nat.lt_of_lt_of_le h.known hlength)
    (halike.place.trans h.home) ((halike.check_eq path kind).trans h.check) (halike.inUse.trans h.inUse)

theorem follows (h : Standing journal path kind id t) (hfollows : Follows touched t u)
    (hfree : ¬touched (t.target path)) : Standing journal path kind id u :=
  h.of_alike hfollows.working hfollows.directory ((hfollows.entry _ hfree).trans h.entry)
    (Nat.le_of_eq hfollows.length.symm) (hfollows.alike id)

theorem storeAt?_eq (h : Standing journal path kind id t) : t.storeAt? path = some id := by
  rw [storeAt?, h.address]
  simp only [Option.bind_eq_bind, Option.bind_some, h.place, h.entry]
  rfl

/-- Who opens the path of a store that stands opens the store. -/
theorem openStore (h : Standing journal path kind id t)
    (hlogs : ∀ place ∈ logPlaces (some (t.target path)), touched place) :
    ∃ u, t.openStore path kind journal = (.ok ⟨id, t.users⟩, u) ∧ Follows touched t u := by
  obtain ⟨log, hlog, hinUse⟩ : ∃ log, t.chosenLog (t.target path) id journal = .ok log ∧
      log.inUse = (t.stores.getD id default).log.inUse := by
    rw [chosenLog_eq, h.inUse]
    cases journal with
    | wal => exact ⟨_, rfl, rfl⟩
    | delete | memory =>
      have hunused : ¬((t.stores.getD id default).log.inUse && (t.stores.getD id default).log.users ≠ []) = true := by
        rw [h.inUse]
        exact Bool.false_ne_true
      refine ⟨.unused, ?_, rfl⟩
      simp only [Log.choose?, if_neg hunused]
      rfl
  refine ⟨{ t.modifyLog id fun _ => log with users := t.users + 1 }, ?_, ?_⟩
  · rw [Files.openStore, createParent_of_directory h.parent]
    simp only [h.address, h.place, h.entry]
    rw [joinStore, hlog]
    simp only [h.check]
  · have hmodify : Follows touched t (t.modifyLog id fun _ => log) := by
      refine .modifyLog hinUse fun _ => ?_
      rw [h.home]
      exact hlogs
    exact ⟨⟨hmodify.working, hmodify.directory, hmodify.entry⟩, hmodify.length, hmodify.alike⟩

end Standing

/-! ## Opening a store for the first time -/

/-- What opening the store at a path leads to: the store stands there, whoever opened it is its user, and other stores
are as they were. -/
structure Opened (journal : JournalMode) (path : String) (kind : StoreKind) (file : OpenFile) (t u : Files) : Prop where
  working : u.working = t.working
  directory : ∀ place, t.entryAt? place = some .directory → u.entryAt? place = some .directory
  store : ∀ place, place ≠ t.target path → place ∉ logPlaces (some (t.target path)) → ∀ id,
    t.entryAt? place = some (.store id) → u.entryAt? place = some (.store id)
  length : t.stores.length ≤ u.stores.length
  users : u.users = t.users + 1
  others : ∀ id, id ≠ file.id → u.stores.getD id default = t.stores.getD id default
  home : file.id < t.stores.length → (t.stores.getD file.id default).place = some (t.target path)
  standing : Standing journal path kind file.id u
  joined : (u.stores.getD file.id default).log.inUse = true → file.user ∈ (u.stores.getD file.id default).log.users
  user : file.user = t.users

theorem entryAt?_modifyLog {change : Log → Log} (h : place ∉ logPlaces (t.stores.getD id default).place) :
    (t.modifyLog id change).entryAt? place = t.entryAt? place := by
  have hagree : Agree (· ∈ logPlaces (t.stores.getD id default).place) t (t.modifyLog id change) :=
    .modifyLog fun _ _ hplace => hplace
  exact hagree.entry place h

theorem directory_modifyLog {change : Log → Log} (h : t.entryAt? place = some .directory) :
    (t.modifyLog id change).entryAt? place = some .directory := by
  have hagree : Agree (fun _ => True) t (t.modifyLog id change) := .modifyLog fun _ _ _ => trivial
  exact hagree.directory place h

theorem working_modifyLog (t : Files) (id : Nat) (change : Log → Log) : (t.modifyLog id change).working = t.working := by
  have hagree : Agree (fun _ => True) t (t.modifyLog id change) := .modifyLog fun _ _ _ => trivial
  exact hagree.working

/-- Whoever opens a store has its log open, if the file asks for one. -/
theorem inUse_chosenLog {log : Log} (h : t.chosenLog place id journal = .ok log) :
    log.inUse = decide (journal = .wal) ∧ (log.inUse = true → t.users ∈ log.users) := by
  rw [chosenLog_eq] at h
  split at h
  · cases h
  · split at h
    · cases h
    · rename_i found hchoose
      cases h
      unfold Log.choose? at hchoose
      cases journal with
      | wal =>
        cases hchoose
        exact ⟨rfl, fun _ => List.mem_cons_self⟩
      | delete | memory =>
        simp only at hchoose
        split at hchoose
        · cases hchoose
        · cases hchoose
          exact ⟨rfl, nofun⟩

theorem users_modifyLog (t : Files) (id : Nat) (change : Log → Log) : (t.modifyLog id change).users = t.users := by
  have hsame : t.modifyLog id change = { t.modifyLog id change with users := t.users } :=
    modifyLog_users t id change t.users
  have husers := congrArg Files.users hsame
  exact husers

/-- A tree with one more store, whose entry is at some place, and with a log. -/
theorem of_createStore (hdirectory : t.entryAt? place ≠ some .directory)
    (h : t.createStore place kind journal = (.ok file, u)) :
    file = ⟨t.stores.length, t.users⟩ ∧ u.working = t.working ∧
      (∀ place, t.entryAt? place = some .directory → u.entryAt? place = some .directory) ∧
      (∀ other ∉ logPlaces (some place), u.entryAt? other =
        if other = place then some (.store t.stores.length) else t.entryAt? other) ∧
      u.stores.length = t.stores.length + 1 ∧ u.users = t.users + 1 ∧
      ∀ id, u.stores.getD id default = if id = t.stores.length then
        ⟨supportedSchema, .empty kind, .start journal t.users, some place⟩ else t.stores.getD id default := by
  unfold createStore at h
  split at h
  · obtain ⟨added, hadded⟩ : ∃ added, added = (t.addStore (some place) kind).2.setEntry place
        (.store t.stores.length) := ⟨_, rfl⟩
    obtain ⟨made, hmade⟩ : ∃ made, made = added.removeLogFile (place.beside logEnding) := ⟨_, rfl⟩
    have hu : u = made.modifyLog t.stores.length fun _ => .start journal t.users := by
      rw [hmade, hadded]
      exact (congrArg Prod.snd h).symm
    have hset (other : Place) : added.entryAt? other =
        if other = place then some (.store t.stores.length) else t.entryAt? other := by
      rw [hadded, entryAt?_setEntry (t := (t.addStore (some place) kind).2) hdirectory]
      rfl
    have hremoved : Agree (· ∈ logPlaces (some place)) added made :=
      hmade ▸ .removeLogFile List.mem_cons_self added
    have hstores : made.stores = (t.addStore (some place) kind).2.stores := by
      rw [hmade, stores_removeLogFile, hadded]
      rfl
    have hlength : made.stores.length = t.stores.length + 1 := by
      rw [hstores]
      exact List.length_append
    have hfile (id : Nat) : made.stores.getD id default = if id = t.stores.length then
        ⟨supportedSchema, .empty kind, .unused, some place⟩ else t.stores.getD id default := by
      rw [hstores, getD_addStore]
    subst hu
    refine ⟨(Except.ok.inj (congrArg Prod.fst h)).symm, ?_, fun other hother => ?_, fun other hother => ?_, ?_, ?_,
      fun id => ?_⟩
    · rw [working_modifyLog, hremoved.working, hadded]
      rfl
    · refine directory_modifyLog (hremoved.directory other ?_)
      rw [hset, if_neg]
      · exact hother
      · rintro rfl
        exact hdirectory hother
    · rw [entryAt?_modifyLog, hremoved.entry other hother, hset]
      rwa [hfile, if_pos rfl]
    · rw [length_modifyLog, hlength]
    · rw [users_modifyLog, hmade, hadded]
      unfold removeLogFile
      split <;> rfl
    · rw [stores_modifyLog, getD_setLog, hfile, hfile, if_pos rfl, hlength]
      by_cases hid : id = t.stores.length
      · rw [if_pos ⟨hid, Nat.lt_succ_self _⟩, if_pos hid]
      · rw [if_neg (fun h => hid h.1), if_neg hid, if_neg hid]
  · cases h

/-- A tree whose store at some place has a new user, and a log. -/
theorem of_joinStore (hknown : id < t.stores.length) (hhome : (t.stores.getD id default).place = some place)
    (h : t.joinStore path place id kind journal = (.ok file, u)) :
    file = ⟨id, t.users⟩ ∧ (t.stores.getD id default).check path kind = .ok () ∧ u.working = t.working ∧
      (∀ place, t.entryAt? place = some .directory → u.entryAt? place = some .directory) ∧
      (∀ other ∉ logPlaces (some place), u.entryAt? other = t.entryAt? other) ∧
      u.stores.length = t.stores.length ∧ u.users = t.users + 1 ∧
      ∃ log, t.chosenLog place id journal = .ok log ∧ ∀ other, u.stores.getD other default =
        if other = id then { t.stores.getD id default with log } else t.stores.getD other default := by
  cases join_joinStore h with
  | @joined log hlog hcheck =>
    refine ⟨rfl, hcheck, t.working_modifyLog id _, fun _ => directory_modifyLog, fun other hother => ?_,
      t.length_modifyLog id _, rfl, log, hlog, fun other => ?_⟩
    · have hstays : (t.modifyLog id fun _ => log).entryAt? other = t.entryAt? other :=
        entryAt?_modifyLog (hhome ▸ hother)
      exact hstays
    · change (t.modifyLog id fun _ => log).stores.getD other default = _
      rw [stores_modifyLog, getD_setLog]
      simp only [hknown, and_true]

section Opening

variable (haddress : Address.ofPath? path = some (.file path true))
  (hparent : ∀ parent, Path.parent? path = some parent → parent = "" ∨ t.isDirectory parent = true)
  (hway : t.Way path (t.target path)) (hplace : t.storePlace? path = some (t.target path))

include haddress hparent hway hplace

/-- Opening a store that is there. -/
theorem opened_of_joinStore (ht : t.Sound) (hentry : t.entryAt? (t.target path) = some (.store id))
    (h : t.joinStore path (t.target path) id kind journal = (.ok file, u)) : Opened journal path kind file t u := by
  obtain ⟨hknown, hhome⟩ := ht.entry _ _ hentry
  obtain ⟨rfl, hcheck, hworking, hkept, hentries, hlength, husers, log, hlog, hfile⟩ := of_joinStore hknown hhome h
  obtain ⟨hinUse, hjoined⟩ := inUse_chosenLog hlog
  have hsame : u.stores.getD id default = { t.stores.getD id default with log } := by rw [hfile, if_pos rfl]
  exact {
    working := hworking
    directory := hkept
    store := fun place _ hlogs id hstore => (hentries place hlogs).trans hstore
    length := Nat.le_of_eq hlength.symm
    users := husers
    others := fun other hother => by rw [hfile, if_neg hother]
    home := fun _ => hhome
    standing := .of_directories haddress hparent hway hplace hworking hkept
      ((hentries _ (notMem_logPlaces _)).trans hentry) (by rwa [hlength]) (by rw [hsame]; exact hhome)
      (by rw [hsame]; exact hcheck) (by rw [hsame]; exact hinUse)
    joined := fun hused => by
      rw [hsame] at hused ⊢
      exact hjoined hused
    user := rfl }

/-- Opening a store where there was none. -/
theorem opened_of_createStore (h : t.createStore (t.target path) kind journal = (.ok file, u)) :
    Opened journal path kind file t u := by
  obtain ⟨rfl, hworking, hkept, hentries, hlength, husers, hfile⟩ :=
    of_createStore (not_directory_of_storePlace? hplace) h
  have hstart : (Log.start journal t.users).inUse = decide (journal = .wal) ∧
      ((Log.start journal t.users).inUse = true → t.users ∈ (Log.start journal t.users).users) := by
    cases journal with
    | wal => exact ⟨rfl, fun _ => List.mem_cons_self⟩
    | delete | memory => exact ⟨rfl, nofun⟩
  have hnew : u.stores.getD t.stores.length default =
      ⟨supportedSchema, .empty kind, .start journal t.users, some (t.target path)⟩ := by
    rw [hfile, if_pos rfl]
  have hcheck : (u.stores.getD t.stores.length default).check path kind = .ok () := by
    rw [hnew]
    cases kind <;> rfl
  exact {
    working := hworking
    directory := hkept
    store := fun place hplace hlogs id hstore => by rw [hentries place hlogs, if_neg hplace, hstore]
    length := by rw [hlength]; exact Nat.le_succ _
    users := husers
    others := fun other hother => by rw [hfile, if_neg hother]
    home := fun hlt => absurd hlt (Nat.lt_irrefl _)
    standing := .of_directories haddress hparent hway hplace hworking hkept
      ((hentries _ (notMem_logPlaces _)).trans (if_pos rfl)) (by rw [hlength]; exact Nat.lt_succ_self _)
      (by rw [hnew]) hcheck (by rw [hnew]; exact hstart.1)
    joined := fun hused => by
      rw [hnew] at hused ⊢
      exact hstart.2 hused
    user := rfl }

end Opening

namespace Furnished

theorem users_eq (h : t.Furnished u) : u.users = t.users := by
  induction h with
  | refl => rfl
  | make _ _ ih => exact ih

theorem working_eq (h : t.Furnished u) : u.working = t.working := by
  induction h with
  | refl => rfl
  | make _ _ ih => exact ih

/-- What stands somewhere stays there. -/
theorem entry (h : t.Furnished u) {entry : Entry} (hentry : t.entryAt? place = some entry) :
    u.entryAt? place = some entry := by
  induction h with
  | refl => exact hentry
  | @make v made _ hfree ih =>
    rw [entryAt?_setEntry (by simp [hfree]), if_neg]
    · exact ih
    · rintro rfl
      rw [ih] at hfree
      cases hfree

/-- Directories are made before a store is opened. -/
theorem opened (h : t.Furnished v) (hopened : Opened journal path kind file v u) :
    Opened journal path kind file t u where
  working := hopened.working.trans h.working_eq
  directory place hplace := hopened.directory place (h.entry hplace)
  store place hplace hlogs id hstore := by
    rw [← target_of_working h.working_eq] at hplace hlogs
    exact hopened.store place hplace hlogs id (h.entry hstore)
  length := Nat.le_trans (Nat.le_of_eq (congrArg List.length h.stores_eq.symm)) hopened.length
  users := by rw [hopened.users, h.users_eq]
  others id hid := by rw [hopened.others id hid, h.stores_eq]
  home hid := by
    rw [← h.stores_eq] at hid ⊢
    rw [← target_of_working h.working_eq]
    exact hopened.home hid
  standing := hopened.standing
  joined := hopened.joined
  user := hopened.user.trans h.users_eq

end Furnished

/-- A store is opened in a directory that is there by then. -/
theorem parent_of_openStore (haddress : ∀ address, Address.ofPath? path = some address → address = .file path true)
    (h : t.openStore path kind journal = (.ok file, u)) :
    ∃ created, t.createParent path = (.ok (), created) ∧
      created.entryAt? (created.target path).dropLast = some .directory := by
  obtain ⟨created, -, hattempt, hcreate⟩ := attempt_openStore h
  refine ⟨created, hcreate file rfl, ?_⟩
  cases hattempt with
  | nowhere hnowhere => cases haddress _ hnowhere
  | joins hfile hplace | creates hfile hplace =>
    cases haddress _ hfile
    exact directory_of_storePlace? hplace

/-- A store that was opened stands at the place of its path. -/
theorem opened_of_openStore (ht : t.Sound) (hway : t.Way path (t.target path))
    (haddress : ∀ address, Address.ofPath? path = some address → address = .file path true)
    (h : t.openStore path kind journal = (.ok file, u)) : Opened journal path kind file t u := by
  obtain ⟨created, hfurnished, hattempt, hcreate⟩ := attempt_openStore h
  have hworking := hfurnished.working_eq
  have htarget : created.target path = t.target path := target_of_working hworking path
  have hparent := parent_of_createParent (hcreate file rfl)
  have hway : created.Way path (created.target path) :=
    htarget ▸ hway.of_directories hworking fun _ => hfurnished.entry
  have hchanges : Changes (fun _ => False) (fun _ => False) t created := changes_createDirectories hfurnished
  refine hfurnished.opened ?_
  cases hattempt with
  | nowhere hnowhere => cases haddress _ hnowhere
  | joins hfile hplace hentry hjoin =>
    cases haddress _ hfile
    exact opened_of_joinStore hfile hparent hway hplace (hchanges.sound ht) hentry hjoin
  | creates hfile hplace _ hcreate =>
    cases haddress _ hfile
    exact opened_of_createStore hfile hparent hway hplace hcreate

end Files

end ClassDeps
