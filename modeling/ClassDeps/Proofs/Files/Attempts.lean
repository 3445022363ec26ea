import ClassDeps.Proofs.Files.Ways

/-!
# Attempts to open a store

Whatever becomes of opening a store file, the stores that stand somewhere stay there, the files of logs come and go
beside the one store only, and whoever could not open it has no log open.

## Main definitions

* `Files.Remains` — stores stay where they are, but for some places

## Main statements

* `Files.storePlace?_of_parent` — the place of a store file lasts for as long as its directory does
* `Files.Attempt.remains`, `Files.Attempt.users` — what an attempt leaves as it was
-/

namespace ClassDeps.Files

variable {touched : Place → Prop} {t u v : Files} {path filePath : String} {kind : StoreKind} {journal : JournalMode}
  {id : Nat} {place : Place} {result : Except StorageFault OpenFile}

/-! ## Places that last -/

/-- Names that lead nowhere else do not matter to the place of a store file. -/
theorem foldlM_storeStep_filter (names : List String) (start : Place) :
    names.foldlM t.storeStep start = (names.filter fun name => !Path.isIdle name).foldlM t.storeStep start := by
  induction names generalizing start with
  | nil => rfl
  | cons name names ih =>
    by_cases hidle : Path.isIdle name = true
    · rw [List.filter_cons_of_neg (by simp [hidle]), List.foldlM_cons, storeStep, if_pos hidle]
      exact ih start
    · rw [List.filter_cons_of_pos (by simp [hidle]), List.foldlM_cons, List.foldlM_cons]
      exact congrArg _ (funext ih)

/-- One name leads to the place of a store file for as long as the directory is there that the file stands in. -/
theorem foldlM_storeStep_of_isLone {names : List String} {start : Place} (hlone : Path.IsLone names)
    (hdirectory : t.entryAt? place.dropLast = some .directory)
    (hdirectory' : u.entryAt? place.dropLast = some .directory)
    (h : names.foldlM t.storeStep start = some place) : names.foldlM u.storeStep start = some place := by
  rw [foldlM_storeStep_filter] at h ⊢
  rw [Path.IsLone] at hlone
  rcases hnames : names.filter fun name => !Path.isIdle name with _ | ⟨name, _ | ⟨next, rest⟩⟩
  · rw [hnames] at h
    exact h
  · rw [hnames] at h
    have hproper : Path.isIdle name = false := by
      have hmem : name ∈ names.filter fun name => !Path.isIdle name := hnames ▸ List.mem_cons_self
      simpa using (List.mem_filter.1 hmem).2
    rw [List.foldlM_cons] at h ⊢
    suffices hsame : u.storeStep start name = t.storeStep start name by
      rw [hsame]
      exact h
    by_cases hparent : name = ".."
    · rw [storeStep, storeStep, if_pos hparent, if_pos hparent]
    · -- The name is added to the place where it is looked up.
      obtain ⟨next, hstep, hnext⟩ := Option.bind_eq_some_iff.1 h
      obtain rfl : next = place := Option.some.inj hnext
      have hplace := storeStep_eq_some hstep
      rw [Place.enter, hproper, if_neg Bool.false_ne_true, if_neg hparent] at hplace
      rw [hplace, List.dropLast_concat] at hdirectory hdirectory'
      rw [storeStep, storeStep, step_eq_of_directory hdirectory hdirectory']
  · rw [hnames, List.length_cons, List.length_cons] at hlone
    omega

/-- The place of a store file lasts for as long as its directory does, if no directory comes in its stead. -/
theorem storePlace?_of_parent
    (hparent : ∀ parent, Path.parent? path = some parent → parent = "" ∨ t.isDirectory parent = true)
    (h : t.storePlace? path = some place) (hworking : u.working = t.working)
    (hkept : ∀ place, t.entryAt? place = some .directory → u.entryAt? place = some .directory)
    (hfree : u.entryAt? place ≠ some .directory) : u.storePlace? path = some place := by
  obtain ⟨hlast, hsize, hdirectory, -⟩ := storePlace?_eq_some_iff.1 h
  have hstart : u.start path = t.start path := by rw [start, start, hworking]
  refine storePlace?_eq_some_iff.2 ⟨?_, hsize, hkept _ hdirectory, hfree⟩
  rw [hstart]
  obtain hlone | ⟨parent, rest, habove, hne, rfl, hlone⟩ := Path.isLone_or_parent? path
  · exact foldlM_storeStep_of_isLone hlone hdirectory (hkept _ hdirectory) hlast
  · obtain ⟨above, hlocate, -⟩ := isDirectory_iff.1 ((hparent parent habove).resolve_left hne)
    have hway : (Path.steps parent).foldlM t.step (t.start (parent ++ "/" ++ rest)) = .ok above := by
      rw [start, String.append_assoc, Path.isAbsolute_append hne]
      exact (locate_eq_ok_iff.1 hlocate).2
    rw [Path.steps_append_slash, List.foldlM_append, Option.bind_eq_bind, Option.bind_eq_some_iff] at hlast ⊢
    obtain ⟨next, hnext, hlast⟩ := hlast
    exact ⟨next, foldlM_storeStep_of_way hkept hway hnext,
      foldlM_storeStep_of_isLone hlone hdirectory (hkept _ hdirectory) hlast⟩

/-! ## Users that are gone -/

/-- Who is in no store of the tree is in no log. -/
theorem users_of_length_le (h : t.stores.length ≤ id) : (t.stores.getD id default).log.users = [] := by
  rw [List.getD_eq_getElem?_getD, List.getElem?_eq_none h]
  rfl

theorem users_leave (t : Files) (other : Nat) (gone : Nat → Bool) (id : Nat) :
    ((t.modifyLog other (.leave gone)).stores.getD id default).log.users =
      if id = other then (t.stores.getD id default).log.users.filter fun user => !gone user
      else (t.stores.getD id default).log.users := by
  rw [stores_modifyLog, getD_setLog]
  by_cases hid : id = other
  · subst hid
    by_cases hknown : id < t.stores.length
    · rw [if_pos ⟨rfl, hknown⟩, if_pos rfl]
      rfl
    · rw [if_neg fun h => hknown h.2, if_pos rfl, users_of_length_le (Nat.le_of_not_lt hknown), List.filter_nil]
  · rw [if_neg fun h => hid h.1, if_neg hid]

/-- The users of a log that are left are those who are not gone. -/
theorem users_leaveStores (t : Files) (gone : Nat → Bool) (id : Nat) :
    ((t.leaveStores gone).stores.getD id default).log.users =
      (t.stores.getD id default).log.users.filter fun user => !gone user := by
  have hall (ids : List Nat) (t : Files) :
      ((ids.foldl (fun t id => t.modifyLog id (.leave gone)) t).stores.getD id default).log.users =
        if id ∈ ids then (t.stores.getD id default).log.users.filter fun user => !gone user
        else (t.stores.getD id default).log.users := by
    induction ids generalizing t with
    | nil => rfl
    | cons other ids ih =>
      rw [List.foldl_cons, ih, users_leave]
      by_cases hother : id = other
      · simp [hother, List.filter_filter]
      · simp [hother]
  rw [leaveStores, hall]
  split
  · rfl
  · rename_i hnew
    rw [List.mem_range, Nat.not_lt] at hnew
    rw [users_of_length_le hnew, List.filter_nil]

/-- Where no store can be made there is an empty file afterwards. -/
theorem of_createStore_error {fault : StorageFault} (h : t.createStore place kind journal = (.error fault, u)) :
    u = t ∨ t.entryAt? place = none ∧ u = t.setEntry place (.file []) := by
  unfold createStore at h
  split at h
  · cases h
  · cases h
    split
    · exact .inl rfl
    · rename_i hnone
      exact .inr ⟨Option.not_isSome_iff_eq_none.1 hnone, rfl⟩

/-! ## What remains -/

/-- Only what a store holds is changed by a commit. -/
theorem file_setContents (t : Files) (id : Nat) (contents : StoreContents) (other : Nat) :
    ((t.setContents id contents).stores.getD other default).schema = (t.stores.getD other default).schema ∧
      ((t.setContents id contents).stores.getD other default).place = (t.stores.getD other default).place ∧
      ((t.setContents id contents).stores.getD other default).log = (t.stores.getD other default).log := by
  rw [getD_setContents]
  split
  · rename_i hother
    rw [hother.1]
    exact ⟨rfl, rfl, rfl⟩
  · exact ⟨rfl, rfl, rfl⟩

/-- A store that comes in the stead of others has its log at some of the places, if it is used. -/
theorem Bounded.replaced {who : Nat → Prop} {new : Nat → Prop} [DecidablePred new] {store : StoreFile}
    (h : Bounded touched who t)
    (hfile : ∀ id, u.stores.getD id default = if new id then store else t.stores.getD id default)
    (hlogs : ∀ user ∈ store.log.users, ∀ place ∈ logPlaces store.place, touched place) : Bounded touched who u := by
  intro id user huser hwho place hplace
  rw [hfile] at huser hplace
  split at huser
  · rename_i hnew
    rw [if_pos hnew] at hplace
    exact hlogs user huser place hplace
  · rename_i hold
    rw [if_neg hold] at hplace
    exact h id user huser hwho place hplace

/-- A tree after stores were opened, whatever became of it: stores stay where they are, but for some places, and where
the files of logs are does not change. -/
structure Remains (touched : Place → Prop) (t u : Files) : Prop where
  working : u.working = t.working
  directory : ∀ place, t.entryAt? place = some .directory → u.entryAt? place = some .directory
  store : ∀ place, ¬touched place → ∀ id, t.entryAt? place = some (.store id) → u.entryAt? place = some (.store id)
  length : t.stores.length ≤ u.stores.length
  schema : ∀ id < t.stores.length, (u.stores.getD id default).schema = (t.stores.getD id default).schema
  bounded : ∀ who, Bounded touched who t → Bounded touched who u

namespace Remains

theorem refl (t : Files) : Remains touched t t :=
  ⟨rfl, fun _ h => h, fun _ _ _ h => h, Nat.le_refl _, fun _ _ => rfl, fun _ h => h⟩

theorem trans (h : Remains touched t u) (h' : Remains touched u v) : Remains touched t v where
  working := h'.working.trans h.working
  directory place hplace := h'.directory place (h.directory place hplace)
  store place hfree id hstore := h'.store place hfree id (h.store place hfree id hstore)
  length := Nat.le_trans h.length h'.length
  schema id hid := (h'.schema id (Nat.lt_of_lt_of_le hid h.length)).trans (h.schema id hid)
  bounded who hwho := h'.bounded who (h.bounded who hwho)

theorem of_furnished (h : t.Furnished u) : Remains touched t u where
  working := h.working_eq
  directory _ := h.entry
  store _ _ _ := h.entry
  length := Nat.le_of_eq (congrArg List.length h.stores_eq.symm)
  schema _ _ := by rw [h.stores_eq]
  bounded who hwho := by
    rw [Bounded, h.stores_eq]
    exact hwho

theorem modifyLog (id : Nat) (change : Log → Log)
    (h : ∀ place ∈ logPlaces (t.stores.getD id default).place, touched place) :
    Remains touched t (t.modifyLog id change) := by
  have hagree : Agree touched t (t.modifyLog id change) := .modifyLog fun _ => h
  have hfile (other : Nat) : (t.modifyLog id change).stores.getD other default =
      if other = id ∧ id < t.stores.length then
        { t.stores.getD id default with log := change (t.stores.getD id default).log }
      else t.stores.getD other default := by
    rw [stores_modifyLog, getD_setLog]
  exact {
    working := hagree.working
    directory := hagree.directory
    store := fun place hfree _ hstore => (hagree.entry place hfree).trans hstore
    length := Nat.le_of_eq (t.length_modifyLog id change).symm
    schema := fun other _ => by
      rw [hfile]
      split
      · rename_i hother
        rw [hother.1]
      · rfl
    bounded := fun _ hwho => hwho.replaced hfile fun _ _ => h }

theorem setContents (t : Files) (id : Nat) (contents : StoreContents) :
    Remains touched t (t.setContents id contents) where
  working := rfl
  directory _ h := h
  store _ _ _ h := h
  length := Nat.le_of_eq (t.length_setContents id contents).symm
  schema other _ := (file_setContents t id contents other).1
  bounded who hwho other user huser hw place hplace := by
    obtain ⟨-, hsame, hlog⟩ := file_setContents t id contents other
    rw [hlog] at huser
    rw [hsame] at hplace
    exact hwho other user huser hw place hplace

/-- When users leave whose logs are at the places, nothing else changes. -/
theorem leaveStores {who : Nat → Prop} (h : Bounded touched who t) {gone : Nat → Bool}
    (hgone : ∀ user, gone user = true → who user) : Remains touched t (t.leaveStores gone) := by
  have hfollows := (h.leaveStores hgone).1
  exact {
    working := hfollows.working
    directory := hfollows.directory
    store := fun place hfree _ hstore => (hfollows.entry place hfree).trans hstore
    length := Nat.le_of_eq hfollows.length.symm
    schema := fun id _ => (hfollows.alike id).schema
    bounded := fun who' hwho id user huser hw place hplace => by
      rw [users_leaveStores] at huser
      rw [(hfollows.alike id).place] at hplace
      exact hwho id user (List.mem_filter.1 huser).1 hw place hplace }

/-- Where there is no store one is made, or else an empty file. -/
theorem createStore (hdirectory : t.entryAt? place ≠ some .directory)
    (hstore : ∀ id, t.entryAt? place ≠ some (.store id)) (hlogs : ∀ other ∈ logPlaces (some place), touched other)
    (h : t.createStore place kind journal = (result, u)) : Remains touched t u := by
  match result with
  | .ok file =>
    obtain ⟨-, hworking, hkept, hentries, hlength, -, hfile⟩ := of_createStore hdirectory h
    exact {
      working := hworking
      directory := hkept
      store := fun other hfree id hother => by
        rw [hentries other fun hlog => hfree (hlogs other hlog), if_neg, hother]
        rintro rfl
        exact hstore id hother
      length := by rw [hlength]; exact Nat.le_succ _
      schema := fun id hid => by rw [hfile, if_neg (Nat.ne_of_lt hid)]
      bounded := fun _ hwho => hwho.replaced hfile fun _ _ => hlogs }
  | .error fault =>
    obtain rfl | ⟨hnone, rfl⟩ := of_createStore_error h
    · exact .refl _
    · have hset (other : Place) := entryAt?_setEntry (t := t) hdirectory (.file []) other
      have hkept {other : Place} {entry : Entry} (hother : t.entryAt? other = some entry) :
          (t.setEntry place (.file [])).entryAt? other = some entry := by
        rw [hset, if_neg, hother]
        rintro rfl
        rw [hnone] at hother
        cases hother
      exact ⟨rfl, fun _ => hkept, fun _ _ _ => hkept, Nat.le_refl _, fun _ _ => rfl, fun _ hwho => hwho⟩

/-- Whoever opens a store or tries to has at most its log open. -/
theorem joinStore (ht : t.Sound) (hlogs : ∀ other ∈ logPlaces (t.stores.getD id default).place, touched other)
    (h : t.joinStore path place id kind journal = (result, u)) : Remains touched t u := by
  have hjoined (log : Log) : Remains touched t { t.modifyLog id fun _ => log with users := t.users + 1 } :=
    { modifyLog id (fun _ => log) hlogs with }
  cases join_joinStore h with
  | barred => exact .refl _
  | joined => exact hjoined _
  | @gone log =>
    have hbounded : Bounded touched (t.users ≤ ·) { t.modifyLog id fun _ => log with users := t.users + 1 } :=
      (hjoined log).bounded _ ht.confined
    exact (hjoined log).trans
      (.leaveStores hbounded fun user huser => Nat.le_of_eq (of_decide_eq_true huser).symm)

end Remains

/-! ## Users that come -/

/-- Whoever opens a store that is there is a user of its log from then on; whoever could not is of none. -/
theorem users_joinStore (h : t.joinStore path place id kind journal = (result, u)) (other : Nat) :
    ∀ user ∈ (u.stores.getD other default).log.users,
      user ∈ (t.stores.getD other default).log.users ∨ ∃ file, result = .ok file ∧ user = file.user := by
  have hjoined {log : Log} (hlog : t.chosenLog place id journal = .ok log) :
      ∀ user ∈ ((t.modifyLog id fun _ => log).stores.getD other default).log.users,
        user ∈ (t.stores.getD other default).log.users ∨ user = t.users := by
    intro user huser
    rw [stores_modifyLog, getD_setLog] at huser
    split at huser
    · rename_i hother
      rw [hother.1]
      exact users_chosenLog hlog user huser
    · exact .inl huser
  cases join_joinStore h with
  | barred => exact fun user huser => .inl huser
  | joined hlog => exact fun user huser => (hjoined hlog user huser).imp_right fun heq => ⟨_, rfl, heq⟩
  | gone _ hlog =>
    intro user huser
    rw [users_leaveStores, List.mem_filter] at huser
    exact .inl ((hjoined hlog user huser.1).resolve_right (by simpa using huser.2))

theorem users_createStore (hdirectory : t.entryAt? place ≠ some .directory)
    (h : t.createStore place kind journal = (result, u)) (other : Nat) :
    ∀ user ∈ (u.stores.getD other default).log.users,
      user ∈ (t.stores.getD other default).log.users ∨ ∃ file, result = .ok file ∧ user = file.user := by
  intro user huser
  match result with
  | .ok file =>
    obtain ⟨rfl, -, -, -, -, -, hfile⟩ := of_createStore hdirectory h
    rw [hfile] at huser
    split at huser
    · refine .inr ⟨_, rfl, ?_⟩
      cases journal with
      | wal => exact List.mem_singleton.1 huser
      | delete | memory => cases huser
    · exact .inl huser
  | .error fault =>
    obtain rfl | ⟨-, rfl⟩ := of_createStore_error h
    · exact .inl huser
    · exact .inl huser

/-! ## Attempts -/

/-- The log of a store is beside the file that its address is. -/
theorem logs_of_address {mayCreate : Bool} (t : Files)
    (haddress : Address.ofPath? path = some (.file filePath mayCreate)) :
    ∀ filePath' mayCreate', Address.ofPath? path = some (.file filePath' mayCreate') →
      ∀ place ∈ logPlaces (some (t.target filePath')), place ∈ logPlaces (some (t.target filePath)) := by
  intro filePath' mayCreate' hfile
  cases haddress.symm.trans hfile
  exact fun _ hplace => hplace

namespace Attempt

theorem remains (h : Attempt path kind journal t result u) (ht : t.Sound)
    (hlogs : ∀ filePath mayCreate, Address.ofPath? path = some (.file filePath mayCreate) →
      ∀ place ∈ logPlaces (some (t.target filePath)), touched place) : Remains touched t u := by
  cases h with
  | refused => exact .refl t
  | nowhere =>
    exact {
      working := rfl
      directory := fun _ h => h
      store := fun _ _ _ h => h
      length := (t.keeps_addStore none kind).length
      schema := fun id hid => by rw [getD_addStore, if_neg (Nat.ne_of_lt hid)]
      bounded := fun _ hwho => hwho.replaced (getD_addStore t none kind) nofun }
  | joins haddress _ hentry hjoin =>
    refine .joinStore ht ?_ hjoin
    rw [(ht.entry _ _ hentry).2]
    exact hlogs _ _ haddress
  | creates haddress hplace hstore hcreate =>
    exact .createStore (not_directory_of_storePlace? hplace) hstore (hlogs _ _ haddress) hcreate

theorem users (h : Attempt path kind journal t result u) (id : Nat) :
    ∀ user ∈ (u.stores.getD id default).log.users,
      user ∈ (t.stores.getD id default).log.users ∨ ∃ file, result = .ok file ∧ user = file.user := by
  cases h with
  | refused => exact fun user huser => .inl huser
  | nowhere =>
    intro user huser
    rw [getD_addStore] at huser
    split at huser
    · cases huser
    · exact .inl huser
  | joins _ _ _ hjoin => exact users_joinStore hjoin id
  | creates _ hplace _ hcreate => exact users_createStore (not_directory_of_storePlace? hplace) hcreate id

/-- Whoever opens a store is a new user of one that can be used as a store of the kind. -/
theorem of_ok {file : OpenFile} (h : Attempt path kind journal t (.ok file) u) (ht : t.Sound) :
    file.user = t.users ∧ u.users = t.users + 1 ∧ (u.stores.getD file.id default).check path kind = .ok () := by
  cases h with
  | nowhere =>
    have hnew : (t.addStore none kind).1.id = t.stores.length := rfl
    refine ⟨rfl, rfl, ?_⟩
    rw [getD_addStore, if_pos hnew]
    cases kind <;> rfl
  | joins _ _ hentry hjoin =>
    obtain ⟨hknown, hhome⟩ := ht.entry _ _ hentry
    obtain ⟨rfl, hcheck, -, -, -, -, husers, log, -, hfile⟩ := of_joinStore hknown hhome hjoin
    refine ⟨rfl, husers, ?_⟩
    rw [hfile, if_pos rfl]
    exact hcheck
  | creates _ hplace _ hcreate =>
    obtain ⟨rfl, -, -, -, -, husers, hfile⟩ := of_createStore (not_directory_of_storePlace? hplace) hcreate
    refine ⟨rfl, husers, ?_⟩
    rw [hfile, if_pos rfl]
    cases kind <;> rfl

/-- A store that was opened in a file stands there. -/
theorem entry {file : OpenFile} (h : Attempt path kind journal t (.ok file) u) (ht : t.Sound) {mayCreate : Bool}
    (haddress : Address.ofPath? path = some (.file filePath mayCreate)) :
    t.storePlace? filePath = some (t.target filePath) ∧
      u.entryAt? (t.target filePath) = some (.store file.id) := by
  have hremains : Remains (· ∈ logPlaces (some (t.target filePath))) t u := h.remains ht (logs_of_address t haddress)
  cases h with
  | nowhere hnowhere => cases haddress.symm.trans hnowhere
  | joins hfile hplace hentry hjoin =>
    cases haddress.symm.trans hfile
    rw [id_joinStore hjoin]
    exact ⟨hplace, hremains.store _ (notMem_logPlaces _) _ hentry⟩
  | creates hfile hplace _ hcreate =>
    cases haddress.symm.trans hfile
    obtain ⟨rfl, -, -, hentries, -, -, -⟩ := of_createStore (not_directory_of_storePlace? hplace) hcreate
    exact ⟨hplace, (hentries _ (notMem_logPlaces _)).trans (if_pos rfl)⟩

end Attempt

section Opening

variable (h : t.openStore path kind journal = (result, u))

include h

/-- Whatever becomes of opening a store, all stores stay where they are, but for the places of its log. -/
theorem remains_openStore (ht : t.Sound) (hlogs : ∀ filePath mayCreate,
      Address.ofPath? path = some (.file filePath mayCreate) →
        ∀ place ∈ logPlaces (some (t.target filePath)), touched place) : Remains touched t u := by
  obtain ⟨created, hfurnished, hattempt, -⟩ := attempt_openStore h
  have hchanges : Changes (fun _ => False) (fun _ => False) t created := changes_createDirectories hfurnished
  refine (Remains.of_furnished hfurnished).trans (hattempt.remains (hchanges.sound ht) ?_)
  simpa only [target_of_working hfurnished.working_eq] using hlogs

theorem users_le_openStore : t.users ≤ u.users := by
  have hchanges : Changes (fun _ => True) (fun _ => False) t (t.openStore path kind journal).2 :=
    changes_openStore_at (fun _ _ _ => trivial) t kind journal
  rw [h] at hchanges
  exact hchanges.users_le

/-- Whatever becomes of opening a store, nobody but whoever opened it gets to its log. -/
theorem users_openStore (id : Nat) : ∀ user ∈ (u.stores.getD id default).log.users,
    user ∈ (t.stores.getD id default).log.users ∨ ∃ file, result = .ok file ∧ user = file.user := by
  obtain ⟨created, hfurnished, hattempt, -⟩ := attempt_openStore h
  rw [← hfurnished.stores_eq]
  exact hattempt.users id

end Opening

/-- A store is opened only at a path that stands for an address. -/
theorem exists_address {file : OpenFile} (h : t.openStore path kind journal = (.ok file, u)) :
    ∃ address, Address.ofPath? path = some address := by
  obtain ⟨created, -, hattempt, -⟩ := attempt_openStore h
  cases hattempt with
  | nowhere haddress | joins haddress | creates haddress => exact ⟨_, haddress⟩

/-- Whoever opens a store is a new user. -/
theorem user_openStore {file : OpenFile} (ht : t.Sound) (h : t.openStore path kind journal = (.ok file, u)) :
    file.user = t.users ∧ u.users = t.users + 1 := by
  obtain ⟨created, hfurnished, hattempt, -⟩ := attempt_openStore h
  have hchanges : Changes (fun _ => False) (fun _ => False) t created := changes_createDirectories hfurnished
  obtain ⟨huser, husers, -⟩ := hattempt.of_ok (hchanges.sound ht)
  rw [← hfurnished.users_eq]
  exact ⟨huser, husers⟩

end ClassDeps.Files
