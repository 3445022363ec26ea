import ClassDeps.Proofs.Files.Places
import ClassDeps.Store.Opened

/-!
# What trees keep of their stores

Opening, logging and leaving store files changes entries and logs, and adds new stores, but never what a store
that was there holds. Only a commit does, and only for one store.

## Main definitions

* `Files.Keeps` — every store of a tree holds the same in another one
* `Files.Furnished` — the trees that making directories leads to
* `Files.Join`, `Files.Attempt` — what can become of joining a store, and of opening the store at a path

## Main statements

* `contents_setContents` — what a commit changes
* `bind_apply`, `exists_of_bind` — operations one after the other
* `Keeps.modifyLog`, `Keeps.leaveStores` — logs are apart from contents
* `Furnished.createDirectories` — how directories are made
* `join_joinStore`, `attempt_openStore` — joining a store, and opening one, are among these
* `keeps_openStore` — opening a store file
-/

namespace ClassDeps.Files

section Operations

variable {ε σ α β : Type} {op : ExceptT ε (StateM σ) α} {next : α → ExceptT ε (StateM σ) β} {s s' : σ} {b : β}

/-- An operation and what comes next, which does not come after a failure. -/
theorem bind_apply (op : ExceptT ε (StateM σ) α) (next : α → ExceptT ε (StateM σ) β) (s : σ) :
    (op >>= next) s = match op s with
      | (.ok a, s') => next a s'
      | (.error error, s') => (.error error, s') := by
  change (match op s with | (result, s') => (ExceptT.bindCont next result).run s') = _
  match op s with
  | (.ok _, _) => rfl
  | (.error _, _) => rfl

/-- An operation that succeeds consists of steps that succeed. -/
theorem exists_of_bind (h : (op >>= next) s = (.ok b, s')) :
    ∃ a s'', op s = (.ok a, s'') ∧ next a s'' = (.ok b, s') := by
  rw [bind_apply] at h
  match hop : op s with
  | (.ok a, s'') =>
    rw [hop] at h
    exact ⟨a, s'', rfl, h⟩
  | (.error error, s'') =>
    rw [hop] at h
    cases h

end Operations

variable {t u v : Files}

/-- Every store of a tree is there in another one, and holds the same. -/
structure Keeps (t u : Files) : Prop where
  length : t.stores.length ≤ u.stores.length
  contents : ∀ {id : Nat}, id < t.stores.length → u.contents id = t.contents id

namespace Keeps

theorem refl (t : Files) : t.Keeps t :=
  ⟨Nat.le_refl _, fun _ => rfl⟩

theorem trans (h : t.Keeps u) (h' : u.Keeps v) : t.Keeps v where
  length := Nat.le_trans h.length h'.length
  contents hid := (h'.contents (Nat.lt_of_lt_of_le hid h.length)).trans (h.contents hid)

theorem of_eq (h : u.stores = t.stores) : t.Keeps u where
  length := Nat.le_of_eq (congrArg List.length h.symm)
  contents _ := by rw [Files.contents, Files.contents, h]

end Keeps

/-! ## Changes of one store -/

theorem getD_set_of_lt {stores : List StoreFile} {id : Nat} (hid : id < stores.length) (file : StoreFile)
    (other : Nat) :
    (stores.set id file).getD other default = if other = id then file else stores.getD other default := by
  by_cases h : other = id
  · rw [if_pos h, h, List.getD_eq_getElem?_getD, List.getElem?_set_self hid, Option.getD_some]
  · rw [if_neg h, List.getD_eq_getElem?_getD, List.getElem?_set_ne (Ne.symm h), List.getD_eq_getElem?_getD]

theorem length_setContents (t : Files) (id : Nat) (contents : StoreContents) :
    (t.setContents id contents).stores.length = t.stores.length :=
  List.length_modify _ _ _

theorem getD_setContents (t : Files) (id : Nat) (contents : StoreContents) (other : Nat) :
    (t.setContents id contents).stores.getD other default =
      if other = id ∧ id < t.stores.length then { t.stores.getD id default with contents }
      else t.stores.getD other default := by
  rw [setContents, List.modify_eq_set]
  by_cases hid : id < t.stores.length
  · rw [getD_set_of_lt hid, List.getD_eq_getElem?_getD (i := id)]
    simp only [hid, and_true]
  · rw [List.set_eq_of_length_le (Nat.le_of_not_lt hid), if_neg (fun h => hid h.2)]

/-- A store that is committed holds what was committed, and no other store is changed. -/
theorem contents_setContents {id : Nat} (hid : id < t.stores.length) (contents : StoreContents) (other : Nat) :
    (t.setContents id contents).contents other = if other = id then contents else t.contents other := by
  rw [Files.contents, getD_setContents]
  by_cases h : other = id
  · rw [if_pos ⟨h, hid⟩, if_pos h]
  · rw [if_neg (fun h' => h h'.1), if_neg h]
    rfl

theorem contents_setContents_or (t : Files) (id : Nat) (contents : StoreContents) (other : Nat) :
    (t.setContents id contents).contents other = t.contents other ∨
      (t.setContents id contents).contents other = contents := by
  by_cases hid : id < t.stores.length
  · rw [contents_setContents hid]
    split
    · exact .inr rfl
    · exact .inl rfl
  · refine .inl ?_
    rw [Files.contents, setContents, List.modify_eq_set, List.set_eq_of_length_le (Nat.le_of_not_lt hid)]
    rfl

/-! ## Logs -/

theorem stores_createLogFile (t : Files) (place : Place) : (t.createLogFile place).stores = t.stores := by
  unfold createLogFile
  split <;> rfl

theorem stores_removeLogFile (t : Files) (place : Place) : (t.removeLogFile place).stores = t.stores := by
  unfold removeLogFile
  split <;> rfl

theorem stores_foldl {step : Files → Place → Files} (h : ∀ t place, (step t place).stores = t.stores)
    (places : List Place) (t : Files) : (places.foldl step t).stores = t.stores := by
  induction places generalizing t with
  | nil => rfl
  | cons place places ih => rw [List.foldl_cons, ih, h]

theorem stores_modifyLog (t : Files) (id : Nat) (change : Log → Log) :
    (t.modifyLog id change).stores =
      t.stores.set id { t.stores.getD id default with log := change (t.stores.getD id default).log } := by
  unfold modifyLog
  simp only
  split
  · rfl
  · split
    · rw [stores_foldl stores_createLogFile]
    · split
      · rw [stores_foldl stores_removeLogFile]
      · rfl

theorem length_modifyLog (t : Files) (id : Nat) (change : Log → Log) :
    (t.modifyLog id change).stores.length = t.stores.length := by
  rw [stores_modifyLog, List.length_set]

theorem getD_setLog (t : Files) (id : Nat) (log : Log) (other : Nat) :
    (t.stores.set id { t.stores.getD id default with log }).getD other default =
      if other = id ∧ id < t.stores.length then { t.stores.getD id default with log }
      else t.stores.getD other default := by
  by_cases hid : id < t.stores.length
  · rw [getD_set_of_lt hid]
    simp only [hid, and_true]
  · rw [List.set_eq_of_length_le (Nat.le_of_not_lt hid), if_neg (fun h => hid h.2)]

/-- A log is apart from the contents of its store. -/
theorem contents_setLog (t : Files) (id : Nat) (log : Log) (other : Nat) :
    Files.contents { t with stores := t.stores.set id { t.stores.getD id default with log } } other =
      t.contents other := by
  rw [Files.contents, getD_setLog]
  split
  · rename_i h
    rw [h.1]
    rfl
  · rfl

theorem contents_modifyLog (t : Files) (id : Nat) (change : Log → Log) (other : Nat) :
    (t.modifyLog id change).contents other = t.contents other := by
  rw [Files.contents, stores_modifyLog]
  exact t.contents_setLog id _ other

theorem Keeps.modifyLog (t : Files) (id : Nat) (change : Log → Log) : t.Keeps (t.modifyLog id change) where
  length := Nat.le_of_eq (t.length_modifyLog id change).symm
  contents _ := t.contents_modifyLog id change _

/-- Users that are gone leave the contents of all stores behind. -/
theorem Keeps.leaveStores (t : Files) (gone : Nat → Bool) : t.Keeps (t.leaveStores gone) := by
  have hall (ids : List Nat) (u : Files) :
      u.Keeps (ids.foldl (fun t id => t.modifyLog id (.leave gone)) u) := by
    induction ids generalizing u with
    | nil => exact .refl u
    | cons id ids ih => exact (Keeps.modifyLog u id _).trans (ih _)
  exact hall _ t

/-! ## Directories -/

/-- The trees that making directories leads to, each where there is nothing. -/
inductive Furnished (t : Files) : Files → Prop where
  | refl : Furnished t t
  | make {u : Files} {place : Place} :
    Furnished t u → u.entryAt? place = none → Furnished t (u.setEntry place .directory)

namespace Furnished

theorem trans (h : t.Furnished u) (h' : u.Furnished v) : t.Furnished v := by
  induction h' with
  | refl => exact h
  | make _ hfree ih => exact ih.make hfree

theorem stores_eq (h : t.Furnished u) : u.stores = t.stores := by
  induction h with
  | refl => rfl
  | make _ _ ih => exact ih

theorem of_createDirectory {path : String} (h : t.createDirectory path = .ok u) : t.Furnished u := by
  simp only [createDirectory, bind, Except.bind, pure, Except.pure] at h
  split at h
  · cases h
  · split at h
    · cases h
    · split at h
      · cases h
      · rename_i hfree
        simp only [Bool.or_eq_true, not_or, Bool.not_eq_true, Option.isSome_eq_false_iff,
          Option.isNone_iff_eq_none] at hfree
        cases h
        exact .make .refl hfree.2

theorem ensureDirectory (t : Files) (path : String) : t.Furnished (t.ensureDirectory path).2 := by
  unfold Files.ensureDirectory
  split
  · rename_i h
    exact of_createDirectory h
  · exact .refl

theorem createAbove (levels : Nat) (path : String) (t : Files) :
    t.Furnished (Files.createAbove levels path t).2 := by
  induction levels generalizing path t with
  | zero => exact ensureDirectory t path
  | succ levels ih =>
    unfold Files.createAbove
    split
    · exact ensureDirectory t path
    · rename_i parent _ _ _
      have hparent := ih parent t
      split
      · rename_i h
        rw [h] at hparent
        exact hparent.trans (ensureDirectory _ path)
      · rename_i h
        rw [h] at hparent
        exact hparent
    · exact ensureDirectory t path

theorem createDirectories (t : Files) (path : String) : t.Furnished (t.createDirectories path).2 := by
  unfold Files.createDirectories
  split
  · exact .refl
  · exact createAbove _ path t

theorem createParent (t : Files) (path : String) : t.Furnished (t.createParent path).2 := by
  unfold Files.createParent
  split
  · exact .refl
  · exact createDirectories t _

end Furnished

/-! ## Opening -/

/-- A store that is added at a place knows the place, and has no users yet. -/
theorem getD_addStore (t : Files) (place : Option Place) (kind : StoreKind) (id : Nat) :
    (t.addStore place kind).2.stores.getD id default =
      if id = t.stores.length then ⟨supportedSchema, .empty kind, .unused, place⟩ else t.stores.getD id default := by
  rw [addStore, List.getD_eq_getElem?_getD, List.getD_eq_getElem?_getD]
  by_cases hlt : id < t.stores.length
  · rw [if_neg (Nat.ne_of_lt hlt), List.getElem?_append_left hlt]
  · rw [List.getElem?_append_right (Nat.le_of_not_lt hlt), List.getElem?_eq_none (Nat.le_of_not_lt hlt)]
    by_cases heq : id = t.stores.length
    · rw [if_pos heq, heq, Nat.sub_self]
      rfl
    · rw [if_neg heq, List.getElem?_eq_none (by simp; omega)]

theorem contents_addStore (t : Files) (place : Option Place) (kind : StoreKind) (id : Nat) :
    (t.addStore place kind).2.contents id = if id = t.stores.length then .empty kind else t.contents id := by
  rw [Files.contents, getD_addStore]
  split <;> rfl

theorem keeps_addStore (t : Files) (place : Option Place) (kind : StoreKind) :
    t.Keeps (t.addStore place kind).2 where
  length := by
    rw [addStore, List.length_append]
    exact Nat.le_add_right _ _
  contents hid := (t.contents_addStore place kind _).trans (if_neg (Nat.ne_of_lt hid))

theorem keeps_createStore {place : Place} {kind : StoreKind} {journal : JournalMode}
    {result : Except StorageFault OpenFile} (h : t.createStore place kind journal = (result, u)) :
    t.Keeps u := by
  unfold createStore at h
  split at h
  · obtain ⟨file, added, hadd⟩ : ∃ file added, t.addStore (some place) kind = (file, added) := ⟨_, _, rfl⟩
    have hkeeps := t.keeps_addStore (some place) kind
    rw [hadd] at h hkeeps
    cases h
    -- The store is added, then the tree gets its entry and loses an old log, and last its log is begun.
    refine (hkeeps.trans (.of_eq ?_)).trans (.modifyLog _ _ _)
    exact stores_removeLogFile (added.setEntry place (.store file.id)) (place.beside logEnding)
  · cases h
    refine .of_eq ?_
    split <;> rfl

/-- What can become of joining the store with a number. Its new user is gone at once if the file is not of the kind. -/
inductive Join (path : String) (place : Place) (id : Nat) (kind : StoreKind) (journal : JournalMode) (t : Files) :
    Except StorageFault OpenFile → Files → Prop where
  | barred (fault : StorageFault) : Join path place id kind journal t (.error fault) t
  | joined {log : Log} : t.chosenLog place id journal = .ok log →
    (t.stores.getD id default).check path kind = .ok () →
    Join path place id kind journal t (.ok ⟨id, t.users⟩) { t.modifyLog id fun _ => log with users := t.users + 1 }
  | gone {log : Log} (fault : StorageFault) : t.chosenLog place id journal = .ok log →
    Join path place id kind journal t (.error fault)
      ({ t.modifyLog id fun _ => log with users := t.users + 1 }.leaveStores (· = t.users))

theorem join_joinStore {path : String} {place : Place} {id : Nat} {kind : StoreKind} {journal : JournalMode}
    {result : Except StorageFault OpenFile} (h : t.joinStore path place id kind journal = (result, u)) :
    Join path place id kind journal t result u := by
  unfold joinStore at h
  split at h
  · cases h
    exact .barred _
  · rename_i hlog
    simp only at h
    split at h
    · rename_i hcheck
      cases h
      exact .joined hlog hcheck
    · cases h
      exact .gone _ hlog

theorem keeps_joinStore {path : String} {place : Place} {id : Nat} {kind : StoreKind} {journal : JournalMode}
    {result : Except StorageFault OpenFile} (h : t.joinStore path place id kind journal = (result, u)) :
    t.Keeps u := by
  have hjoined (log : Log) : t.Keeps { t.modifyLog id fun _ => log with users := t.users + 1 } :=
    (Keeps.modifyLog t id _).trans (.of_eq rfl)
  cases join_joinStore h with
  | barred => exact .refl _
  | joined => exact hjoined _
  | gone => exact (hjoined _).trans (.leaveStores _ _)

/-- What can become of opening the store at a path, once the directory for it has been made. -/
inductive Attempt (path : String) (kind : StoreKind) (journal : JournalMode) (t : Files) :
    Except StorageFault OpenFile → Files → Prop where
  | refused (fault : StorageFault) : Attempt path kind journal t (.error fault) t
  | nowhere : Address.ofPath? path = some .nowhere →
    Attempt path kind journal t (.ok (t.addStore none kind).1) (t.addStore none kind).2
  | joins {filePath : String} {mayCreate : Bool} {id : Nat} {result : Except StorageFault OpenFile} {u : Files} :
    Address.ofPath? path = some (.file filePath mayCreate) → t.storePlace? filePath = some (t.target filePath) →
    t.entryAt? (t.target filePath) = some (.store id) →
    t.joinStore path (t.target filePath) id kind journal = (result, u) → Attempt path kind journal t result u
  | creates {filePath : String} {mayCreate : Bool} {result : Except StorageFault OpenFile} {u : Files} :
    Address.ofPath? path = some (.file filePath mayCreate) → t.storePlace? filePath = some (t.target filePath) →
    (∀ id, t.entryAt? (t.target filePath) ≠ some (.store id)) →
    t.createStore (t.target filePath) kind journal = (result, u) → Attempt path kind journal t result u

/-- Opening a store is an attempt in a tree with more directories, which has that of the store if it is opened. -/
theorem attempt_openStore {path : String} {kind : StoreKind} {journal : JournalMode}
    {result : Except StorageFault OpenFile} (h : t.openStore path kind journal = (result, u)) :
    ∃ created, t.Furnished created ∧ Attempt path kind journal created result u ∧
      ∀ file, result = .ok file → t.createParent path = (.ok (), created) := by
  have hfurnished := Furnished.createParent t path
  unfold openStore at h
  split at h
  · rename_i hcreate
    rw [hcreate] at hfurnished
    cases h
    exact ⟨_, hfurnished, .refused _, nofun⟩
  · rename_i created hcreate
    rw [hcreate] at hfurnished
    refine ⟨created, hfurnished, ?_, fun _ _ => hcreate⟩
    split at h
    · cases h
      exact .refused _
    · rename_i haddress
      cases h
      exact .nowhere haddress
    · rename_i haddress
      split at h
      · cases h
        exact .refused _
      · rename_i place hplace
        obtain rfl := storePlace?_eq_target hplace
        split at h
        · rename_i hentry
          exact .joins haddress hplace hentry h
        · cases h
          exact .refused _
        · rename_i hstore _ hentry
          refine .creates haddress hplace (fun id hid => ?_) h
          rw [hentry] at hid
          exact hstore id (Option.some.inj hid)
        · rename_i hentry
          split at h
          · exact .creates haddress hplace (by simp [hentry]) h
          · cases h
            exact .refused _

/-- Whatever becomes of opening a store file, no store that was there changes. -/
theorem keeps_openStore {path : String} {kind : StoreKind} {journal : JournalMode}
    {result : Except StorageFault OpenFile} (h : t.openStore path kind journal = (result, u)) : t.Keeps u := by
  obtain ⟨created, hfurnished, hattempt, -⟩ := attempt_openStore h
  refine (Keeps.of_eq hfurnished.stores_eq).trans ?_
  cases hattempt with
  | refused => exact .refl _
  | nowhere => exact created.keeps_addStore none kind
  | joins _ _ _ hjoin => exact keeps_joinStore hjoin
  | creates _ _ _ hcreate => exact keeps_createStore hcreate

end ClassDeps.Files
