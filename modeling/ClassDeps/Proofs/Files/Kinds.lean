import ClassDeps.Proofs.Files.Attempts

/-!
# Kinds of store files

Once a store was opened at a path it stands there for good: its kind is fixed, and what opening it depends on is the
same whoever uses it, or tries to.

## Main definitions

* `Files.Unopened` — no one has the log open of the store at a path
* `Files.Rooted` — a store of a kind stands at the place of a path, and only some users have its log open

## Main statements

* `Files.rooted_of_openStore` — a store that was opened for the first time
* `Files.Rooted.attempt`, `Files.Rooted.commit`, `Files.Rooted.leave` — it stays whatever its users do
* `Files.Rooted.of_openStore`, `Files.Rooted.refused`, `Files.Rooted.opens` — who can open it
-/

namespace ClassDeps

namespace Files

variable {t u : Files} {path : String} {kind other : StoreKind} {journal : JournalMode} {id : Nat} {file : OpenFile}
  {who who' : Nat → Prop} {result : Except StorageFault OpenFile}

/-- A store of a kind stands at the place of a path, and only some users have its log open, and no other log. -/
structure Rooted (path : String) (kind : StoreKind) (id : Nat) (who : Nat → Prop) (t : Files) : Prop where
  sound : t.Sound
  parent : ∀ parent, Path.parent? path = some parent → parent = "" ∨ t.isDirectory parent = true
  place : t.storePlace? path = some (t.target path)
  entry : t.entryAt? (t.target path) = some (.store id)
  check : (t.stores.getD id default).check path kind = .ok ()
  users : ∀ user ∈ (t.stores.getD id default).log.users, who user
  bounded : Bounded (· ∈ logPlaces (some (t.target path))) who t
  known : ∀ user, who user → user < t.users

/-- No one has the log open of a store that stands where a path leads. -/
def Unopened (t : Files) (path : String) : Prop :=
  ∀ id, t.entryAt? (t.target path) = some (.store id) → (t.stores.getD id default).log.users = []

/-- Whoever cannot open a store does not have its log open. -/
theorem Unopened.attempt {fault : StorageFault} (h : t.Unopened path)
    (hopen : t.openStore path kind journal = (.error fault, u)) : u.Unopened path := by
  have hspares : Spares (fun _ => False) (fun _ => True) t (t.openStore path kind journal).2 :=
    .openStore (fun _ hnone => hnone.elim) (fun _ => trivial) t path kind journal
  rw [hopen] at hspares
  intro id hentry
  rw [target_of_working hspares.working] at hentry
  have hnone : (t.stores.getD id default).log.users = [] := by
    obtain hstore | hnew := hspares.store _ id hentry
    · exact h id hstore
    · exact users_of_length_le hnew
  refine List.eq_nil_iff_forall_not_mem.2 fun user huser => ?_
  obtain hold | ⟨_, hfile, -⟩ := users_openStore hopen id user huser
  · rw [hnone] at hold
    cases hold
  · cases hfile

/-- A store that no one had open stands at its place for good once it was opened. -/
theorem rooted_of_openStore (haddress : Address.ofPath? path = some (.file path true)) (ht : t.Sound)
    (hunopened : t.Unopened path) (h : t.openStore path kind journal = (.ok file, u)) :
    Rooted path kind file.id (· = file.user) u := by
  obtain ⟨created, hfurnished, hattempt, hcreate⟩ := attempt_openStore h
  have hparent := parent_of_createParent (hcreate file rfl)
  have hchanges : Changes (fun _ => False) (fun _ => False) t created := changes_createDirectories hfurnished
  have hcreated := hchanges.sound ht
  obtain ⟨huser, husers, hcheck⟩ := hattempt.of_ok hcreated
  obtain ⟨hplace, hentry⟩ := hattempt.entry hcreated haddress
  have hremains : Remains (· ∈ logPlaces (some (created.target path))) created u :=
    hattempt.remains hcreated (logs_of_address created haddress)
  have htarget := target_of_working hremains.working path
  exact {
    sound := ht.openStore_at h
    parent := fun parent habove => (hparent parent habove).imp_right
      (isDirectory_of_directories hremains.working hremains.directory)
    place := htarget ▸ storePlace?_of_parent hparent hplace hremains.working hremains.directory
      (by simp [hentry])
    entry := htarget ▸ hentry
    check := hcheck
    users := fun user hlog => by
      obtain hold | ⟨_, hfile, huser⟩ := users_openStore h file.id user hlog
      · -- The store is new or was there, and in neither case did anyone have its log open.
        have hnone : (t.stores.getD file.id default).log.users = [] := by
          obtain hnew | ⟨_, _, hfile, hstore⟩ := id_openStore h
          · exact users_of_length_le hnew
          · cases haddress.symm.trans hfile
            exact hunopened _ hstore
        rw [hnone] at hold
        cases hold
      · cases hfile
        exact huser
    bounded := fun id user hlog heq => by
      rw [htarget]
      exact hremains.bounded _ hcreated.confined id user hlog (Nat.le_of_eq (huser.symm.trans heq.symm))
    known := fun user heq => by
      rw [heq, huser, husers]
      exact Nat.lt_succ_self _ }

namespace Rooted

/-- The store stays where it is for as long as stores do, if its kind is the same. -/
theorem of_remains (h : Rooted path kind id who t) (hremains : Remains (· ∈ logPlaces (some (t.target path))) t u)
    (hsound : u.Sound) (hkind : (u.contents id).kind = (t.contents id).kind)
    (husers : ∀ user ∈ (u.stores.getD id default).log.users, who' user)
    (hbounded : Bounded (· ∈ logPlaces (some (t.target path))) who' u) (hknown : ∀ user, who' user → user < u.users) :
    Rooted path kind id who' u := by
  have htarget := target_of_working hremains.working path
  have hentry := hremains.store _ (notMem_logPlaces _) _ h.entry
  exact {
    sound := hsound
    parent := fun parent habove =>
      (h.parent parent habove).imp_right (isDirectory_of_directories hremains.working hremains.directory)
    place := htarget ▸ storePlace?_of_parent h.parent h.place hremains.working hremains.directory (by simp [hentry])
    entry := htarget ▸ hentry
    check := (StoreFile.check_congr hkind (hremains.schema id (h.sound.entry _ _ h.entry).1) path kind).trans h.check
    users := husers
    bounded := htarget ▸ hbounded
    known := hknown }

theorem congr (h : Rooted path kind id who t) (hwho : ∀ user, who user ↔ who' user) : Rooted path kind id who' t := by
  have hsame : who = who' := funext fun user => propext (hwho user)
  exact hsame ▸ h

theorem storeAt?_eq (h : Rooted path kind id who t) (haddress : Address.ofPath? path = some (.file path true)) :
    t.storeAt? path = some id := by
  rw [storeAt?, haddress]
  simp only [Option.bind_eq_bind, Option.bind_some, h.place, h.entry]
  rfl

section Attempts

variable (haddress : Address.ofPath? path = some (.file path true)) (h : Rooted path kind id who t)

include haddress h

/-- Whoever opens the path gets to the store, or to nothing. -/
theorem openStore_eq (other : StoreKind) (journal : JournalMode) :
    t.openStore path other journal = t.joinStore path (t.target path) id other journal := by
  rw [openStore, createParent_of_directory h.parent]
  simp only [haddress, h.place, h.entry]

/-- The store is opened as one of its kind only, by a new user. -/
theorem of_openStore (hopen : t.openStore path other journal = (.ok file, u)) : other = kind ∧ file = ⟨id, t.users⟩ := by
  rw [h.openStore_eq haddress] at hopen
  obtain ⟨hknown, hhome⟩ := h.sound.entry _ _ h.entry
  obtain ⟨rfl, hcheck, -⟩ := of_joinStore hknown hhome hopen
  exact ⟨(StoreFile.kind_of_check hcheck).symm.trans (StoreFile.kind_of_check h.check), rfl⟩

/-- The store is not opened as one of the other kind. -/
theorem refused (hne : other ≠ kind) (journal : JournalMode) :
    ∃ fault u, t.openStore path other journal = (.error fault, u) := by
  match hopen : t.openStore path other journal with
  | (.error fault, u) => exact ⟨fault, u, rfl⟩
  | (.ok file, u) => exact absurd (h.of_openStore haddress hopen).1 hne

/-- The store is opened as one of its kind when no one has it open, whatever the journal, if it can have one. -/
theorem opens (hwho : ∀ user, ¬who user) (hjournal : journal = .wal → journalFault (t.target path) journal = none) :
    ∃ u, t.openStore path kind journal = (.ok ⟨id, t.users⟩, u) := by
  have hnone : (t.stores.getD id default).log.users = [] :=
    List.eq_nil_iff_forall_not_mem.2 fun user huser => hwho user (h.users user huser)
  obtain ⟨log, hlog⟩ : ∃ log, t.chosenLog (t.target path) id journal = .ok log := by
    rw [chosenLog_eq]
    cases journal with
    | wal =>
      rw [hjournal rfl, ite_self]
      exact ⟨_, rfl⟩
    | delete | memory =>
      refine ⟨.unused, ?_⟩
      simp only [Log.choose?, hnone, ne_eq, not_true_eq_false, decide_false, Bool.and_false]
      rfl
  rw [h.openStore_eq haddress, joinStore, hlog]
  simp only [h.check]
  exact ⟨_, rfl⟩

/-- Whatever becomes of an attempt to open the store, it stays as it is, and whoever opened it is one of its users. -/
theorem attempt (hopen : t.openStore path other journal = (result, u)) :
    Rooted path kind id (fun user => who user ∨ ∃ file, result = .ok file ∧ user = file.user) u := by
  have hremains : Remains (· ∈ logPlaces (some (t.target path))) t u :=
    remains_openStore hopen h.sound (logs_of_address t haddress)
  have hknown := (h.sound.entry _ _ h.entry).1
  have husers : ∀ user, (∃ file, result = .ok file ∧ user = file.user) → user = t.users ∧ u.users = t.users + 1 := by
    rintro user ⟨file, rfl, rfl⟩
    exact user_openStore h.sound hopen
  refine h.of_remains hremains (h.sound.openStore_at hopen)
    (congrArg _ ((keeps_openStore hopen).contents hknown)) ?_ ?_ ?_
  · exact fun user huser => (users_openStore hopen id user huser).imp_left (h.users user)
  · intro store user huser hwho
    obtain hwho | hnew := hwho
    · exact hremains.bounded _ h.bounded store user huser hwho
    · exact hremains.bounded _ h.sound.confined store user huser (Nat.le_of_eq (husers user hnew).1.symm)
  · rintro user (hwho | hnew)
    · exact Nat.lt_of_lt_of_le (h.known user hwho) (users_le_openStore hopen)
    · rw [(husers user hnew).1, (husers user hnew).2]
      exact Nat.lt_succ_self _

end Attempts

/-- A user writes to the store. -/
theorem commit (h : Rooted path kind file.id who t) (huser : who file.user) {contents : StoreContents}
    (hkind : contents.kind = kind) :
    Rooted path kind file.id who ((t.setContents file.id contents).modifyLog file.id (.join file.user)) := by
  obtain ⟨hknown, hhome⟩ := h.sound.entry _ _ h.entry
  obtain ⟨-, hplace, hlog⟩ := file_setContents t file.id contents file.id
  have hlogs : ∀ place ∈ logPlaces ((t.setContents file.id contents).stores.getD file.id default).place,
      place ∈ logPlaces (some (t.target path)) := by
    rw [hplace, hhome]
    exact fun _ hmem => hmem
  have hremains := (Remains.setContents t file.id contents).trans (.modifyLog file.id (.join file.user) hlogs)
  have hchanges : Changes (fun _ => False) (fun _ => False) t _ := changes_commit t (h.known _ huser) contents
  refine h.of_remains hremains (hchanges.sound h.sound) ?_ (fun user huserlog => ?_) (hremains.bounded _ h.bounded)
    fun user hwho => Nat.lt_of_lt_of_le (h.known user hwho) hchanges.users_le
  · rw [contents_modifyLog, contents_setContents hknown, if_pos rfl, hkind]
    exact (StoreFile.kind_of_check h.check).symm
  · rw [stores_modifyLog, getD_setLog, if_pos ⟨rfl, by rwa [length_setContents]⟩, hlog] at huserlog
    unfold Log.join at huserlog
    split at huserlog
    · obtain rfl | hold := List.mem_cons.1 huserlog
      · exact huser
      · exact h.users user hold
    · exact h.users user huserlog

/-- A user is gone. -/
theorem leave (h : Rooted path kind id who t) {user : Nat} (huser : who user) (hle : ∀ user, who' user → who user)
    (hrest : ∀ other, who other → other ≠ user → who' other) :
    Rooted path kind id who' (t.leaveStores (· = user)) := by
  have hremains : Remains (· ∈ logPlaces (some (t.target path))) t (t.leaveStores (· = user)) :=
    .leaveStores h.bounded fun other hother => of_decide_eq_true hother ▸ huser
  have hchanges : Changes (fun _ => False) (fun _ => False) t (t.leaveStores (· = user)) := changes_leaveStores t _
  refine h.of_remains hremains (hchanges.sound h.sound) ?_ (fun other hlog => ?_) ?_ fun other hwho => ?_
  · rw [(Keeps.leaveStores t _).contents (h.sound.entry _ _ h.entry).1]
  · rw [users_leaveStores, List.mem_filter] at hlog
    exact hrest other (h.users other hlog.1) (by simpa using hlog.2)
  · exact hremains.bounded _ fun store other hlog hwho => h.bounded store other hlog (hle other hwho)
  · exact Nat.lt_of_lt_of_le (h.known other (hle other hwho)) hchanges.users_le

end Rooted

end Files

end ClassDeps
