import ClassDeps.Class.Spelling
import ClassDeps.Proofs.Files.Directories
import ClassDeps.Proofs.Files.Documents
import Mathlib.Logic.Relation

/-!
# What becomes of a tree

Everything that users of stores and writers of documents do to a tree is a sequence of few kinds of changes. Stores know
their places throughout, no class document comes about, and a document is found by the path that it was written to.

## Main definitions

* `Files.Sound` — the stores of a tree know their places, and their users are known
* `Files.Change`, `Files.Changes` — the changes of a tree

## Main statements

* `Changes.sound`, `Changes.file`, `Changes.located` — what changes keep
* `changes_modifyLog`, `changes_leaveStores`, `changes_openStore` — changes by the users of stores
* `changes_save` — changes by the writer of a document
-/

namespace ClassDeps.Files

open Relation (ReflTransGen)

/-- The entries of stores are those of stores that there are, each of which knows its place, and users have numbers that
no later one gets. -/
structure Sound (t : Files) : Prop where
  entry : ∀ place id, t.entryAt? place = some (.store id) →
    id < t.stores.length ∧ (t.stores.getD id default).place = some place
  users : ∀ id, ∀ user ∈ (t.stores.getD id default).log.users, user < t.users

/-- A file that holds no class document. -/
def IsQuiet (bytes : Bytes) : Prop :=
  Dialect.document.shape.ofBytes? bytes = none

/-- One change of a tree. Store files are made at the places of some paths or nowhere, and documents, which are none of
classes, are written to some other paths. -/
inductive Change (stores documents : String → Prop) (t : Files) : Files → Prop where
  | directory {place : Place} : t.entryAt? place = none → Change stores documents t (t.setEntry place .directory)
  | logFile {place : Place} : ¬place.Aside → t.entryAt? place ≠ some .directory →
    Change stores documents t (t.setEntry place (.file logMark))
  | emptyFile {path : String} {place : Place} : stores path → t.storePlace? path = some place →
    Change stores documents t (t.setEntry place (.file []))
  | document {path : String} {place : Place} {bytes : Bytes} : documents path → t.locate path = .ok place →
    t.entryAt? place ≠ some .directory → IsQuiet bytes → Change stores documents t (t.setEntry place (.file bytes))
  | store {path : String} {place : Place} {kind : StoreKind} : stores path → t.storePlace? path = some place →
    Change stores documents t ((t.addStore (some place) kind).2.setEntry place (.store t.stores.length))
  | nowhere {kind : StoreKind} : Change stores documents t (t.addStore none kind).2
  | loss {entries : Ordered.Map Place Entry} :
    (∀ place, entryAt? { t with entries } place = t.entryAt? place ∨
      entryAt? { t with entries } place = none ∧ t.entryAt? place ≠ some .directory) →
    Change stores documents t { t with entries }
  | users {n : Nat} : t.users ≤ n → Change stores documents t { t with users := n }
  | log {id : Nat} {log : Log} :
    (∀ user ∈ log.users, user ∈ (t.stores.getD id default).log.users ∨ user < t.users) →
    Change stores documents t { t with stores := t.stores.set id { t.stores.getD id default with log } }
  | contents {id : Nat} {contents : StoreContents} : Change stores documents t (t.setContents id contents)

/-- Changes one after the other. -/
abbrev Changes (stores documents : String → Prop) : Files → Files → Prop :=
  ReflTransGen (Change stores documents)

variable {stores documents : String → Prop} {t u v : Files} {path : String} {place : Place}

/-! ## What changes keep -/

theorem Sound.of_entries (h : t.Sound) (hstores : u.stores = t.stores) (husers : u.users = t.users)
    (hentry : ∀ place id, u.entryAt? place = some (.store id) → t.entryAt? place = some (.store id)) : u.Sound where
  entry place id hstore := by
    rw [hstores]
    exact h.entry place id (hentry place id hstore)
  users id user huser := by
    rw [hstores] at huser
    rw [husers]
    exact h.users id user huser

/-- A tree without stores is sound. -/
theorem sound_empty : Files.empty.Sound := by
  refine ⟨fun place id hentry => ?_, fun id user huser => ?_⟩
  · rw [entryAt?] at hentry
    split at hentry <;> cases hentry
  · cases huser

theorem Sound.setEntry (h : t.Sound) {entry : Entry} (hdirectory : t.entryAt? place ≠ some .directory)
    (hstore : ∀ id, entry ≠ .store id) : (t.setEntry place entry).Sound := by
  refine h.of_entries rfl rfl fun other id hentry => ?_
  rw [entryAt?_setEntry hdirectory] at hentry
  split at hentry
  · exact absurd (Option.some.inj hentry) (hstore id)
  · exact hentry

theorem Sound.addStore (h : t.Sound) (place : Option Place) (kind : StoreKind) : (t.addStore place kind).2.Sound where
  entry other id hstore := by
    obtain ⟨hid, hplace⟩ := h.entry other id hstore
    have hlength : (t.addStore place kind).2.stores.length = t.stores.length + 1 := List.length_append
    rw [getD_addStore, hlength, if_neg (Nat.ne_of_lt hid)]
    exact ⟨Nat.lt_succ_of_lt hid, hplace⟩
  users id user huser := by
    change user < t.users + 1
    rw [getD_addStore] at huser
    split at huser
    · cases huser
    · exact Nat.lt_succ_of_lt (h.users id user huser)

theorem Sound.store (h : t.Sound) {kind : StoreKind} (hdirectory : t.entryAt? place ≠ some .directory) :
    ((t.addStore (some place) kind).2.setEntry place (.store t.stores.length)).Sound where
  entry other id hstore := by
    rw [entryAt?_setEntry (t := (t.addStore (some place) kind).2) hdirectory] at hstore
    split at hstore
    · rename_i hother
      cases hstore
      change t.stores.length < (t.stores ++ _).length ∧
        ((t.addStore (some place) kind).2.stores.getD t.stores.length default).place = some other
      rw [List.length_append, getD_addStore, if_pos rfl, hother]
      exact ⟨Nat.lt_succ_self _, rfl⟩
    · exact (h.addStore (some place) kind).entry other id hstore
  users := (h.addStore (some place) kind).users

theorem Sound.log (h : t.Sound) {id : Nat} {log : Log}
    (husers : ∀ user ∈ log.users, user ∈ (t.stores.getD id default).log.users ∨ user < t.users) :
    Sound { t with stores := t.stores.set id { t.stores.getD id default with log } } where
  entry place other hstore := by
    obtain ⟨hknown, hplace⟩ := h.entry place other hstore
    refine ⟨by rwa [List.length_set], ?_⟩
    simp only [getD_setLog]
    split
    · rename_i hother
      rw [← hother.1]
      exact hplace
    · exact hplace
  users other user huser := by
    simp only [getD_setLog] at huser
    split at huser
    · obtain hold | hnew := husers user huser
      · exact h.users id user hold
      · exact hnew
    · exact h.users other user huser

theorem Sound.setContents (h : t.Sound) (id : Nat) (contents : StoreContents) : (t.setContents id contents).Sound where
  entry place other hstore := by
    obtain ⟨hknown, hplace⟩ := h.entry place other hstore
    rw [length_setContents, getD_setContents]
    refine ⟨hknown, ?_⟩
    split
    · rename_i hother
      rw [← hother.1]
      exact hplace
    · exact hplace
  users other user huser := by
    rw [getD_setContents] at huser
    split at huser
    · exact h.users id user huser
    · exact h.users other user huser

theorem Change.sound (h : Change stores documents t u) (ht : t.Sound) : u.Sound := by
  cases h with
  | directory hfree => exact ht.setEntry (by simp [hfree]) nofun
  | logFile _ hdirectory => exact ht.setEntry hdirectory nofun
  | emptyFile _ hplace => exact ht.setEntry (not_directory_of_storePlace? hplace) nofun
  | document _ _ hdirectory _ => exact ht.setEntry hdirectory nofun
  | store _ hplace => exact ht.store (not_directory_of_storePlace? hplace)
  | nowhere => exact ht.addStore none _
  | loss hentry =>
    refine ht.of_entries rfl rfl fun place id hstore => ?_
    obtain hsame | ⟨hnone, -⟩ := hentry place
    · exact hsame ▸ hstore
    · rw [hnone] at hstore
      cases hstore
  | users hle => exact ⟨ht.entry, fun id user huser => Nat.lt_of_lt_of_le (ht.users id user huser) hle⟩
  | log husers => exact ht.log husers
  | contents => exact ht.setContents _ _

theorem Changes.sound (h : Changes stores documents t u) (ht : t.Sound) : u.Sound := by
  induction h with
  | refl => exact ht
  | tail _ hchange ih => exact hchange.sound ih

theorem Change.working_eq (h : Change stores documents t u) : u.working = t.working := by
  cases h <;> rfl

theorem Changes.working_eq (h : Changes stores documents t u) : u.working = t.working := by
  induction h with
  | refl => rfl
  | tail _ hchange ih => exact hchange.working_eq.trans ih

theorem Change.users_le (h : Change stores documents t u) : t.users ≤ u.users := by
  cases h with
  | store | nowhere => exact Nat.le_succ _
  | users hle => exact hle
  | _ => exact Nat.le_refl _

theorem Changes.users_le (h : Changes stores documents t u) : t.users ≤ u.users := by
  induction h with
  | refl => exact Nat.le_refl _
  | tail _ hchange ih => exact Nat.le_trans ih hchange.users_le

theorem Change.directory_of (h : Change stores documents t u) (hplace : t.entryAt? place = some .directory) :
    u.entryAt? place = some .directory := by
  have hset {other : Place} {entry : Entry} (hfree : t.entryAt? other ≠ some .directory) :
      (t.setEntry other entry).entryAt? place = some .directory := by
    rw [entryAt?_setEntry hfree, if_neg]
    · exact hplace
    · rintro rfl
      exact hfree hplace
  cases h with
  | directory hfree => exact hset (by simp [hfree])
  | logFile _ hfree => exact hset hfree
  | emptyFile _ hstore => exact hset (not_directory_of_storePlace? hstore)
  | document _ _ hfree _ => exact hset hfree
  | store _ hstore => exact hset (not_directory_of_storePlace? hstore)
  | loss hentry =>
    obtain hsame | ⟨-, hfree⟩ := hentry place
    · rw [hsame, hplace]
    · exact absurd hplace hfree
  | nowhere | users | log | contents => exact hplace

theorem isQuiet_logMark : IsQuiet logMark := rfl

theorem isQuiet_nil : IsQuiet [] := rfl

/-- Where a file or store comes from: it was there before, or belongs to a log, or is that of a store or of a document,
which is none of a class. -/
theorem Change.of_entry (h : Change stores documents t u) {entry : Entry} (hentry : u.entryAt? place = some entry)
    (hfile : entry ≠ .directory) : t.entryAt? place = some entry ∨ (¬place.Aside ∧ entry = .file logMark) ∨
      (∃ path, stores path ∧ t.storePlace? path = some place ∧ ∀ bytes, entry = .file bytes → bytes = []) ∨
      ∃ path bytes, documents path ∧ t.locate path = .ok place ∧ entry = .file bytes ∧ IsQuiet bytes := by
  have hset {other : Place} {made : Entry} (hfree : t.entryAt? other ≠ some .directory)
      (hentry : (t.setEntry other made).entryAt? place = some entry) :
      t.entryAt? place = some entry ∨ (place = other ∧ made = entry) := by
    rw [entryAt?_setEntry hfree] at hentry
    split at hentry
    · rename_i hother
      exact .inr ⟨hother, Option.some.inj hentry⟩
    · exact .inl hentry
  cases h with
  | directory hfree =>
    obtain hsame | ⟨-, rfl⟩ := hset (by simp [hfree]) hentry
    · exact .inl hsame
    · exact absurd rfl hfile
  | logFile hlog hfree =>
    obtain hsame | ⟨rfl, rfl⟩ := hset hfree hentry
    · exact .inl hsame
    · exact .inr (.inl ⟨hlog, rfl⟩)
  | @emptyFile path _ hpath hstore =>
    obtain hsame | ⟨rfl, rfl⟩ := hset (not_directory_of_storePlace? hstore) hentry
    · exact .inl hsame
    · exact .inr (.inr (.inl ⟨path, hpath, hstore, fun bytes heq => (Entry.file.inj heq).symm⟩))
  | @document path _ bytes hpath hplace hfree hquiet =>
    obtain hsame | ⟨rfl, rfl⟩ := hset hfree hentry
    · exact .inl hsame
    · exact .inr (.inr (.inr ⟨path, bytes, hpath, hplace, rfl, hquiet⟩))
  | @store path _ _ hpath hstore =>
    obtain hsame | ⟨rfl, rfl⟩ := hset (not_directory_of_storePlace? hstore) hentry
    · exact .inl hsame
    · exact .inr (.inr (.inl ⟨path, hpath, hstore, nofun⟩))
  | loss hloss =>
    obtain hsame | ⟨hnone, -⟩ := hloss place
    · exact .inl (hsame ▸ hentry)
    · rw [hnone] at hentry
      cases hentry
  | nowhere | users | log | contents => exact .inl hentry

/-- A file of a class document was there before. -/
theorem Change.file (h : Change stores documents t u) {bytes : Bytes} (hbytes : ¬IsQuiet bytes)
    (hfile : u.entryAt? place = some (.file bytes)) : t.entryAt? place = some (.file bytes) := by
  obtain hsame | ⟨-, hlog⟩ | ⟨_, -, -, hempty⟩ | ⟨_, _, -, -, hdocument, hquiet⟩ := h.of_entry hfile nofun
  · exact hsame
  · cases hlog
    exact absurd isQuiet_logMark hbytes
  · rw [hempty bytes rfl] at hbytes
    exact absurd isQuiet_nil hbytes
  · cases hdocument
    exact absurd hquiet hbytes

theorem Changes.file (h : Changes stores documents t u) {bytes : Bytes} (hbytes : ¬IsQuiet bytes)
    (hfile : u.entryAt? place = some (.file bytes)) : t.entryAt? place = some (.file bytes) := by
  induction h with
  | refl => exact hfile
  | tail _ hchange ih => exact ih (hchange.file hbytes hfile)

/-- What stands aside of logs was there before, if neither a store nor a document has come there. -/
theorem Changes.entry (h : Changes stores documents t u) (haside : place.Aside)
    (hstores : ∀ path, stores path → t.target path ≠ place) (hdocuments : ∀ path, documents path → t.target path ≠ place)
    {entry : Entry} (hentry : u.entryAt? place = some entry) (hfile : entry ≠ .directory) :
    t.entryAt? place = some entry := by
  induction h with
  | refl => exact hentry
  | tail hbefore hchange ih =>
    have htarget := target_of_working (Changes.working_eq hbefore)
    obtain hsame | ⟨hlog, -⟩ | ⟨path, hpath, hstore, -⟩ | ⟨path, _, hpath, hplace, -⟩ := hchange.of_entry hentry hfile
    · exact ih hsame
    · exact absurd haside hlog
    · exact absurd (htarget path ▸ storePlace?_eq_target hstore).symm (hstores path hpath)
    · exact absurd (htarget path ▸ locate_eq_target hplace).symm (hdocuments path hpath)

/-- The way to the file that a path leads to is there, if there is such a file. -/
def Located (path : String) (t : Files) : Prop :=
  ∀ entry, t.entryAt? (t.target path) = some entry → entry ≠ .directory → t.locate path = .ok (t.target path)

/-- A file that only documents written to its path can stand for is found by the path. -/
theorem Change.located (h : Change stores documents t u) (haside : (t.target path).Aside)
    (hstores : ∀ other, stores other → t.target other ≠ t.target path)
    (hdocuments : ∀ other, documents other → t.target other = t.target path → other = path)
    (ht : t.Located path) : u.Located path := by
  intro entry hentry hfile
  rw [target_of_working h.working_eq path] at hentry ⊢
  suffices hlocate : t.locate path = .ok (t.target path) from
    locate_of_directories h.working_eq (fun _ => h.directory_of) hlocate
  obtain hsame | ⟨hlog, -⟩ | ⟨other, hpath, hstore, -⟩ | ⟨other, _, hpath, hplace, -⟩ := h.of_entry hentry hfile
  · exact ht entry hsame hfile
  · exact absurd haside hlog
  · exact absurd (storePlace?_eq_target hstore).symm (hstores other hpath)
  · rw [hdocuments other hpath (locate_eq_target hplace).symm] at hplace
    exact hplace

theorem Changes.located (h : Changes stores documents t u) (haside : (t.target path).Aside)
    (hstores : ∀ other, stores other → t.target other ≠ t.target path)
    (hdocuments : ∀ other, documents other → t.target other = t.target path → other = path)
    (ht : t.Located path) : u.Located path := by
  induction h with
  | refl => exact ht
  | tail hbefore hchange ih =>
    have htarget := target_of_working (Changes.working_eq hbefore)
    simp only [← htarget] at haside hstores hdocuments
    exact hchange.located haside hstores hdocuments ih

/-! ## Users of stores -/

theorem not_aside_of_mem_logPlaces {place : Option Place} {other : Place} (h : other ∈ logPlaces place) :
    ¬other.Aside := by
  intro haside
  obtain ⟨ending, hending, h⟩ := List.mem_filterMap.1 h
  obtain ⟨store, -, rfl⟩ := Option.map_eq_some_iff.1 h
  exact haside store ending hending rfl

theorem changes_createDirectories (h : t.Furnished u) : Changes stores documents t u := by
  induction h with
  | refl => exact .refl
  | make _ hfree ih => exact ih.tail (.directory hfree)

theorem changes_erase (hdirectory : t.entryAt? place ≠ some .directory) :
    Change stores documents t { t with entries := t.entries.erase place } := by
  refine .loss fun other => ?_
  rw [entryAt?_erase hdirectory]
  split
  · rename_i hother
    exact .inr ⟨rfl, hother ▸ hdirectory⟩
  · exact .inl rfl

theorem changes_foldl {α : Type} {step : Files → α → Files} {xs : List α}
    (h : ∀ x ∈ xs, ∀ t, Changes stores documents t (step t x)) (t : Files) :
    Changes stores documents t (xs.foldl step t) := by
  induction xs generalizing t with
  | nil => exact .refl
  | cons x xs ih =>
    rw [List.forall_mem_cons] at h
    exact (h.1 t).trans (ih h.2 _)

theorem changes_createLogFile (hplace : ¬place.Aside) (t : Files) :
    Changes stores documents t (t.createLogFile place) := by
  unfold createLogFile
  split
  · exact .refl
  · rename_i hdirectory
    exact .single (.logFile hplace hdirectory)

theorem changes_removeLogFile (place : Place) (t : Files) : Changes stores documents t (t.removeLogFile place) := by
  unfold removeLogFile
  split
  · exact .refl
  · rename_i hdirectory
    exact .single (changes_erase hdirectory)

theorem changes_modifyLog {id : Nat} {change : Log → Log}
    (h : ∀ user ∈ (change (t.stores.getD id default).log).users,
      user ∈ (t.stores.getD id default).log.users ∨ user < t.users) :
    Changes stores documents t (t.modifyLog id change) := by
  have hlog : Changes stores documents t { t with
      stores := t.stores.set id { t.stores.getD id default with
        log := change (t.stores.getD id default).log } } := .single (.log h)
  unfold modifyLog
  simp only
  split
  · exact hlog
  · split
    · exact hlog.trans (changes_foldl (fun _ hplace => changes_createLogFile (not_aside_of_mem_logPlaces hplace)) _)
    · split
      · exact hlog.trans (changes_foldl (fun place _ => changes_removeLogFile place) _)
      · exact hlog

theorem changes_leaveStores (t : Files) (gone : Nat → Bool) : Changes stores documents t (t.leaveStores gone) := by
  refine changes_foldl (fun id _ t => changes_modifyLog fun user huser => ?_) t
  exact .inl ((List.mem_filter.1 huser).1)

theorem changes_commit (t : Files) {file : OpenFile} (huser : file.user < t.users) (contents : StoreContents) :
    Changes stores documents t ((t.setContents file.id contents).modifyLog file.id (.join file.user)) := by
  refine .head .contents (changes_modifyLog fun user hmem => ?_)
  unfold Log.join at hmem
  split at hmem
  · obtain rfl | hold := List.mem_cons.1 hmem
    · exact .inr huser
    · exact .inl hold
  · exact .inl hmem

/-- The number of the next user does not matter to logs. -/
theorem modifyLog_users (t : Files) (id : Nat) (change : Log → Log) (n : Nat) :
    { t with users := n }.modifyLog id change = { t.modifyLog id change with users := n } := by
  let renumber (t : Files) : Files := { t with users := n }
  have hcreate (places : List Place) (t : Files) :
      places.foldl createLogFile (renumber t) = renumber (places.foldl createLogFile t) := by
    refine List.foldl_hom renumber fun t place => ?_
    unfold createLogFile
    by_cases h : t.entryAt? place = some .directory
    · rw [if_pos h]
      exact if_pos h
    · rw [if_neg h]
      exact if_neg h
  have hremove (places : List Place) (t : Files) :
      places.foldl removeLogFile (renumber t) = renumber (places.foldl removeLogFile t) := by
    refine List.foldl_hom renumber fun t place => ?_
    unfold removeLogFile
    by_cases h : t.entryAt? place = some .directory
    · rw [if_pos h]
      exact if_pos h
    · rw [if_neg h]
      exact if_neg h
  let logged : Files := { t with
    stores := t.stores.set id { t.stores.getD id default with log := change (t.stores.getD id default).log } }
  have hfile : (renumber t).stores.getD id default = t.stores.getD id default := rfl
  have hentry : (renumber t).entryAt? = t.entryAt? := rfl
  change (renumber t).modifyLog id change = renumber (t.modifyLog id change)
  unfold modifyLog
  simp only [hfile, hentry]
  split
  · rfl
  · split
    · exact hcreate _ logged
    · split
      · exact hremove _ logged
      · rfl

theorem changes_createStore (hpath : stores path) (hplace : t.storePlace? path = some place) (kind : StoreKind)
    (journal : JournalMode) : Changes stores documents t (t.createStore place kind journal).2 := by
  unfold createStore
  split
  · have hmade : Changes stores documents t (((t.addStore (some place) kind).2.setEntry place
        (.store t.stores.length)).removeLogFile (place.beside logEnding)) :=
      .head (.store hpath hplace) (changes_removeLogFile _ _)
    have husers : (((t.addStore (some place) kind).2.setEntry place
        (.store t.stores.length)).removeLogFile (place.beside logEnding)).users = t.users + 1 := by
      unfold removeLogFile
      split <;> rfl
    have hstart : (Log.start journal t.users).users ⊆ [t.users] := by
      cases journal <;> simp [Log.start, Log.unused]
    -- The maker of the store is the last of the users so far.
    have hstarted : Changes stores documents _ (modifyLog _ t.stores.length fun _ => .start journal t.users) :=
      hmade.trans (changes_modifyLog fun user huser => .inr (by
        rw [husers, List.mem_singleton.1 (hstart huser)]
        exact Nat.lt_succ_self _))
    exact hstarted
  · simp only
    split
    · exact .refl
    · exact .single (.emptyFile hpath hplace)

theorem chosenLog_eq (t : Files) (place : Place) (id : Nat) (journal : JournalMode) :
    t.chosenLog place id journal =
      match if journal = .wal && !(t.stores.getD id default).log.inUse then journalFault place journal else none with
      | some fault => .error fault
      | none => match (t.stores.getD id default).log.choose? journal t.users with
        | none => .error .inUse
        | some log => .ok log := by
  unfold chosenLog
  simp only [bind, Except.bind, pure, Except.pure]
  split
  · cases journalFault place journal with
    | some fault => rfl
    | none =>
      simp only [Option.forM, pure, Except.pure]
      cases (t.stores.getD id default).log.choose? journal t.users <;> rfl
  · simp only
    cases (t.stores.getD id default).log.choose? journal t.users <;> rfl

theorem users_chosenLog {id : Nat} {journal : JournalMode} {log : Log}
    (h : t.chosenLog place id journal = .ok log) :
    ∀ user ∈ log.users, user ∈ (t.stores.getD id default).log.users ∨ user = t.users := by
  have hchoose : (t.stores.getD id default).log.choose? journal t.users = some log := by
    rw [chosenLog_eq] at h
    split at h
    · cases h
    · split at h
      · cases h
      · rename_i hchoose
        cases h
        exact hchoose
  intro user huser
  unfold Log.choose? at hchoose
  split at hchoose
  · cases hchoose
    exact (List.mem_cons.1 huser).symm
  · split at hchoose
    · cases hchoose
    · cases hchoose
      cases huser

theorem changes_joinStore (t : Files) (path : String) (place : Place) (id : Nat) (kind : StoreKind)
    (journal : JournalMode) : Changes stores documents t (t.joinStore path place id kind journal).2 := by
  have hjoined {log : Log} (hlog : t.chosenLog place id journal = .ok log) :
      Changes stores documents t { t.modifyLog id fun _ => log with users := t.users + 1 } := by
    rw [← modifyLog_users]
    refine .head (.users (Nat.le_succ _)) (changes_modifyLog fun user huser => ?_)
    obtain hold | rfl := users_chosenLog hlog user huser
    · exact .inl hold
    · exact .inr (Nat.lt_succ_self _)
  rcases hjoin : t.joinStore path place id kind journal with ⟨result, u⟩
  cases join_joinStore hjoin with
  | barred => exact .refl
  | joined hlog => exact hjoined hlog
  | gone _ hlog => exact (hjoined hlog).trans (changes_leaveStores _ _)

/-- Opening a store file, which may be at an address of another kind than its path. -/
theorem changes_openStore_at (hpath : ∀ filePath mayCreate,
      Address.ofPath? path = some (.file filePath mayCreate) → stores filePath) (t : Files)
    (kind : StoreKind) (journal : JournalMode) : Changes stores documents t (t.openStore path kind journal).2 := by
  rcases hopen : t.openStore path kind journal with ⟨result, u⟩
  obtain ⟨created, hfurnished, hattempt, -⟩ := attempt_openStore hopen
  refine (changes_createDirectories hfurnished).trans ?_
  cases hattempt with
  | refused => exact .refl
  | nowhere => exact .single .nowhere
  | joins _ _ _ hjoin =>
    rw [← hjoin]
    exact changes_joinStore ..
  | creates hfile hplace _ hcreate =>
    rw [← hcreate]
    exact changes_createStore (hpath _ _ hfile) hplace kind journal

/-- Stores know their places also after another one was opened, or could not be. -/
theorem Sound.openStore_at (ht : t.Sound) {kind : StoreKind} {journal : JournalMode}
    {result : Except StorageFault OpenFile} (h : t.openStore path kind journal = (result, u)) : u.Sound := by
  have hchanges : Changes (fun _ => True) (fun _ => False) t (t.openStore path kind journal).2 :=
    changes_openStore_at (fun _ _ _ => trivial) t kind journal
  rw [h] at hchanges
  exact hchanges.sound ht

/-- Opening a store file whose path is no address of its own. -/
theorem changes_openStore (hpath : stores path)
    (haddress : ∀ address, Address.ofPath? path = some address → address = .file path true) (t : Files)
    (kind : StoreKind) (journal : JournalMode) : Changes stores documents t (t.openStore path kind journal).2 := by
  refine changes_openStore_at (fun filePath mayCreate hfile => ?_) t kind journal
  rw [(Address.file.inj (haddress _ hfile)).1]
  exact hpath

theorem changes_removeFilesIn (t : Files) (path : String) : Changes stores documents t (t.removeFilesIn path) := by
  have hentry := removeFilesIn_cases t path
  unfold removeFilesIn at hentry ⊢
  split
  · exact .refl
  · rename_i hlocate
    simp only [hlocate] at hentry
    exact .single (.loss fun place => (hentry place).imp_right fun ⟨hdirectory, _, hnone⟩ => ⟨hnone, hdirectory⟩)

/-! ## Writers of documents -/

/-- Saving a document, whatever becomes of it. -/
theorem changes_save {α : Type} {s : JsonStore} {form : Json.Form α} {name : String} {value : α}
    (hpath : documents (s.filePath name)) (htemporary : documents (s.filePath (JsonStore.temporaryName name)))
    (hquiet : IsQuiet (form.write value).toIndented) (t : Files) :
    Changes stores documents t (s.save form name value t).2 := by
  have hbase : Changes stores documents t (s.createBase t).2 := by
    unfold JsonStore.createBase
    split
    · exact .refl
    · exact changes_createDirectories (Furnished.createDirectories t s.base)
  unfold JsonStore.save
  split
  · rename_i hcreate
    rw [hcreate] at hbase
    exact hbase
  · rename_i t₁ hcreate
    rw [hcreate] at hbase
    simp only
    split
    · exact hbase
    · rename_i t₂ hwrite
      obtain ⟨hlocate, hfree, hwritten⟩ := of_write hwrite
      have hchanges : Changes stores documents t t₂ :=
        hwritten ▸ hbase.tail (.document htemporary hlocate hfree hquiet)
      split
      · exact hchanges
      · rename_i hrename
        obtain ⟨hlocate', hfree', entry, hentry, hmoved, rfl⟩ := of_rename hrename
        have hworking : t₂.working = t₁.working := by rw [hwritten]; rfl
        -- What is moved is what was just written.
        have hbytes : entry = .file (form.write value).toIndented := by
          rw [target_of_working hworking, hwritten, entryAt?_setEntry hfree, if_pos rfl] at hentry
          exact (Option.some.inj hentry).symm
        subst hbytes
        have hsource : t₂.entryAt? (t₂.target (s.filePath (JsonStore.temporaryName name))) ≠ some .directory := by
          simp [hentry]
        have herase : Change stores documents t₂ _ := changes_erase hsource
        refine (hchanges.tail herase).tail (.document hpath ?_ ?_ hquiet)
        · exact locate_of_directories herase.working_eq (fun _ => herase.directory_of) hlocate'
        · rw [entryAt?_erase (by simp [hentry])]
          split
          · nofun
          · exact hfree'

end ClassDeps.Files
