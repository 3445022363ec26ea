import ClassDeps.Proofs.Cache.Reopened

/-!
# What operations write

An operation on an open cache writes its stores back to their files and opens their logs. Whoever has opened the stores
has opened the logs already, so that nothing changes but the contents of the stores.

## Main definitions

* `Files.Commits` — trees after writing some stores
* `Files.Attached` — stores that someone has opened, with their logs
* `Files.Amended` — a tree in which stores hold something else

## Main statements

* `OpenCache.commits_run` — what an operation writes
* `Files.Commits.amended` — writing stores that are open
-/

namespace ClassDeps

namespace Files

open Relation (ReflTransGen)

variable {handles : List (OpenFile × StoreKind)} {touched : Place → Prop} {t u v : Files}

/-- A store is written by one of some handles. -/
def Commit (handles : List (OpenFile × StoreKind)) (t u : Files) : Prop :=
  ∃ handle ∈ handles, ∃ contents : StoreContents, contents.kind = handle.2 ∧
    u = (t.setContents handle.1.id contents).modifyLog handle.1.id (.join handle.1.user)

/-- Stores are written by some handles. -/
abbrev Commits (handles : List (OpenFile × StoreKind)) : Files → Files → Prop :=
  ReflTransGen (Commit handles)

/-- Writing stores by known users is a change like others. -/
theorem Commits.changes (h : Commits handles t u) (husers : ∀ handle ∈ handles, handle.1.user < t.users)
    {stores documents : String → Prop} : Changes stores documents t u := by
  induction h with
  | refl => exact .refl
  | tail _ hcommit ih =>
    obtain ⟨handle, hhandle, contents, -, rfl⟩ := hcommit
    exact ih.trans (changes_commit _ (Nat.lt_of_lt_of_le (husers handle hhandle) (Changes.users_le ih)) contents)

/-! ## Stores that are open -/

/-- Some handles are of stores of their kind, and have the logs open that these ask for. -/
def Attached (handles : List (OpenFile × StoreKind)) (t : Files) : Prop :=
  ∀ handle ∈ handles, (t.contents handle.1.id).kind = handle.2 ∧
    ((t.stores.getD handle.1.id default).log.inUse = true →
      handle.1.user ∈ (t.stores.getD handle.1.id default).log.users)

/-- A tree in which nothing changed but what stores hold. -/
structure Amended (t u : Files) : Prop where
  entries : u.entries = t.entries
  users : u.users = t.users
  working : u.working = t.working
  length : u.stores.length = t.stores.length
  file : ∀ id, u.stores.getD id default = { t.stores.getD id default with contents := u.contents id } ∧
    (u.contents id).kind = (t.contents id).kind

theorem modifyLog_same {id : Nat} {change : Log → Log}
    (h : change (t.stores.getD id default).log = (t.stores.getD id default).log) : t.modifyLog id change = t := by
  have hset : t.stores.set id (t.stores.getD id default) = t.stores := by
    by_cases hid : id < t.stores.length
    · rw [List.getD_eq_getElem?_getD, List.getElem?_eq_getElem hid, Option.getD_some, List.set_getElem_self]
    · exact List.set_eq_of_length_le (Nat.le_of_not_lt hid)
  unfold modifyLog
  simp only
  rw [h, if_pos rfl]
  change { t with stores := t.stores.set id (t.stores.getD id default) } = t
  rw [hset]

namespace Amended

theorem refl (t : Files) : Amended t t :=
  ⟨rfl, rfl, rfl, rfl, fun _ => ⟨rfl, rfl⟩⟩

theorem trans (h : Amended t u) (h' : Amended u v) : Amended t v where
  entries := h'.entries.trans h.entries
  users := h'.users.trans h.users
  working := h'.working.trans h.working
  length := h'.length.trans h.length
  file id := ⟨by rw [(h'.file id).1, (h.file id).1], (h'.file id).2.trans (h.file id).2⟩

theorem setContents {id : Nat} {contents : StoreContents} (h : contents.kind = (t.contents id).kind) :
    Amended t (t.setContents id contents) where
  entries := rfl
  users := rfl
  working := rfl
  length := t.length_setContents id contents
  file other := by
    simp only [Files.contents, getD_setContents]
    split
    · rename_i hother
      rw [hother.1]
      exact ⟨rfl, h⟩
    · exact ⟨rfl, rfl⟩

theorem follows (h : Amended t u) : Follows touched t u where
  toAgree := .of_entries h.working h.entries
  length := h.length
  alike id := by
    obtain ⟨hfile, hkind⟩ := h.file id
    refine ⟨?_, hkind, ?_, ?_⟩ <;> rw [hfile]

theorem attached (h : Amended t u) (hattached : Attached handles t) : Attached handles u := by
  intro handle hhandle
  obtain ⟨hfile, hkind⟩ := h.file handle.1.id
  obtain ⟨hheld, hjoined⟩ := hattached handle hhandle
  refine ⟨hkind.trans hheld, ?_⟩
  rw [hfile]
  exact hjoined

theorem confined (h : Amended t u) {n : Nat} (hconfined : Confined touched n t) : Confined touched n u := by
  intro id user huser hle place hplace
  rw [(h.file id).1] at huser hplace
  exact hconfined id user huser hle place hplace

theorem held (h : Amended t u) {journal : JournalMode} {path : String} {kind : StoreKind} {file : OpenFile}
    (hheld : Held journal path kind file t) : Held journal path kind file u where
  standing :=
    have hfollows : Follows (fun _ => False) t u := h.follows
    hheld.standing.follows hfollows id
  joined := by
    rw [(h.file file.id).1]
    exact hheld.joined
  user := h.users ▸ hheld.user

end Amended

theorem join_of_attached {user : Nat} {log : Log} (h : log.inUse = true → user ∈ log.users) :
    log.join user = log := by
  unfold Log.join
  split
  · rename_i hnew
    simp only [Bool.and_eq_true, Bool.not_eq_true', List.contains_eq_mem, decide_eq_false_iff_not] at hnew
    exact absurd (h hnew.1) hnew.2
  · rfl

/-- Writing stores that are open changes nothing but what they hold. -/
theorem Commits.amended (h : Commits handles t u) (hattached : Attached handles t) :
    Amended t u := by
  induction h with
  | refl => exact .refl t
  | @tail v w _ hcommit ih =>
    obtain ⟨handle, hhandle, contents, hkind, rfl⟩ := hcommit
    obtain ⟨hheld, -⟩ := ih.attached hattached handle hhandle
    have hset : Amended v (v.setContents handle.1.id contents) := .setContents (hkind.trans hheld.symm)
    obtain ⟨-, hjoined⟩ := hset.attached (ih.attached hattached) handle hhandle
    rw [modifyLog_same (join_of_attached hjoined)]
    exact ih.trans hset

end Files

namespace OpenCache

open Files (Commits Attached)

variable {c : OpenCache} {root : String} {journal : JournalMode} {t u : Files}

/-- The handles of a cache, with the kinds of their stores. -/
def handles (c : OpenCache) : List (OpenFile × StoreKind) :=
  [(c.classes.file, .keyValue), (c.remote.file, .keyValue), (c.referencers.file, .multiValue),
    (c.referenced.file, .multiValue), (c.subclasses.file, .multiValue)]

theorem commit_of_mem {σ : Type} [Persistent σ] {s : OpenStore σ} {kind : StoreKind}
    {handles : List (OpenFile × StoreKind)} (hkind : (Persistent.contents s.store).kind = kind)
    (hhandle : (s.file, kind) ∈ handles) (t : Files) : Files.Commit handles t (s.commit t) :=
  ⟨(s.file, kind), hhandle, Persistent.contents s.store, hkind, rfl⟩

theorem commits_commit (c : OpenCache) (t : Files) : Commits c.handles t (c.commit t) := by
  have hclasses : (Persistent.contents c.classes.store).kind = .keyValue := rfl
  have hremote : (Persistent.contents c.remote.store).kind = .keyValue := rfl
  have hreferencers : (Persistent.contents c.referencers.store).kind = .multiValue := rfl
  have hreferenced : (Persistent.contents c.referenced.store).kind = .multiValue := rfl
  have hsubclasses : (Persistent.contents c.subclasses.store).kind = .multiValue := rfl
  exact ((((Relation.ReflTransGen.single (commit_of_mem hclasses (by simp [handles]) t)).tail
    (commit_of_mem hremote (by simp [handles]) _)).tail (commit_of_mem hreferencers (by simp [handles]) _)).tail
    (commit_of_mem hreferenced (by simp [handles]) _)).tail (commit_of_mem hsubclasses (by simp [handles]) _)

/-- An operation writes the stores of its cache. -/
theorem commits_run {α : Type} (c : OpenCache) (op : StateM Cache α) (t : Files) :
    Commits c.handles t (c.run op t).2.2 :=
  commits_commit (c.withCache (op (c.cache t)).2) t

/-- A cache that was opened has its stores and their logs open. -/
theorem attached_of_held
    (h : List.Forall₂ (fun r file => Files.Held journal r.1 r.2 file t) (requests root) c.files) :
    Attached c.handles t := by
  have hattached {path : String} {kind : StoreKind} {file : OpenFile}
      (hheld : Files.Held journal path kind file t) : (t.contents file.id).kind = kind ∧
        ((t.stores.getD file.id default).log.inUse = true →
          file.user ∈ (t.stores.getD file.id default).log.users) :=
    ⟨StoreFile.kind_of_check hheld.standing.check, hheld.joined⟩
  simp only [requests, storeFiles, files, List.map_cons, List.forall₂_cons] at h
  obtain ⟨hclasses, hremote, hreferencers, hreferenced, hsubclasses, -⟩ := h
  simp only [Attached, handles, List.forall_mem_cons]
  exact ⟨hattached hclasses, hattached hremote, hattached hreferencers, hattached hreferenced, hattached hsubclasses,
    List.forall_mem_nil _⟩

/-- The users of a cache that was opened are known. -/
theorem users_of_held
    (h : List.Forall₂ (fun r file => Files.Held journal r.1 r.2 file t) (requests root) c.files) :
    ∀ handle ∈ c.handles, handle.1.user < t.users := by
  simp only [requests, storeFiles, files, List.map_cons, List.forall₂_cons] at h
  obtain ⟨hclasses, hremote, hreferencers, hreferenced, hsubclasses, -⟩ := h
  simp only [handles, List.forall_mem_cons]
  exact ⟨hclasses.user, hremote.user, hreferencers.user, hreferenced.user, hsubclasses.user, List.forall_mem_nil _⟩

/-- The stores of a cache that was opened are different files, since they stand at different places. -/
theorem separate_of_held
    (h : List.Forall₂ (fun r file => Files.Held journal r.1 r.2 file t) (requests root) c.files) : c.Separate t := by
  have hplaces {requests : List (String × StoreKind)} {files : List OpenFile}
      (h : List.Forall₂ (fun r file => Files.Held journal r.1 r.2 file t) requests files) :
      files.map (fun file => (t.stores.getD file.id default).place) = requests.map fun r => some (t.target r.1) := by
    induction h with
    | nil => rfl
    | cons hheld _ ih => rw [List.map_cons, List.map_cons, hheld.standing.home, ih]
  refine ⟨?_, fun id hid => ?_⟩
  · have hnodup := (nodup_targets t root).map (Option.some_injective Place)
    rw [List.map_map, show (requests root).map (some ∘ fun r => t.target r.1) =
      (requests root).map fun r => some (t.target r.1) from rfl, ← hplaces h] at hnodup
    rw [ids_eq]
    refine List.Nodup.of_map (fun id => (t.stores.getD id default).place) ?_
    rw [List.map_map]
    exact hnodup
  · rw [ids_eq] at hid
    obtain ⟨file, hfile, rfl⟩ := List.mem_map.1 hid
    obtain ⟨i, hi, rfl⟩ := List.getElem_of_mem hfile
    exact (h.get (h.length_eq ▸ hi) hi).standing.known

end OpenCache

end ClassDeps
