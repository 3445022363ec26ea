import ClassDeps.Proofs.Cache.Attached
import ClassDeps.Proofs.Store.Handles

/-!
# Files of the wrong kind

A cache opens five files one after the other, and stops at the first one that it cannot use. If any of them is of the
wrong kind, then the cache is not opened; and whatever becomes of opening it, all stores stay where they are and hold
what they held.

## Main definitions

* `Files.Stands` — the store at the address of a path
* `Files.Kept` — a tree in which stores are where they were and hold what they held
* `Files.Harmless` — operations that lead from such trees to such trees

## Main statements

* `OpenCache.harmless_openStores` — opening the stores of a cache is harmless
* `OpenCache.kept_open`, `OpenCache.corrupted_of_kind` — opening a cache
* `Files.kinds_are_kept` — files keep their kinds and contents
-/

namespace ClassDeps

namespace Files

variable {touched : Place → Prop} {start t u : Files} {path filePath : String} {mayCreate : Bool} {kind : StoreKind}
  {journal : JournalMode} {id : Nat} {α β : Type}

/-- The store whose entry stands where the address of a path leads. -/
def Stands (t : Files) (path : String) (id : Nat) : Prop :=
  ∃ filePath mayCreate, Address.ofPath? path = some (.file filePath mayCreate) ∧
    t.entryAt? (t.target filePath) = some (.store id)

/-! ## Operations that leave stores alone -/

/-- A tree in which the stores of another one are where they were, but for some places, and hold what they held. -/
structure Kept (touched : Place → Prop) (start t : Files) : Prop where
  sound : t.Sound
  remains : Remains touched start t
  keeps : start.Keeps t

theorem Kept.refl (ht : t.Sound) : Kept touched t t :=
  ⟨ht, .refl t, .refl t⟩

/-- An operation after which stores are where they were and hold what they held, whatever becomes of it. It fails only
where files cannot be used. -/
def Harmless (touched : Place → Prop) (start : Files) (op : Files.Op α) : Prop :=
  ∀ ⦃t result u⦄, Kept touched start t → op t = (result, u) →
    Kept touched start u ∧ ∀ error, result = .error error → ∃ fault, error = .storage fault

namespace Harmless

theorem pure (a : α) : Harmless touched start (pure a : Files.Op α) := by
  intro t result u ht h
  cases h
  exact ⟨ht, nofun⟩

theorem bind {op : Files.Op α} {next : α → Files.Op β} (hop : Harmless touched start op)
    (hnext : ∀ a, Harmless touched start (next a)) : Harmless touched start (op >>= next) := by
  intro t result u ht h
  rw [bind_apply] at h
  match hfirst : op t with
  | (.ok a, v) =>
    rw [hfirst] at h
    exact hnext a (hop ht hfirst).1 h
  | (.error error, v) =>
    rw [hfirst] at h
    cases h
    refine ⟨(hop ht hfirst).1, fun error' heq => ?_⟩
    cases heq
    exact (hop ht hfirst).2 error rfl

end Harmless

/-- The log of the store at a path is at some places. -/
def LogWithin (touched : Place → Prop) (t : Files) (path : String) : Prop :=
  ∀ filePath mayCreate, Address.ofPath? path = some (.file filePath mayCreate) →
    ∀ place ∈ logPlaces (some (t.target filePath)), touched place

theorem Kept.openStore (h : Kept touched start t) (hlogs : LogWithin touched start path)
    {result : Except StorageFault OpenFile} (hopen : t.openStore path kind journal = (result, u)) :
    Kept touched start u where
  sound := h.sound.openStore_at hopen
  remains := h.remains.trans <| remains_openStore hopen h.sound fun filePath mayCreate haddress => by
    rw [target_of_working h.remains.working]
    exact hlogs filePath mayCreate haddress
  keeps := h.keeps.trans (keeps_openStore hopen)

theorem harmless_openKind (hlogs : LogWithin touched start path) (kind : StoreKind) (journal : JournalMode) :
    Harmless touched start (openKind path kind journal) := by
  intro t result u ht h
  unfold openKind at h
  split at h
  · rename_i hopen
    cases h
    exact ⟨ht.openStore hlogs hopen, nofun⟩
  · rename_i fault _ hopen
    cases h
    refine ⟨ht.openStore hlogs hopen, fun error heq => ?_⟩
    cases heq
    exact ⟨fault, rfl⟩

/-- Making directories is harmless. -/
theorem Kept.furnished (h : Kept touched start t) (hfurnished : t.Furnished u) : Kept touched start u where
  sound :=
    have hchanges : Changes (fun _ => False) (fun _ => False) t u := changes_createDirectories hfurnished
    hchanges.sound h.sound
  remains := h.remains.trans (.of_furnished hfurnished)
  keeps := h.keeps.trans (.of_eq hfurnished.stores_eq)

theorem Kept.entry (h : Kept touched start t) (hfree : ¬touched (start.target filePath))
    (hentry : start.entryAt? (start.target filePath) = some (.store id)) :
    t.entryAt? (t.target filePath) = some (.store id) := by
  rw [target_of_working h.remains.working]
  exact h.remains.store _ hfree id hentry

/-- Stores that were opened one after the other are of the kinds that they were opened as. -/
theorem Kept.kind_of_openAll {requests : List (String × StoreKind)} {files : List OpenFile} {r : String × StoreKind}
    (h : Kept touched start t) (hstart : start.Sound) (hlogs : ∀ r ∈ requests, LogWithin touched start r.1)
    (hr : r ∈ requests) (haddress : Address.ofPath? r.1 = some (.file filePath mayCreate))
    (hfree : ¬touched (start.target filePath))
    (hentry : start.entryAt? (start.target filePath) = some (.store id))
    (hopen : openAll journal requests t = (.ok files, u)) : (start.contents id).kind = r.2 := by
  induction requests generalizing t files with
  | nil => cases hr
  | cons first requests ih =>
    obtain ⟨file, rest, v, -, hfirst, hrest⟩ := openAll_cons_eq_ok_iff.1 hopen
    rw [List.forall_mem_cons] at hlogs
    have hnext := h.openStore hlogs.1 hfirst
    obtain rfl | hr := List.mem_cons.1 hr
    · have htaken := taken_of_openStore h.sound hfirst
      have hid := htaken.same _ _ _ haddress (h.entry hfree hentry)
      rw [← hnext.keeps.contents (hstart.entry _ _ hentry).1, ← hid]
      exact htaken.joined.kind
    · exact ih hnext hlogs.2 hr hrest

end Files

theorem KeyValueStore.harmless_open {κ α : Type} {touched : Place → Prop} {start : Files} {path : String}
    (hlogs : Files.LogWithin touched start path) (capacity : Nat) (journal : JournalMode) :
    Files.Harmless touched start
      (KeyValueStore.open path capacity journal : Files.Op (OpenStore (KeyValueStore κ α))) := by
  refine .bind (Files.harmless_openKind hlogs .keyValue journal) fun file t result u ht h => ?_
  cases h
  exact ⟨ht, nofun⟩

theorem MultiValueStore.harmless_open {κ : Type} {touched : Place → Prop} {start : Files} {path : String}
    (hlogs : Files.LogWithin touched start path) (journal : JournalMode) :
    Files.Harmless touched start (MultiValueStore.open path journal : Files.Op (OpenStore (MultiValueStore κ))) := by
  refine .bind (Files.harmless_openKind hlogs .multiValue journal) fun file t result u ht h => ?_
  cases h
  exact ⟨ht, nofun⟩

namespace OpenCache

open Files (Kept Harmless LogWithin)

variable {root : String} {config : Config} {touched : Place → Prop} {start t u : Files}
  {result : Except CacheError OpenCache}

/-! ## Opening a cache -/

theorem harmless_createRoot (root : String) : Harmless touched start (createRoot root) := by
  intro t result u ht h
  have hfurnished : t.Furnished (t.createDirectories root).2 := .createDirectories t root
  unfold createRoot at h
  match hmade : t.createDirectories root with
  | (.ok (), made) =>
    rw [hmade] at h hfurnished
    cases h
    exact ⟨ht.furnished hfurnished, nofun⟩
  | (.error fault, made) =>
    rw [hmade] at h hfurnished
    cases h
    refine ⟨ht.furnished hfurnished, fun error heq => ?_⟩
    cases heq
    exact ⟨_, rfl⟩

/-- Opening the stores of a cache is harmless, wherever it stops. -/
theorem harmless_openStores (hlogs : ∀ r ∈ requests root, LogWithin touched start r.1) (config : Config) :
    Harmless touched start (openStores root config) := by
  simp only [requests, storeFiles, List.map_cons, List.map_nil, List.forall_mem_cons] at hlogs
  obtain ⟨hclasses, hremote, hreferencers, hreferenced, hsubclasses, -⟩ := hlogs
  refine .bind (harmless_createRoot root) fun _ => ?_
  refine .bind (KeyValueStore.harmless_open hclasses _ _) fun _ => ?_
  refine .bind (KeyValueStore.harmless_open hremote _ _) fun _ => ?_
  refine .bind (MultiValueStore.harmless_open hreferencers _) fun _ => ?_
  refine .bind (MultiValueStore.harmless_open hreferenced _) fun _ => ?_
  exact .bind (MultiValueStore.harmless_open hsubclasses _) fun _ => .pure _

/-- The places of the logs of the files of a cache, whatever the address of these. -/
def LogAt (root : String) (t : Files) (place : Place) : Prop :=
  ∃ r ∈ requests root, ∃ filePath mayCreate, Address.ofPath? r.1 = some (.file filePath mayCreate) ∧
    place ∈ Files.logPlaces (some (t.target filePath))

theorem logWithin_logAt (t : Files) : ∀ r ∈ requests root, LogWithin (LogAt root t) t r.1 :=
  fun r hr filePath mayCreate haddress _ hplace => ⟨r, hr, filePath, mayCreate, haddress, hplace⟩

/-- The files of a cache stand at no place of a log of theirs. -/
theorem not_logAt {r : String × StoreKind} (hr : r ∈ requests root) {filePath : String} {mayCreate : Bool}
    (haddress : Address.ofPath? r.1 = some (.file filePath mayCreate)) (t : Files) :
    ¬LogAt root t (t.target filePath) := by
  rintro ⟨r', hr', filePath', mayCreate', haddress', hlog⟩
  obtain ⟨file, hfile, rfl⟩ := List.mem_map.1 hr
  obtain ⟨file', hfile', rfl⟩ := List.mem_map.1 hr'
  obtain ⟨address, hall⟩ | hroot := Address.ofPath?_join_cases root
  · rw [hall _ (isFile_storeFiles file hfile)] at haddress
    rw [hall _ (isFile_storeFiles file' hfile'), haddress] at haddress'
    cases haddress'
    exact Files.notMem_logPlaces _ hlog
  · have hname := isFile_storeFiles file hfile
    obtain ⟨directory, htarget⟩ := target_of_steps hname.isName (hroot _ hname _ _ haddress) t
    rw [htarget] at hlog
    exact Files.not_aside_of_mem_logPlaces hlog (aside_file hfile directory)

/-- Whatever becomes of opening a cache, all stores hold what they held, and its files are where they were. -/
theorem kept_open (ht : t.Sound) (h : OpenCache.open root config t = (result, u)) :
    Kept (LogAt root t) t u := by
  have hharmless : Harmless (LogAt root t) t (openStores root config) := harmless_openStores (logWithin_logAt t) config
  unfold OpenCache.open at h
  split at h
  · rename_i hopen
    cases h
    exact (hharmless (.refl ht) hopen).1
  · rename_i error after hopen
    cases h
    have hafter := (hharmless (.refl ht) hopen).1
    have hchanges : Files.Changes (fun _ => False) (fun _ => False) after (after.leaveStores (t.users ≤ ·)) :=
      Files.changes_leaveStores after _
    have hbounded : Files.Bounded (LogAt root t) (t.users ≤ ·) after := hafter.remains.bounded _ ht.confined
    exact {
      sound := hchanges.sound hafter.sound
      remains := hafter.remains.trans (.leaveStores hbounded fun user huser => of_decide_eq_true huser)
      keeps := hafter.keeps.trans (.leaveStores after _) }

/-- A cache with a file of the wrong kind is not opened. -/
theorem corrupted_of_kind (ht : t.Sound) (h : OpenCache.open root config t = (result, u)) {r : String × StoreKind}
    (hr : r ∈ requests root) {id : Nat} (hstands : t.Stands r.1 id) (hkind : (t.contents id).kind ≠ r.2) :
    ∃ fault, result = .error (.corrupted (.storage fault)) := by
  have hharmless : Harmless (LogAt root t) t (openStores root config) := harmless_openStores (logWithin_logAt t) config
  match result with
  | .ok c =>
    obtain ⟨made, hroot, hopen⟩ := exists_openAll h
    have hfurnished : t.Furnished (t.createDirectories root).2 := .createDirectories t root
    rw [hroot] at hfurnished
    obtain ⟨filePath, mayCreate, haddress, hentry⟩ := hstands
    exact absurd (((Kept.refl ht).furnished hfurnished).kind_of_openAll ht (logWithin_logAt t) hr haddress
      (not_logAt hr haddress t) hentry hopen) hkind
  | .error error =>
    unfold OpenCache.open at h
    split at h
    · cases h
    · rename_i hopen
      cases h
      obtain ⟨fault, rfl⟩ := (hharmless (.refl ht) hopen).2 _ rfl
      exact ⟨fault, rfl⟩

end OpenCache

namespace Files

/-- A file that was opened as a store of a kind keeps the kind and what was written last, whatever is tried. A cache
with a file of the wrong kind is not opened, and no file of a cache is lost when it is opened or could not be. -/
theorem kinds_are_kept {start : Files} (hsound : start.Sound) :
    (∀ {κ α ι : Type} {path : String} {t : Files} {held : List (Handle κ α ι)} {kind : StoreKind}
      {contents : StoreContents}, Address.IsPlain path → path ≠ "" → path ≠ ":memory:" → start.Unopened path →
        Handle.History path start t held (some (kind, contents)) → Handle.KeepsKind path kind contents held t) ∧
    ∀ {root : String} {config : Config} {u : Files} {result : Except CacheError OpenCache},
      OpenCache.open root config start = (result, u) →
        (start.Keeps u ∧ ∀ path ∈ OpenCache.storePaths root, ∀ id, start.Stands path id → u.Stands path id) ∧
          ((∃ r ∈ OpenCache.requests root, ∃ id, start.Stands r.1 id ∧ (start.contents id).kind ≠ r.2) →
            ∃ fault, result = .error (.corrupted (.storage fault))) := by
  refine ⟨fun hplain hempty hmemory hunopened history => ?_, fun h => ⟨⟨?_, ?_⟩, ?_⟩⟩
  · have haddress : ∀ address, Address.ofPath? _ = some address → address = .file _ true :=
      fun _ => Address.ofPath?_of_isPlain hplain hempty hmemory
    exact (history.accounts haddress hsound hunopened).keepsKind
  · exact (OpenCache.kept_open hsound h).keeps
  · rintro path hpath id ⟨filePath, mayCreate, haddress, hentry⟩
    obtain ⟨r, hr, rfl⟩ := List.mem_map.1 (OpenCache.storePaths_eq _ ▸ hpath)
    exact ⟨filePath, mayCreate, haddress,
      (OpenCache.kept_open hsound h).entry (OpenCache.not_logAt hr haddress _) hentry⟩
  · rintro ⟨r, hr, id, hstands, hkind⟩
    exact OpenCache.corrupted_of_kind hsound h hr hstands hkind

/-- A store with a row, which attempts to open it as a multi-value store leave as it is, one of them while it is open
and one later. A cache with a multi-value store in the stead of its records is not opened. -/
theorem kinds_are_kept_reopened :
    (∃ (t u : Files) (contents : StoreContents) (h : Handle SymbolId Bool SymbolId),
      Handle.History (κ := SymbolId) (α := Bool) (ι := SymbolId) "s.db" .empty t [] (some (.keyValue, contents)) ∧
        contents.rows.size = 1 ∧ Handle.open "s.db" 8 .memory .keyValue t = (.ok h, u) ∧ h.shown = contents) ∧
    ∃ (t u : Files) (fault : StorageFault), t.Stands (Path.join "" OpenCache.classesFile) 0 ∧
      OpenCache.open "" .standard t = (.error (.corrupted (.storage fault)), u) ∧ t.Keeps u ∧
        u.Stands (Path.join "" OpenCache.classesFile) 0 := by
  constructor
  · have keeps {t : Files} {held : List (Handle SymbolId Bool SymbolId)} {contents : StoreContents}
        (history : Handle.History "s.db" .empty t held (some (.keyValue, contents))) :=
      (kinds_are_kept sound_empty).1 (by decide +kernel) (by decide) (by decide) (fun _ _ => rfl) history
    let s : OpenStore (KeyValueStore SymbolId Bool) := ⟨⟨0, 0⟩, .ofRows "s.db" 8 .empty⟩
    have opened : Handle.History (κ := SymbolId) (α := Bool) (ι := SymbolId) "s.db" .empty
        (Files.empty.openStore "s.db" .keyValue .wal).2 [.keyValue s] (some (.keyValue, .keyValue .empty)) :=
      .opened .start (rfl : Handle.open "s.db" 8 .wal .keyValue .empty = (.ok (.keyValue s), _))
    have updated := @Handle.History.updated _ _ _ _ _ _ _ [] [] _ _ _ opened
      (.keyValue s (fun store => ((), store.put 1 true)) _)
    obtain ⟨_, _, hopen⟩ := (keeps updated).refused .multiValue (by decide) 8 .delete
    have closed := @Handle.History.closed _ _ _ _ _ _ [] [] _ _ (updated.failed hopen)
    obtain ⟨_, t, hopen⟩ := (keeps closed).refused .multiValue (by decide) 8 .memory
    have history := closed.failed hopen
    obtain ⟨h, u, hopen⟩ := (keeps history).opens rfl 8 .memory nofun
    exact ⟨t, u, _, h, history, rfl, hopen, ((keeps history).shows hopen).2⟩
  · obtain ⟨file, t, hopen, hstands, hkind⟩ : ∃ (file : OpenFile) (t : Files),
        Files.empty.openStore (Path.join "" OpenCache.classesFile) .multiValue .wal = (.ok file, t) ∧
          t.Stands (Path.join "" OpenCache.classesFile) 0 ∧ (t.contents 0).kind ≠ .keyValue :=
      ⟨_, _, rfl, ⟨OpenCache.classesFile, true, by decide +kernel, rfl⟩, nofun⟩
    obtain ⟨result, u, hcache⟩ : ∃ result u, OpenCache.open "" .standard t = (result, u) := ⟨_, _, rfl⟩
    obtain ⟨⟨hkeeps, hstays⟩, hcorrupted⟩ := (kinds_are_kept (sound_empty.openStore_at hopen)).2 hcache
    obtain ⟨fault, rfl⟩ := hcorrupted ⟨_, List.mem_cons_self, 0, hstands, hkind⟩
    exact ⟨t, u, fault, hstands, hcache, hkeeps, hstays _ List.mem_cons_self 0 hstands⟩

end Files

end ClassDeps
