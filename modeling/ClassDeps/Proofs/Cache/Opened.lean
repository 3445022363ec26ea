import ClassDeps.Proofs.Cache.Operations
import ClassDeps.Proofs.Files.Stores

/-!
# Caches and their files

An operation on an open cache is the same operation on what its files hold. Closing a cache and opening its files
again gives the cache with nothing in memory, which is how `Cache.reopened` comes about.

## Main definitions

* `OpenCache.Separate` — the stores of a cache are different files
* `OpenCache.perform` — operations on an open cache, one after the other

## Main statements

* `OpenCache.cache_run`, `cache_perform` — operations on files are operations on caches
* `OpenCache.open_eq_ok_iff` — opening a cache is opening its stores
* `OpenCache.cache_open` — a cache that was just opened
* `OpenCache.cache_reopen` — a cache that was opened, used, closed and opened again
-/

namespace ClassDeps

/-! ## Stores and their files -/

namespace OpenStore

variable {σ : Type} [Persistent σ] {s : OpenStore σ} {t : Files}

theorem length_commit (s : OpenStore σ) (t : Files) : (s.commit t).stores.length = t.stores.length := by
  rw [commit, Files.length_modifyLog, Files.length_setContents]

theorem length_run {β : Type} (s : OpenStore σ) (op : σ → β × σ) (t : Files) :
    (s.run op t).2.2.stores.length = t.stores.length :=
  length_commit _ t

/-- The file of a store holds its contents once they are committed, and no other file changes. -/
theorem contents_commit (hid : s.file.id < t.stores.length) (other : Nat) :
    (s.commit t).contents other =
      if other = s.file.id then Persistent.contents s.store else t.contents other := by
  rw [commit, Files.contents_modifyLog, Files.contents_setContents hid]

/-- What an operation makes of a store is what is in its file and in its memory afterwards. -/
theorem refreshed_run (hid : s.file.id < t.stores.length)
    (hsame : ∀ store : σ, Persistent.withContents (Persistent.contents store) store = store) {β : Type}
    (op : σ → β × σ) : (s.run op t).2.1.refreshed (s.run op t).2.2 = (op (s.refreshed t)).2 := by
  have hcontents := contents_commit (s := ⟨s.file, (op (s.refreshed t)).2⟩) hid s.file.id
  rw [if_pos rfl] at hcontents
  simp only [run]
  rw [refreshed, hcontents]
  exact hsame _

omit [Persistent σ] in
theorem keeps_close (s : OpenStore σ) (t : Files) : t.Keeps (s.close t) :=
  .leaveStores t _

end OpenStore

/-! ## Operations -/

namespace OpenCache

variable {c d : OpenCache} {t u : Files} {α : Type}

/-- The numbers of the files of a cache. -/
def ids (c : OpenCache) : List Nat :=
  [c.classes.file.id, c.remote.file.id, c.referencers.file.id, c.referenced.file.id,
    c.subclasses.file.id]

/-- The stores of a cache are different files, and the tree has all of them. -/
structure Separate (c : OpenCache) (t : Files) : Prop where
  nodup : c.ids.Nodup
  known : ∀ id ∈ c.ids, id < t.stores.length

theorem length_commit (c : OpenCache) (t : Files) : (c.commit t).stores.length = t.stores.length := by
  simp only [commit, OpenStore.length_commit]

/-- The last store that was written to a file decides what it holds. -/
theorem contents_commit (hknown : ∀ id ∈ c.ids, id < t.stores.length) (other : Nat) :
    (c.commit t).contents other =
      if other = c.subclasses.file.id then Persistent.contents c.subclasses.store
      else if other = c.referenced.file.id then Persistent.contents c.referenced.store
      else if other = c.referencers.file.id then Persistent.contents c.referencers.store
      else if other = c.remote.file.id then Persistent.contents c.remote.store
      else if other = c.classes.file.id then Persistent.contents c.classes.store
      else t.contents other := by
  simp only [ids, List.forall_mem_cons] at hknown
  obtain ⟨h₁, h₂, h₃, h₄, h₅, -⟩ := hknown
  simp only [commit]
  rw [OpenStore.contents_commit (by simpa only [OpenStore.length_commit] using h₅),
    OpenStore.contents_commit (by simpa only [OpenStore.length_commit] using h₄),
    OpenStore.contents_commit (by simpa only [OpenStore.length_commit] using h₃),
    OpenStore.contents_commit (by simpa only [OpenStore.length_commit] using h₂),
    OpenStore.contents_commit h₁]

/-- After a commit every file holds the contents of its store. -/
theorem cache_commit (h : c.Separate t) :
    c.cache (c.commit t) = ⟨c.root, c.classes.store, c.remote.store, c.referencers.store,
      c.referenced.store, c.subclasses.store⟩ := by
  obtain ⟨hnodup, hknown⟩ := h
  simp only [ids, List.nodup_cons, List.mem_cons, List.not_mem_nil, or_false, not_or] at hnodup
  obtain ⟨⟨h₁₂, h₁₃, h₁₄, h₁₅⟩, ⟨h₂₃, h₂₄, h₂₅⟩, ⟨h₃₄, h₃₅⟩, h₄₅, -⟩ := hnodup
  -- The numbers of the files differ, so that no store hides another one.
  simp only [cache, OpenStore.refreshed, contents_commit hknown, if_neg h₁₂, if_neg h₁₃, if_neg h₁₄, if_neg h₁₅,
    if_neg h₂₃, if_neg h₂₄, if_neg h₂₅, if_neg h₃₄, if_neg h₃₅, if_neg h₄₅, if_true]
  rfl

theorem separate_run (h : c.Separate t) (op : StateM Cache α) : (c.run op t).2.1.Separate (c.run op t).2.2 where
  nodup := h.nodup
  known id hid := by
    have hlength : (c.run op t).2.2.stores.length = t.stores.length := length_commit _ t
    rw [hlength]
    exact h.known id hid

/-- An operation on an open cache is the operation on what its files hold. -/
theorem cache_run (h : c.Separate t) (op : StateM Cache α) (hroot : (op (c.cache t)).2.root = c.root) :
    (c.run op t).2.1.cache (c.run op t).2.2 = (op (c.cache t)).2 := by
  have hsame : (c.withCache (op (c.cache t)).2).Separate t := ⟨h.nodup, h.known⟩
  refine (cache_commit hsame).trans ?_
  rw [withCache, ← hroot]

/-- Operations on an open cache, one after the other. -/
def perform (c : OpenCache) (operations : List Cache.Operation) (t : Files) : OpenCache × Files :=
  operations.foldl (fun state operation =>
    (state.1.run (fun cache => ((), operation.apply cache)) state.2).2) (c, t)

theorem cache_perform (h : c.Separate t) (operations : List Cache.Operation) :
    (c.perform operations t).1.Separate (c.perform operations t).2 ∧
      (c.perform operations t).1.ids = c.ids ∧
      (c.perform operations t).1.cache (c.perform operations t).2 = (c.cache t).run operations := by
  induction operations generalizing c t with
  | nil => exact ⟨h, rfl, rfl⟩
  | cons operation operations ih =>
    let op : StateM Cache Unit := fun cache => ((), operation.apply cache)
    have hroot : (op (c.cache t)).2.root = c.root :=
      Cache.root_apply operation (c.cache t)
    obtain ⟨hseparate, hids, hcache⟩ := ih (separate_run h op)
    rw [cache_run h op hroot] at hcache
    exact ⟨hseparate, hids, hcache⟩

/-! ## Opening and closing -/

end OpenCache

theorem Files.keeps_openKind {path : String} {kind : StoreKind} {journal : JournalMode} {t u : Files}
    {file : OpenFile} (h : Files.openKind path kind journal t = (.ok file, u)) : t.Keeps u := by
  unfold Files.openKind at h
  split at h
  · rename_i hopen
    cases h
    exact keeps_openStore hopen
  · cases h

theorem KeyValueStore.of_open {κ α : Type} {path : String} {capacity : Nat} {journal : JournalMode}
    {t u : Files} {s : OpenStore (KeyValueStore κ α)}
    (h : KeyValueStore.open path capacity journal t = (.ok s, u)) :
    t.Keeps u ∧ s.store = .ofRows path capacity s.store.rows := by
  obtain ⟨file, v, hfile, h⟩ := Files.exists_of_bind h
  cases h
  exact ⟨Files.keeps_openKind hfile, rfl⟩

theorem MultiValueStore.of_open {κ : Type} {path : String} {journal : JournalMode} {t u : Files}
    {s : OpenStore (MultiValueStore κ)} (h : MultiValueStore.open path journal t = (.ok s, u)) :
    t.Keeps u ∧ s.store = ⟨path, s.store.links⟩ := by
  obtain ⟨file, v, hfile, h⟩ := Files.exists_of_bind h
  cases h
  exact ⟨Files.keeps_openKind hfile, rfl⟩

namespace OpenCache

variable {c d : OpenCache} {t u : Files} {root : String} {config : Config}

theorem keeps_close (c : OpenCache) (t : Files) : t.Keeps (c.close t) :=
  ((((c.classes.keeps_close t).trans (c.remote.keeps_close _)).trans
    (c.referencers.keeps_close _)).trans (c.referenced.keeps_close _)).trans (c.subclasses.keeps_close _)

theorem createRoot_eq_ok_iff : createRoot root t = (.ok (), u) ↔ t.createDirectories root = (.ok (), u) := by
  unfold createRoot
  match t.createDirectories root with
  | (.ok (), _) => exact ⟨fun h => by cases h; rfl, fun h => by cases h; rfl⟩
  | (.error _, _) => exact iff_of_false nofun nofun

/-- A cache is opened if its directory can be made and its stores can be opened, one after the other. -/
theorem open_eq_ok_iff : OpenCache.open root config t = (.ok c, u) ↔
    c.root = root ∧ ∃ v₀ v₁ v₂ v₃ v₄, t.createDirectories root = (.ok (), v₀) ∧
      KeyValueStore.open (Path.join root classesFile) config.cacheSize.toNat config.journalMode v₀ =
        (.ok c.classes, v₁) ∧
      KeyValueStore.open (Path.join root remoteFile) config.cacheSize.toNat config.journalMode v₁ =
        (.ok c.remote, v₂) ∧
      MultiValueStore.open (Path.join root referencersFile) config.journalMode v₂ = (.ok c.referencers, v₃) ∧
      MultiValueStore.open (Path.join root referencedFile) config.journalMode v₃ = (.ok c.referenced, v₄) ∧
      MultiValueStore.open (Path.join root subclassesFile) config.journalMode v₄ = (.ok c.subclasses, u) := by
  have hopen : OpenCache.open root config t = (.ok c, u) ↔ openStores root config t = (.ok c, u) := by
    unfold OpenCache.open
    match openStores root config t with
    | (.ok _, _) => exact ⟨fun h => by cases h; rfl, fun h => by cases h; rfl⟩
    | (.error _, _) => exact iff_of_false nofun nofun
  rw [hopen]
  constructor
  · intro h
    obtain ⟨⟨⟩, v₀, hroot, h⟩ := Files.exists_of_bind h
    obtain ⟨classes, v₁, hclasses, h⟩ := Files.exists_of_bind h
    obtain ⟨remote, v₂, hremote, h⟩ := Files.exists_of_bind h
    obtain ⟨referencers, v₃, hreferencers, h⟩ := Files.exists_of_bind h
    obtain ⟨referenced, v₄, hreferenced, h⟩ := Files.exists_of_bind h
    obtain ⟨subclasses, v₅, hsubclasses, h⟩ := Files.exists_of_bind h
    cases h
    exact ⟨rfl, v₀, v₁, v₂, v₃, v₄, createRoot_eq_ok_iff.1 hroot, hclasses, hremote, hreferencers, hreferenced,
      hsubclasses⟩
  · rintro ⟨rfl, v₀, v₁, v₂, v₃, v₄, hroot, hclasses, hremote, hreferencers, hreferenced, hsubclasses⟩
    rw [openStores, Files.bind_apply, createRoot_eq_ok_iff.2 hroot]
    simp only [Files.bind_apply, hclasses, hremote, hreferencers, hreferenced, hsubclasses]
    rfl

/-- A cache that was just opened has the contents of its files, and nothing in memory. -/
theorem cache_open (h : OpenCache.open root config t = (.ok c, u)) :
    t.Keeps u ∧ c.cache u = {
      root
      classes := .ofRows (Path.join root classesFile) config.cacheSize.toNat
        (u.contents c.classes.file.id).rows
      remote := .ofRows (Path.join root remoteFile) config.cacheSize.toNat
        (u.contents c.remote.file.id).rows
      referencers := ⟨Path.join root referencersFile, (u.contents c.referencers.file.id).links⟩
      referenced := ⟨Path.join root referencedFile, (u.contents c.referenced.file.id).links⟩
      subclasses := ⟨Path.join root subclassesFile, (u.contents c.subclasses.file.id).links⟩ } := by
  obtain ⟨rfl, v₀, v₁, v₂, v₃, v₄, hroot, hclasses, hremote, hreferencers, hreferenced, hsubclasses⟩ :=
    open_eq_ok_iff.1 h
  obtain ⟨hkeeps₁, hclasses⟩ := KeyValueStore.of_open hclasses
  obtain ⟨hkeeps₂, hremote⟩ := KeyValueStore.of_open hremote
  obtain ⟨hkeeps₃, hreferencers⟩ := MultiValueStore.of_open hreferencers
  obtain ⟨hkeeps₄, hreferenced⟩ := MultiValueStore.of_open hreferenced
  obtain ⟨hkeeps₅, hsubclasses⟩ := MultiValueStore.of_open hsubclasses
  have hkeeps₀ : t.Keeps v₀ := by
    have hv₀ : (t.createDirectories c.root).2 = v₀ := congrArg Prod.snd hroot
    exact .of_eq (hv₀ ▸ (Files.Furnished.createDirectories t c.root).stores_eq)
  refine ⟨((((hkeeps₀.trans hkeeps₁).trans hkeeps₂).trans hkeeps₃).trans hkeeps₄).trans hkeeps₅, ?_⟩
  simp only [cache, OpenStore.refreshed]
  rw [hclasses, hremote, hreferencers, hreferenced, hsubclasses]
  rfl

theorem paths_open (h : OpenCache.open root config t = (.ok c, u)) :
    (c.cache u).paths = root :: storePaths root := by
  rw [(cache_open h).2]
  rfl

/-- A cache that is closed, and whose files are opened again, is the cache with nothing in memory. -/
theorem cache_close_open (h : c.Separate t) (hpaths : (c.cache t).paths = root :: storePaths root)
    (hopen : OpenCache.open root config (c.close t) = (.ok d, u)) (hids : d.ids = c.ids) :
    d.cache u = (c.cache t).reopened config.cacheSize.toNat := by
  obtain ⟨hkeeps, hcache⟩ := cache_open hopen
  have hkeeps := (c.keeps_close t).trans hkeeps
  -- Neither closing nor opening changes a file that is there already.
  have hcontents : ∀ id ∈ c.ids, u.contents id = t.contents id :=
    fun id hid => hkeeps.contents (h.known id hid)
  simp only [ids, List.forall_mem_cons] at hcontents
  obtain ⟨h₁, h₂, h₃, h₄, h₅, -⟩ := hcontents
  simp only [ids, List.cons.injEq, and_true] at hids
  obtain ⟨e₁, e₂, e₃, e₄, e₅⟩ := hids
  simp only [Cache.paths, storePaths, List.map_cons, List.cons.injEq, cache] at hpaths
  obtain ⟨rfl, p₁, p₂, p₃, p₄, p₅, -⟩ := hpaths
  rw [hcache, e₁, e₂, e₃, e₄, e₅, h₁, h₂, h₃, h₄, h₅, ← p₁, ← p₂, ← p₃, ← p₄, ← p₅]
  rfl

/-- What a cache answers after it was opened, used, closed and opened again is what `Cache.reopened` answers. -/
theorem cache_reopen {v : Files} {settings : Config} (hopen : OpenCache.open root config t = (.ok c, u))
    (h : c.Separate u) (operations : List Cache.Operation)
    (hreopen : OpenCache.open root settings
      ((c.perform operations u).1.close (c.perform operations u).2) = (.ok d, v)) (hids : d.ids = c.ids) :
    d.cache v = ((c.cache u).run operations).reopened settings.cacheSize.toNat := by
  obtain ⟨hseparate, hsame, hcache⟩ := cache_perform h operations
  have hpaths := ((c.cache u).paths_run operations).trans (paths_open hopen)
  rw [← hcache] at hpaths ⊢
  exact cache_close_open hseparate hpaths hreopen (hids.trans hsame.symm)

end OpenCache

end ClassDeps
