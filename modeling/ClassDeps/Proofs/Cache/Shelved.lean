import ClassDeps.Proofs.Cache.Roster
import ClassDeps.Proofs.Cache.Wiped
import ClassDeps.Proofs.Files.Rows

/-!
# Records while no cache is open

Between two uses of a directory its records and markers are the rows of the files at their places. Opening changes none
of them, and takes them up; closing leaves them as the cache had them, and wiping leaves none.

## Main definitions

* `OpenCache.shelved` — the records and markers in the files of a directory
* `OpenCache.Placed` — a cache whose records and markers are in the files at their places

## Main statements

* `OpenCache.rowsAt_open` — opening changes no rows, whatever becomes of it
* `OpenCache.roster_open`, `Placed.roster` — the roster of a directory is that of its cache
* `OpenCache.Usable.rowsAt_wipe` — wiping leaves no rows
-/

namespace ClassDeps

/-- A store that takes up the rows of a coherent one is coherent. -/
theorem KeyValueStore.Coherent.of_rows_eq {κ α : Type} [StoreKey κ] [Storable α] {s : KeyValueStore κ α} (h : s.Coherent)
    {rows : Ordered.Map Bytes Bytes} (hrows : rows = s.rows) (path : String) (capacity : Nat) :
    (KeyValueStore.ofRows path capacity rows : KeyValueStore κ α).Coherent :=
  .ofRows fun hrow => h.written (hrows ▸ hrow)

namespace OpenCache

open Files (Spares Stays)

variable {root path : String} {config : Config} {c : OpenCache} {t u : Files} {live : String → Prop}
  {table : SymbolTable}

/-- The records and markers in the files of a directory, with nothing else and nothing in memory. -/
def shelved (root : String) (t : Files) : Cache :=
  { Cache.fresh root 0 with
    classes := .ofRows (Path.join root classesFile) 0 (t.rowsAt (Path.join root classesFile))
    remote := .ofRows (Path.join root remoteFile) 0 (t.rowsAt (Path.join root remoteFile)) }

theorem shelved_congr (h : ∀ path ∈ storePaths root, u.rowsAt path = t.rowsAt path) : shelved root u = shelved root t := by
  rw [shelved, shelved, h _ (by simp [storePaths]), h _ (by simp [storePaths])]

/-- Where there are no rows, nothing is listed. -/
theorem roster_shelved_of_empty (h : ∀ path ∈ storePaths root, t.rowsAt path = .empty) (table : SymbolTable) :
    (shelved root t).Roster (fun _ => False) table := by
  have hclasses : (shelved root t).classes.rows = .empty := h _ (by simp [storePaths])
  have hremote : (shelved root t).remote.rows = .empty := h _ (by simp [storePaths])
  have hfresh := Cache.Coherent.fresh root 0
  exact .nothing ⟨hfresh.classes.of_rows_eq hclasses _ _, hfresh.remote.of_rows_eq hremote _ _⟩ hclasses table

theorem exists_of_mem_storePaths (h : path ∈ storePaths root) : ∃ r ∈ requests root, r.1 = path :=
  List.mem_map.1 (storePaths_eq root ▸ h)

/-! ## Opening -/

/-- Opening a cache changes no rows, whatever becomes of it. -/
theorem rowsAt_open (ht : t.Sound) (root : String) (config : Config) (hpath : path ∈ storePaths root) :
    (OpenCache.open root config t).2.rowsAt path = t.rowsAt path := by
  have hstays : Stays t (OpenCache.open root config t).2 :=
    relates_open .refl .trans (fun t => .of_furnished (.createDirectories t root))
      (fun path _ kind journal t => .openStore t path kind journal) (fun gone t => .leaveStores t gone) config t
  have hkeeps : t.Keeps (OpenCache.open root config t).2 :=
    relates_open .refl .trans (fun t => .of_eq (Files.Furnished.createDirectories t root).stores_eq)
      (fun path _ kind journal t => Files.keeps_openStore rfl) (fun gone t => .leaveStores t gone) config t
  have hspares : Spares (fun _ => False) (fun contents => ∃ kind, contents = .empty kind) t
      (OpenCache.open root config t).2 := spares_open nofun (fun kind => ⟨kind, rfl⟩) root config t
  obtain ⟨r, hr, rfl⟩ := exists_of_mem_storePaths hpath
  exact hstays.rowsAt_eq ht hkeeps hspares (aside_target hr t)

/-- The stores of the records and of the markers are those in the files at their places. -/
structure Placed (root : String) (c : OpenCache) (t : Files) : Prop where
  classes : t.entryAt? (t.target (Path.join root classesFile)) = some (.store c.classes.file.id)
  remote : t.entryAt? (t.target (Path.join root remoteFile)) = some (.store c.remote.file.id)

theorem placed_open (hplain : Address.IsPlain root) (ht : t.Sound) (h : OpenCache.open root config t = (.ok c, u)) :
    Placed root c u := by
  obtain ⟨hheld, -⟩ := held_open hplain ht h
  simp only [requests, storeFiles, files, List.map_cons, List.forall₂_cons] at hheld
  obtain ⟨hclasses, hremote, -⟩ := hheld
  exact ⟨hclasses.1.standing.entry, hremote.1.standing.entry⟩

namespace Placed

theorem rows_eq (h : Placed root c t) :
    (c.cache t).classes.rows = (shelved root t).classes.rows ∧ (c.cache t).remote.rows = (shelved root t).remote.rows :=
  ⟨(Files.rowsAt_of_store h.classes).symm, (Files.rowsAt_of_store h.remote).symm⟩

/-- The roster of a cache is that of its directory. -/
theorem roster (h : Placed root c t) (hroster : (c.cache t).Roster live table) : (shelved root t).Roster live table := by
  obtain ⟨hclasses, hremote⟩ := h.rows_eq
  exact hroster.of_rows ⟨hroster.classes.of_rows_eq hclasses.symm _ _, hroster.remote.of_rows_eq hremote.symm _ _⟩
    hclasses.symm

/-- Places of stores are those of the same cache for as long as the entries stay. -/
theorem of_entries {d : OpenCache} (h : Placed root c t) (hhandles : d.handles = c.handles)
    (hworking : u.working = t.working) (hentry : ∀ path ∈ storePaths root, ∀ id,
      t.entryAt? (t.target path) = some (.store id) → u.entryAt? (t.target path) = some (.store id)) :
    Placed root d u := by
  have hids := congrArg (List.map fun handle : OpenFile × StoreKind => handle.1.id) hhandles
  simp only [handles, List.map_cons, List.cons.injEq] at hids
  obtain ⟨hclasses, hremote, -⟩ := hids
  constructor
  · rw [Files.target_of_working hworking, hclasses]
    exact hentry _ (by simp [storePaths]) _ h.classes
  · rw [Files.target_of_working hworking, hremote]
    exact hentry _ (by simp [storePaths]) _ h.remote

end Placed

/-- A cache that was opened has the roster of its directory. -/
theorem roster_open (hplain : Address.IsPlain root) (ht : t.Sound) (h : OpenCache.open root config t = (.ok c, u))
    (hroster : (shelved root t).Roster live table) : (c.cache u).Roster live table := by
  obtain ⟨hclasses, hremote⟩ := (placed_open hplain ht h).rows_eq
  have hsame : shelved root u = shelved root t := shelved_congr fun path hpath => by
    have hrows := rowsAt_open ht root config hpath
    rwa [h] at hrows
  rw [hsame] at hclasses hremote
  have hcache := (cache_open h).2
  rw [hcache] at hclasses hremote ⊢
  exact hroster.of_rows ⟨hroster.classes.of_rows_eq hclasses _ _, hroster.remote.of_rows_eq hremote _ _⟩ hclasses

/-! ## The end -/

/-- Closing a cache changes no rows. -/
theorem Usable.rowsAt_close (h : Usable root c t) (ht : t.Sound) (hpath : path ∈ storePaths root) :
    (c.close t).rowsAt path = t.rowsAt path := by
  obtain ⟨⟨hworking, -, hentry⟩, -, -⟩ := h.follows_close
  obtain ⟨r, hr, rfl⟩ := exists_of_mem_storePaths hpath
  have hsame := hentry _ fun hlog => hlog.not_aside (aside_target hr t)
  refine Files.rowsAt_congr hworking (fun id => by rw [hsame]) fun id hid => ?_
  exact (c.keeps_close t).contents (ht.entry _ _ hid).1

/-- Wiping a cache leaves no rows: nothing but directories is left at the places of its stores. -/
theorem Usable.rowsAt_wipe (h : Usable root c t) (hpath : path ∈ storePaths root) : (c.wipe t).rowsAt path = .empty := by
  obtain ⟨r, hr, rfl⟩ := exists_of_mem_storePaths hpath
  obtain ⟨file, hfile, rfl⟩ := List.mem_map.1 hr
  refine Files.rowsAt_of_free fun id hstore => ?_
  rw [Files.target_of_working h.working_wipe, target_file t root hfile] at hstore
  cases h.eq_directory_of_wipe List.dropLast_concat hstore

end OpenCache

end ClassDeps
