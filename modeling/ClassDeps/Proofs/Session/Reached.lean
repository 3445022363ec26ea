import ClassDeps.Proofs.Cache.Attached
import ClassDeps.Proofs.Session.Settled
import ClassDeps.Proofs.Session.Twins

/-!
# Sessions that can be reached

A directory starts without stores. Sessions on it are opened, run commands that may fail, and end; others change files
meanwhile, also while a session is open. As long as sessions save their symbols when they end, everything in the stores
was made of documents with the numbers of the symbols, whatever else happens.

## Main definitions

* `Session.Moment`, `Session.Reached` — what can become of a directory
* `Session.Run.Healthy` — what holds of an open session

## Main statements

* `Session.Run.Leads.healthy` — what commands keep
* `Session.Reached.healthy` — sessions that can be reached
-/

namespace ClassDeps

open Files (Attached Changes Spares)

theorem Apart.since {root : String} {n : Nat} {t u : Files} (h : Apart root t u) (hsince : OpenCache.Since root n t) :
    OpenCache.Since root n u where
  length := h.stores ▸ hsince.length
  entry path hpath filePath mayCreate haddress id hentry := by
    rw [Files.target_of_working h.working] at hentry
    exact hsince.entry path hpath filePath mayCreate haddress id (h.entry _ id hentry)

/-- Setting an entry adds no other one. -/
theorem Files.entryAt?_of_setEntry {t : Files} {place other : Place} {entry added : Entry}
    (hplace : t.entryAt? place ≠ some .directory) (hentry : entry ≠ added)
    (h : (t.setEntry place added).entryAt? other = some entry) : t.entryAt? other = some entry := by
  rw [entryAt?_setEntry hplace] at h
  split at h
  · exact absurd (Option.some.inj h).symm hentry
  · exact h

theorem JsonStore.exists?_setEntry {s : JsonStore} {name : String} {t : Files} {place : Place} {bytes : Bytes}
    (hplace : t.entryAt? place ≠ some .directory) (hother : s.place name t ≠ place) (h : s.exists? name t = false) :
    s.exists? name (t.setEntry place (.file bytes)) = false := by
  rw [Bool.eq_false_iff] at h ⊢
  refine fun hexists => h ?_
  obtain ⟨entry, hlocate, hentry⟩ := exists?_iff.1 hexists
  have hsame : s.place name (t.setEntry place (.file bytes)) = s.place name t := Files.target_of_working rfl _
  have hworking : t.working = (t.setEntry place (.file bytes)).working := rfl
  have hdirectory (other : Place) : (t.setEntry place (.file bytes)).entryAt? other = some .directory →
      t.entryAt? other = some .directory :=
    Files.entryAt?_of_setEntry hplace fun hfile => by cases hfile
  rw [hsame] at hlocate hentry
  rw [Files.entryAt?_setEntry hplace, if_neg hother] at hentry
  exact exists?_iff.2 ⟨entry, Files.locate_of_directories hworking hdirectory hlocate, hentry⟩

/-- A file is written while there is none of symbols. -/
theorem Apart.setEntry {root : String} {t : Files} {place : Place} {bytes : Bytes}
    (hplace : t.entryAt? place ≠ some .directory) (hsymbols : Session.symbolPlace root t ≠ place)
    (hmissing : (Session.symbolsOf root).exists? SymbolTable.fileName t = false) :
    Apart root t (t.setEntry place (.file bytes)) where
  working := rfl
  stores := rfl
  entry _ id := Files.entryAt?_of_setEntry hplace fun hfile => by cases hfile
  symbols := by
    have hstill : (Session.symbolsOf root).exists? SymbolTable.fileName (t.setEntry place (.file bytes)) = false :=
      JsonStore.exists?_setEntry hplace hsymbols hmissing
    rw [Session.savedSymbols, Session.savedSymbols, SymbolTable.onDisk_of_load (SymbolTable.load_of_missing hstill),
      SymbolTable.onDisk_of_load (SymbolTable.load_of_missing hmissing)]

theorem OpenCache.Recorded.mono {n : Nat} {before after : List ClassDocument} {table : SymbolTable} {c : OpenCache}
    {t : Files} (h : c.Recorded n before table t) (hsubset : before ⊆ after) : c.Recorded n after table t where
  ids := h.ids
  contents id hid := (h.contents id hid).mono hsubset (SymbolTable.le_refl table)
  memory key record hheld := (h.memory key record hheld).mono hsubset (SymbolTable.le_refl table)

/-! ## Trees without stores -/

/-- A tree without stores. -/
structure Files.Storeless (t : Files) : Prop where
  stores : t.stores = []
  entry : ∀ place id, t.entryAt? place ≠ some (.store id)

namespace Files.Storeless

variable {root : String} {t : Files} {place : Place}

theorem empty : Files.empty.Storeless := by
  refine ⟨rfl, fun place id hentry => ?_⟩
  rw [entryAt?] at hentry
  split at hentry <;> cases hentry

theorem setEntry (h : t.Storeless) {entry : Entry} (hdirectory : t.entryAt? place ≠ some .directory)
    (hentry : ∀ id, entry ≠ .store id) : (t.setEntry place entry).Storeless :=
  ⟨h.stores, fun other id hstore => h.entry other id (entryAt?_of_setEntry hdirectory (hentry id).symm hstore)⟩

theorem setFile (h : t.Storeless) (hdirectory : t.entryAt? place ≠ some .directory) (bytes : Bytes) :
    (t.setEntry place (.file bytes)).Storeless :=
  h.setEntry hdirectory fun id hfile => by cases hfile

theorem sound (h : t.Storeless) : t.Sound := by
  refine ⟨fun place id hentry => absurd hentry (h.entry place id), fun id user huser => ?_⟩
  rw [h.stores] at huser
  cases huser

theorem unused (h : t.Storeless) : Unused root t :=
  fun _ _ _ _ _ id => h.entry _ id

end Files.Storeless

namespace Session

/-! ## What can become of a directory -/

/-- No session is open, or one is. -/
inductive Moment where
  | idle (t : Files)
  | busy (r : Run)

/-- Someone changes files while a session is open. -/
def Run.edited (r : Run) (entries : Ordered.Map Place Entry) : Run :=
  { r with files := { r.files with entries } }

/-- What can become of a directory that has no stores at first, if no session fails to save its symbols in the end. -/
inductive Reached (root : String) : Moment → Prop where
  | new {t : Files} : t.Sound → Unused root t → Reached root (.idle t)
  | others {t : Files} {entries : Ordered.Map Place Entry} :
    Reached root (.idle t) → Apart root t { t with entries } → Reached root (.idle { t with entries })
  | opened {config : Config} {t u : Files} {s : Session} :
    Reached root (.idle t) → Session.open root config t = (.ok s, u) → Reached root (.busy ⟨s, u, ""⟩)
  | refused {config : Config} {t u : Files} {failure : Failure} :
    Reached root (.idle t) → Session.open root config t = (.error failure, u) → Reached root (.idle u)
  | after {r : Run} (command : Cli.Command) : Reached root (.busy r) → Reached root (.busy (r.after command))
  | edited {r : Run} {entries : Ordered.Map Place Entry} :
    Reached root (.busy r) → Apart root r.files (r.edited entries).files → Reached root (.busy (r.edited entries))
  | closed {r : Run} {u : Files} :
    Reached root (.busy r) → r.session.close r.files = (.ok (), u) → Reached root (.idle u)
  | wiped {r : Run} {u : Files} {printed : String} :
    Reached root (.busy r) → r.session.wipe r.files = (.ok printed, u) → Reached root (.idle u)

/-! ## What holds meanwhile -/

/-- What holds of an open session: its stores are there, open and different, its symbols can be saved, and everything in
the stores was made of some documents with the numbers of the symbols. -/
structure Run.Healthy (root : String) (n : Nat) (documents : List ClassDocument) (r : Run) : Prop where
  sound : r.files.Sound
  separate : r.Separate
  attached : Attached r.session.cache.handles r.files
  users : ∀ handle ∈ r.session.cache.handles, handle.1.user < r.files.users
  home : r.session.cache.root = root
  store : r.session.symbolStore = symbolsOf root
  built : r.session.symbols.Built
  clean : r.session.symbols.dirty = false → r.session.symbols ≤ savedSymbols root r.files
  fits : r.cache.classes.memory.Fits
  since : OpenCache.Since root n r.files
  recorded : r.Recorded n documents

/-- What holds while no session is open. -/
structure Calm (root : String) (n : Nat) (documents : List ClassDocument) (t : Files) : Prop where
  sound : t.Sound
  since : OpenCache.Since root n t
  contents : ∀ id, n ≤ id → (t.contents id).Recorded documents (savedSymbols root t)

variable {root : String} {config : Config} {n : Nat} {documents : List ClassDocument} {t u : Files} {r s : Run}

theorem Run.Separate.of_handles (h : r.Separate) (hhandles : s.session.cache.handles = r.session.cache.handles)
    (hlength : r.files.stores.length ≤ s.files.stores.length) : s.Separate := by
  have hids : s.session.cache.ids = r.session.cache.ids :=
    congrArg (List.map fun handle : OpenFile × StoreKind => handle.1.id) hhandles
  refine ⟨hids ▸ h.nodup, fun id hid => ?_⟩
  exact Nat.lt_of_lt_of_le (h.known id (hids ▸ hid)) hlength

/-- Commands keep a session healthy. -/
theorem Run.Leads.healthy (hleads : r.Leads (· = symbolPlace root r.files) n documents s)
    (h : r.Healthy root n documents) : s.Healthy root n documents where
  sound := by
    have hchanges : Changes (fun _ => False) (fun _ => False) r.files s.files := hleads.commits.changes h.users
    exact hchanges.sound h.sound
  separate := h.separate.of_handles hleads.handles hleads.spares.length
  attached := hleads.handles ▸ (hleads.commits.amended h.attached).attached h.attached
  users := by
    rw [hleads.handles, (hleads.commits.amended h.attached).users]
    exact h.users
  home := hleads.root.trans h.home
  store := hleads.symbolStore.trans h.store
  built := hleads.grows.built h.built
  clean hclean := by
    obtain hsame | hchanged := hleads.grows.eq_or_dirty
    · rw [hsame] at hclean ⊢
      exact SymbolTable.le_trans (h.clean hclean) (SymbolTable.onDisk_le_of_spares hleads.spares rfl)
    · rw [hclean] at hchanged
      cases hchanged
  fits := hleads.fits h.fits
  since := h.since.spares hleads.spares
  recorded := hleads.recorded h.recorded

namespace Run.Healthy

theorem mono (h : r.Healthy root n documents) {after : List ClassDocument} (hsubset : documents ⊆ after) :
    r.Healthy root n after :=
  { h with recorded := OpenCache.Recorded.mono h.recorded hsubset }

/-- A command, which may fail. -/
theorem after (h : r.Healthy root n documents) (command : Cli.Command) :
    (r.after command).Healthy root n (documents ++ r.imported command) :=
  (leads_after (fun _ => aside_of_eq) (List.subset_append_right _ _)).healthy (h.mono (List.subset_append_left _ _))

theorem edited (h : r.Healthy root n documents) {entries : Ordered.Map Place Entry}
    (hapart : Apart root r.files (r.edited entries).files) : (r.edited entries).Healthy root n documents where
  sound := h.sound.of_entries rfl rfl hapart.entry
  separate := ⟨h.separate.nodup, h.separate.known⟩
  attached := h.attached
  users := h.users
  home := h.home
  store := h.store
  built := h.built
  clean hclean := hapart.symbols.symm ▸ h.clean hclean
  fits := h.fits
  since := hapart.since h.since
  recorded := ⟨h.recorded.ids, h.recorded.contents, h.recorded.memory⟩

/-- A session that has saved its symbols leaves its directory calm, whether it closes or wipes the cache. -/
theorem finish (h : r.Healthy root n documents) {v : Visit} (hchanging : Changing root r.files (v.finish r))
    (hsave : (r.session.symbols.save r.session.symbolStore r.files).1 = .ok ()) :
    Calm root n documents (v.finish r) := by
  obtain ⟨hsaved, hspares⟩ := Visit.of_finish h.store h.home h.built h.clean hsave
  refine ⟨hchanging.sound h.sound, h.since.spares hspares, fun id hid => ?_⟩
  obtain hsame | hnone := hspares.contents id
  · rw [hsame]
    exact (h.recorded.contents id hid).mono (List.Subset.refl _) hsaved
  · exact hnone.elim

theorem close (h : r.Healthy root n documents) (hclose : r.session.close r.files = (.ok (), u)) :
    Calm root n documents u := by
  obtain ⟨table, v, hsave, -⟩ := of_close hclose
  have hfinish : (⟨.standard, [], false⟩ : Visit).finish r = u := congrArg Prod.snd hclose
  exact hfinish ▸ h.finish (changing_close h.store r.files) (congrArg Prod.fst hsave)

theorem wipe {printed : String} (h : r.Healthy root n documents) (hwipe : r.session.wipe r.files = (.ok printed, u)) :
    Calm root n documents u := by
  obtain ⟨table, v, hsave, -⟩ := of_wipe hwipe
  have hfinish : (⟨.standard, [], true⟩ : Visit).finish r = u := congrArg Prod.snd hwipe
  exact hfinish ▸ h.finish (changing_wipe h.store r.files) (congrArg Prod.fst hsave)

end Run.Healthy

/-! ## Opening -/

theorem sound_openCache (ht : t.Sound) (root : String) (config : Config) :
    (OpenCache.open root config t).2.Sound := by
  have hchanges : Changes (fun _ => True) (fun _ => False) t (OpenCache.open root config t).2 :=
    OpenCache.relates_open (fun _ => .refl) .trans
      (fun t => Files.changes_createDirectories (.createDirectories t root))
      (fun _ _ kind journal t => Files.changes_openStore_at (fun _ _ _ => trivial) t kind journal)
      (fun gone t => Files.changes_leaveStores t gone) config t
  exact hchanges.sound ht

namespace Calm

theorem others (h : Calm root n documents t) {entries : Ordered.Map Place Entry}
    (hapart : Apart root t { t with entries }) : Calm root n documents { t with entries } where
  sound := h.sound.of_entries rfl rfl hapart.entry
  since := hapart.since h.since
  contents id hid := hapart.symbols.symm ▸ h.contents id hid

/-- Opening a session makes stores, even if it fails. -/
theorem refused (h : Calm root n documents t) {failure : Failure}
    (hopen : Session.open root config t = (.error failure, u)) : Calm root n documents u := by
  have hspares : Spares (· = symbolPlace root t) (fun _ => True) t u :=
    spares_open (fun _ => aside_of_eq) (fun _ => trivial) hopen
  have hkeeps := SymbolTable.onDisk_le_of_spares hspares rfl
  refine ⟨?_, h.since.spares hspares, fun id hid => ?_⟩
  · have hsound := sound_openCache h.sound root config
    rw [open_eq] at hopen
    split at hopen
    · cases hopen
      exact h.sound
    · split at hopen
      · rename_i hcache
        cases hopen
        rw [hcache] at hsound
        exact hsound
      · cases hopen
  · have hrecorded := Visit.recorded_contents (v := ⟨config, [], false⟩) hopen id (h.contents id hid)
    exact hrecorded.mono (List.Subset.refl _) hkeeps

theorem opened (h : Calm root n documents t) {s : Session} (hopen : Session.open root config t = (.ok s, u)) :
    (⟨s, u, ""⟩ : Run).Healthy root n documents := by
  obtain ⟨hload, hcache, hstore⟩ := Session.of_open hopen
  obtain ⟨hsound, hseparate, hattached, husers⟩ := OpenCache.of_open h.sound hcache
  have hsymbols : s.symbols = savedSymbols root t := (SymbolTable.onDisk_of_load hload).symm
  have hspares : Spares (· = symbolPlace root t) (fun _ => True) t u :=
    spares_open (fun _ => aside_of_eq) (fun _ => trivial) hopen
  exact {
    sound := hsound
    separate := hseparate
    attached := hattached
    users := husers
    home := Visit.root_open hcache
    store := hstore
    built := (SymbolTable.built_load hload).1
    clean := fun _ => hsymbols ▸ SymbolTable.onDisk_le_of_spares hspares rfl
    fits := by
      change (s.cache.cache u).classes.memory.Fits
      rw [(OpenCache.cache_open hcache).2]
      exact Lru.fits_new _
    since := h.since.spares hspares
    recorded := Visit.recorded_of_open (v := ⟨config, [], false⟩) hopen h.since (hsymbols ▸ h.contents) }

end Calm

/-! ## All that can be reached -/

/-- What holds at a moment. -/
def Moment.Good (root : String) : Moment → Prop
  | idle t => ∃ n documents, Calm root n documents t
  | busy r => ∃ n documents, r.Healthy root n documents

theorem Reached.good {m : Moment} (h : Reached root m) : m.Good root := by
  induction h with
  | @new t hsound hunused =>
    obtain ⟨hsince, hcontents⟩ := Visits.recorded (.none : Visits root t [] t) hunused
    exact ⟨_, _, hsound, hsince, hcontents⟩
  | others _ hapart ih =>
    obtain ⟨n, documents, hcalm⟩ := ih
    exact ⟨n, documents, hcalm.others hapart⟩
  | opened _ hopen ih =>
    obtain ⟨n, documents, hcalm⟩ := ih
    exact ⟨n, documents, hcalm.opened hopen⟩
  | refused _ hopen ih =>
    obtain ⟨n, documents, hcalm⟩ := ih
    exact ⟨n, documents, hcalm.refused hopen⟩
  | after command _ ih =>
    obtain ⟨n, documents, hhealthy⟩ := ih
    exact ⟨n, _, hhealthy.after command⟩
  | edited _ hapart ih =>
    obtain ⟨n, documents, hhealthy⟩ := ih
    exact ⟨n, documents, hhealthy.edited hapart⟩
  | closed _ hclose ih =>
    obtain ⟨n, documents, hhealthy⟩ := ih
    exact ⟨n, documents, hhealthy.close hclose⟩
  | wiped _ hwipe ih =>
    obtain ⟨n, documents, hhealthy⟩ := ih
    exact ⟨n, documents, hhealthy.wipe hwipe⟩

/-- A session that can be reached is healthy. -/
theorem Reached.healthy (h : Reached root (.busy r)) : ∃ n documents, r.Healthy root n documents :=
  h.good

end Session

end ClassDeps
