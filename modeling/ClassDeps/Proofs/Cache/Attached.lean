import ClassDeps.Proofs.Cache.Committed
import ClassDeps.Proofs.Files.Uris

/-!
# Caches at any path

A cache that was opened has five different stores, each of its kind, whatever the path of its directory: where a URI
hides the names of the files, all of them are the same file, which is of one kind only, or none at all.

## Main definitions

* `Files.Joined` — a store that someone has open
* `Files.Taken` — what opening a store leads to

## Main statements

* `Files.taken_of_openStore` — opening the store at a path, whatever its address
* `OpenCache.of_open` — a cache that was opened
-/

namespace ClassDeps

/-- Where the store at an address stands, if it is in a file. -/
def Address.place? (t : Files) : Address → Option Place
  | .nowhere => none
  | .file path _ => some (t.target path)

namespace Files

variable {t u v : Files} {path other : String} {kind kind' : StoreKind} {journal : JournalMode} {file file' : OpenFile}
  {place : Place} {id : Nat}

/-- A store of a kind that someone has opened at the address of a path, with the log that it asks for. -/
structure Joined (journal : JournalMode) (path : String) (kind : StoreKind) (file : OpenFile) (t : Files) : Prop where
  known : file.id < t.stores.length
  user : file.user < t.users
  kind : (t.contents file.id).kind = kind
  home : ∃ address, Address.ofPath? path = some address ∧ (t.stores.getD file.id default).place = address.place? t
  inUse : (t.stores.getD file.id default).log.inUse = true →
    journal = .wal ∧ (t.stores.getD file.id default).place ≠ none
  asked : (t.stores.getD file.id default).place ≠ none → journal = .wal →
    file.user ∈ (t.stores.getD file.id default).log.users

/-- What opening the store at a path leads to: a store that was there keeps its place, what it holds and its users, and
other stores are as they were. -/
structure Taken (journal : JournalMode) (path : String) (kind : StoreKind) (file : OpenFile) (t u : Files) : Prop where
  joined : Joined journal path kind file u
  working : u.working = t.working
  length : t.stores.length ≤ u.stores.length
  users : t.users ≤ u.users
  others : ∀ id, id ≠ file.id → u.stores.getD id default = t.stores.getD id default
  place : file.id < t.stores.length → (u.stores.getD file.id default).place = (t.stores.getD file.id default).place ∧
    (t.stores.getD file.id default).place ≠ none
  contents : file.id < t.stores.length → u.contents file.id = t.contents file.id
  log : file.id < t.stores.length → journal = .wal →
    (t.stores.getD file.id default).log.users ⊆ (u.stores.getD file.id default).log.users
  entry : ∀ filePath mayCreate, Address.ofPath? path = some (.file filePath mayCreate) →
    u.entryAt? (u.target filePath) = some (.store file.id)
  same : ∀ filePath mayCreate id, Address.ofPath? path = some (.file filePath mayCreate) →
    t.entryAt? (t.target filePath) = some (.store id) → file.id = id

theorem place?_of_working (h : u.working = t.working) (address : Address) : address.place? u = address.place? t := by
  cases address with
  | nowhere => rfl
  | file path _ => exact congrArg some (target_of_working h path)

/-- Who has a store open still has when another store, or the same one, is opened. -/
theorem Joined.taken (h : Joined journal path kind file t) (htaken : Taken journal other kind' file' t u) :
    Joined journal path kind file u := by
  obtain ⟨address, haddress, hhome⟩ := h.home
  have hknown := Nat.lt_of_lt_of_le h.known htaken.length
  have huser := Nat.lt_of_lt_of_le h.user htaken.users
  have hplace := place?_of_working htaken.working address
  by_cases hid : file.id = file'.id
  · have hold : file'.id < t.stores.length := hid ▸ h.known
    obtain ⟨hsame, hsome⟩ := htaken.place hold
    refine ⟨hknown, huser, ?_, ⟨address, haddress, ?_⟩, ?_, fun _ hwal => ?_⟩
    · rw [hid, htaken.contents hold, ← hid, h.kind]
    · rw [hid, hsame, ← hid, hhome, hplace]
    · rw [hid]
      exact htaken.joined.inUse
    · rw [hid]
      exact htaken.log hold hwal (hid ▸ h.asked (hid ▸ hsome) hwal)
  · have hsame := htaken.others file.id hid
    refine ⟨hknown, huser, ?_, ⟨address, haddress, ?_⟩, ?_, ?_⟩
    · rw [Files.contents, hsame, ← Files.contents, h.kind]
    · rw [hsame, hhome, hplace]
    · rw [hsame]
      exact h.inUse
    · rw [hsame]
      exact h.asked

/-- Directories are made before a store is opened. -/
theorem Furnished.taken (h : t.Furnished v) (htaken : Taken journal path kind file v u) :
    Taken journal path kind file t u := by
  have hlength : v.stores.length = t.stores.length := congrArg List.length h.stores_eq
  have hstores (id : Nat) : v.stores.getD id default = t.stores.getD id default := by rw [h.stores_eq]
  exact {
    joined := htaken.joined
    working := htaken.working.trans h.working_eq
    length := hlength ▸ htaken.length
    users := h.users_eq ▸ htaken.users
    others := fun id hid => (htaken.others id hid).trans (hstores id)
    place := by rw [← hlength, ← hstores]; exact htaken.place
    contents := fun hold => by
      rw [htaken.contents (hlength ▸ hold), Files.contents, hstores, ← Files.contents]
    log := by rw [← hlength, ← hstores]; exact htaken.log
    entry := htaken.entry
    same := fun filePath mayCreate id haddress hentry => by
      rw [← target_of_working h.working_eq] at hentry
      exact htaken.same filePath mayCreate id haddress (h.entry hentry) }

/-- A new store that is in no file. -/
theorem taken_of_addStore (haddress : Address.ofPath? path = some .nowhere) :
    Taken journal path kind ⟨t.stores.length, t.users⟩ t (t.addStore none kind).2 := by
  have hlength : (t.addStore none kind).2.stores.length = t.stores.length + 1 := List.length_append
  have hnew : (t.addStore none kind).2.stores.getD t.stores.length default =
      ⟨supportedSchema, .empty kind, .unused, none⟩ := by rw [getD_addStore, if_pos rfl]
  exact {
    joined := {
      known := by rw [hlength]; exact Nat.lt_succ_self _
      user := Nat.lt_succ_self _
      kind := by
        rw [contents_addStore, if_pos rfl]
        cases kind <;> rfl
      home := ⟨.nowhere, haddress, by rw [hnew]; rfl⟩
      inUse := by
        rw [hnew]
        exact fun hused => absurd hused Bool.false_ne_true
      asked := by
        rw [hnew]
        exact fun hplace => absurd rfl hplace }
    working := rfl
    length := by rw [hlength]; exact Nat.le_succ _
    users := Nat.le_succ _
    others := fun id hid => by rw [getD_addStore, if_neg hid]
    place := fun hold => absurd hold (Nat.lt_irrefl _)
    contents := fun hold => absurd hold (Nat.lt_irrefl _)
    log := fun hold => absurd hold (Nat.lt_irrefl _)
    entry := fun _ _ hfile => by
      rw [haddress] at hfile
      cases hfile
    same := fun _ _ _ hfile => by
      rw [haddress] at hfile
      cases hfile }

theorem subset_chosenLog {log : Log} (h : t.chosenLog place id .wal = .ok log) :
    (t.stores.getD id default).log.users ⊆ log.users := by
  rw [chosenLog_eq] at h
  split at h
  · cases h
  · cases h
    exact List.subset_cons_self _ _

section File

variable {filePath : String} {mayCreate : Bool} (haddress : Address.ofPath? path = some (.file filePath mayCreate))

include haddress

/-- A new store in a file. -/
theorem taken_of_createStore (hplace : t.storePlace? filePath = some place)
    (hfree : ∀ id, t.entryAt? place ≠ some (.store id)) (h : t.createStore place kind journal = (.ok file, u)) :
    Taken journal path kind file t u := by
  obtain ⟨rfl, hworking, -, hentries, hlength, husers, hfile⟩ := of_createStore (not_directory_of_storePlace? hplace) h
  have htarget := storePlace?_eq_target hplace
  have hnew : u.stores.getD t.stores.length default =
      ⟨supportedSchema, .empty kind, .start journal t.users, some place⟩ := by
    rw [hfile, if_pos rfl]
  exact {
    joined := {
      known := by rw [hlength]; exact Nat.lt_succ_self _
      user := by rw [husers]; exact Nat.lt_succ_self _
      kind := by
        rw [Files.contents, hnew]
        cases kind <;> rfl
      home := by
        refine ⟨_, haddress, ?_⟩
        rw [hnew, Address.place?, target_of_working hworking, htarget]
      inUse := by
        rw [hnew]
        cases journal with
        | wal => exact fun _ => ⟨rfl, Option.some_ne_none _⟩
        | delete | memory => exact fun hused => absurd hused Bool.false_ne_true
      asked := by
        rw [hnew]
        rintro - rfl
        exact List.mem_cons_self }
    working := hworking
    length := by rw [hlength]; exact Nat.le_succ _
    users := by rw [husers]; exact Nat.le_succ _
    others := fun id hid => by rw [hfile, if_neg hid]
    place := fun hold => absurd hold (Nat.lt_irrefl _)
    contents := fun hold => absurd hold (Nat.lt_irrefl _)
    log := fun hold => absurd hold (Nat.lt_irrefl _)
    entry := fun _ _ hpath => by
      cases haddress.symm.trans hpath
      rw [target_of_working hworking, ← htarget, hentries _ (notMem_logPlaces _), if_pos rfl]
    same := fun _ _ _ hpath hentry => by
      cases haddress.symm.trans hpath
      exact absurd (htarget ▸ hentry) (hfree _) }

/-- A store that is in a file already. -/
theorem taken_of_joinStore (ht : t.Sound) (hplace : t.storePlace? filePath = some place)
    (hentry : t.entryAt? place = some (.store id)) (h : t.joinStore path place id kind journal = (.ok file, u)) :
    Taken journal path kind file t u := by
  obtain ⟨hknown, hhome⟩ := ht.entry _ _ hentry
  have htarget := storePlace?_eq_target hplace
  obtain ⟨rfl, hcheck, hworking, -, hentries, hlength, husers, log, hlog, hfile⟩ := of_joinStore hknown hhome h
  obtain ⟨hinUse, hjoined⟩ := inUse_chosenLog hlog
  have hsame : u.stores.getD id default = { t.stores.getD id default with log } := by rw [hfile, if_pos rfl]
  have hcontents : u.contents id = t.contents id := by rw [Files.contents, hsame, Files.contents]
  exact {
    joined := {
      known := by rwa [hlength]
      user := by rw [husers]; exact Nat.lt_succ_self _
      kind := by rw [hcontents]; exact StoreFile.kind_of_check hcheck
      home := by
        refine ⟨_, haddress, ?_⟩
        rw [hsame, Address.place?, target_of_working hworking, ← htarget, hhome]
      inUse := by
        rw [hsame, hinUse]
        exact fun hwal => ⟨of_decide_eq_true hwal, hhome ▸ Option.some_ne_none _⟩
      asked := by
        rw [hsame]
        exact fun _ hwal => hjoined (hinUse.trans (decide_eq_true hwal)) }
    working := hworking
    length := Nat.le_of_eq hlength.symm
    users := by rw [husers]; exact Nat.le_succ _
    others := fun other hother => (hfile other).trans (if_neg hother)
    place := fun _ => by
      rw [hsame, hhome]
      exact ⟨rfl, Option.some_ne_none _⟩
    contents := fun _ => hcontents
    log := fun _ hwal => by
      rw [hsame]
      exact subset_chosenLog (hwal ▸ hlog)
    entry := fun _ _ hpath => by
      cases haddress.symm.trans hpath
      rw [target_of_working hworking, ← htarget, hentries _ (notMem_logPlaces _), hentry]
    same := fun _ _ other hpath hother => by
      cases haddress.symm.trans hpath
      rw [← htarget, hentry] at hother
      cases hother
      rfl }

end File

/-- A store that was opened at whatever address. -/
theorem taken_of_openStore (ht : t.Sound) (h : t.openStore path kind journal = (.ok file, u)) :
    Taken journal path kind file t u := by
  obtain ⟨created, hfurnished, hattempt, -⟩ := attempt_openStore h
  have hchanges : Changes (fun _ => False) (fun _ => False) t created := changes_createDirectories hfurnished
  refine hfurnished.taken ?_
  cases hattempt with
  | nowhere hnowhere => exact taken_of_addStore hnowhere
  | joins hfile hplace hentry hjoin => exact taken_of_joinStore hfile (hchanges.sound ht) hplace hentry hjoin
  | creates hfile hplace hfree hcreate => exact taken_of_createStore hfile hplace hfree hcreate

/-! ## Stores one after the other -/

/-- What opening stores one after the other leads to. -/
structure TakenAll (journal : JournalMode) (requests : List (String × StoreKind)) (files : List OpenFile) (t u : Files) :
    Prop where
  sound : u.Sound
  joined : List.Forall₂ (fun r file => Joined journal r.1 r.2 file u) requests files
  kept : ∀ path kind file, Joined journal path kind file t → Joined journal path kind file u
  place : ∀ id < t.stores.length, (u.stores.getD id default).place = (t.stores.getD id default).place
  old : ∀ file ∈ files, file.id < t.stores.length → (t.stores.getD file.id default).place ≠ none
  apart : files.Pairwise fun f g => f.id = g.id → (u.stores.getD f.id default).place ≠ none

variable {requests : List (String × StoreKind)} {files : List OpenFile}

theorem Taken.place_eq (h : Taken journal path kind file t u) (hid : id < t.stores.length) :
    (u.stores.getD id default).place = (t.stores.getD id default).place := by
  by_cases hsame : id = file.id
  · subst hsame
    exact (h.place hid).1
  · rw [h.others id hsame]

theorem takenAll_of_openAll (ht : t.Sound) (h : openAll journal requests t = (.ok files, u)) :
    TakenAll journal requests files t u := by
  induction requests generalizing t files with
  | nil =>
    cases h
    exact ⟨ht, .nil, fun _ _ _ h => h, fun _ _ => rfl, List.forall_mem_nil _, .nil⟩
  | cons r requests ih =>
    obtain ⟨file, rest, v, rfl, hfirst, hrest⟩ := openAll_cons_eq_ok_iff.1 h
    have htaken := taken_of_openStore ht hfirst
    have hall := ih (ht.openStore_at hfirst) hrest
    exact {
      sound := hall.sound
      joined := .cons (hall.kept _ _ _ htaken.joined) hall.joined
      kept := fun path kind file h => hall.kept _ _ _ (h.taken htaken)
      place := fun id hid => (hall.place id (Nat.lt_of_lt_of_le hid htaken.length)).trans (htaken.place_eq hid)
      old := List.forall_mem_cons.2 ⟨fun hold => (htaken.place hold).2, fun g hg hold =>
        htaken.place_eq hold ▸ hall.old g hg (Nat.lt_of_lt_of_le hold htaken.length)⟩
      -- A later store is the same only if it was there already, and so it is in a file.
      apart := List.pairwise_cons.2 ⟨fun g hg hsame => by
        have hknown := htaken.joined.known
        rw [hsame] at hknown ⊢
        rw [hall.place _ hknown]
        exact hall.old g hg hknown, hall.apart⟩ }

/-- Stores at the same address, where a store stands already, are that one. -/
theorem ids_of_openAll {filePath : String} {mayCreate : Bool} (ht : t.Sound)
    (hrequests : ∀ r ∈ requests, Address.ofPath? r.1 = some (.file filePath mayCreate))
    (hentry : t.entryAt? (t.target filePath) = some (.store id)) (h : openAll journal requests t = (.ok files, u)) :
    ∀ file ∈ files, file.id = id := by
  induction requests generalizing t files with
  | nil =>
    cases h
    exact List.forall_mem_nil _
  | cons r requests ih =>
    obtain ⟨file, rest, v, rfl, hfirst, hrest⟩ := openAll_cons_eq_ok_iff.1 h
    rw [List.forall_mem_cons] at hrequests
    have htaken := taken_of_openStore ht hfirst
    have hid := htaken.same _ _ _ hrequests.1 hentry
    have hstands := htaken.entry _ _ hrequests.1
    rw [hid] at hstands
    exact List.forall_mem_cons.2 ⟨hid, ih (ht.openStore_at hfirst) hrequests.2 hstands hrest⟩

end Files

namespace OpenCache

open Files (Joined TakenAll openAll openAll_cons_eq_ok_iff)

variable {c : OpenCache} {root : String} {config : Config} {t u : Files}

theorem isFile_storeFiles : ∀ file ∈ storeFiles, Address.IsFile file.1 := by
  have hbytes : ∀ file ∈ storeFiles, (Bytes.ofText file.1).any [0, 35, 37, 38, 47, 58, 61, 63].contains = false := by
    decide +kernel
  have hmachine : ∀ file ∈ storeFiles, Bytes.ofText file.1 ≠ [] ∧ Bytes.ofText file.1 ≠ Bytes.ofText "localhost" := by
    decide +kernel
  have hascii : ∀ file ∈ storeFiles, file.1.toList.all (fun c => c.val.toNat ≤ 127) = true := by
    decide +kernel
  refine fun file hfile => ⟨(storeFiles_names file hfile).1, ⟨fun b hb hmem => ?_, hmachine file hfile⟩, fun c hc => ?_⟩
  · exact List.any_eq_false.1 (hbytes file hfile) b hmem (List.contains_iff_mem.2 hb)
  · exact of_decide_eq_true (List.all_eq_true.1 (hascii file hfile) c hc)

/-- If the files of a cache have the same address, they are in no file: one file cannot be of both kinds. -/
theorem address_eq_nowhere {files : List OpenFile} {address : Option Address} (ht : t.Sound)
    (haddress : ∀ r ∈ requests root, Address.ofPath? r.1 = address)
    (h : openAll config.journalMode (requests root) t = (.ok files, u)) : address = some .nowhere := by
  have hjoined := (Files.takenAll_of_openAll ht h).joined
  obtain ⟨file, rest, v, rfl, hfirst, hrest⟩ := openAll_cons_eq_ok_iff.1 h
  have htaken := Files.taken_of_openStore ht hfirst
  obtain ⟨found, hfound, -⟩ := htaken.joined.home
  rw [haddress _ List.mem_cons_self] at hfound
  rw [hfound]
  cases found with
  | nowhere => rfl
  | file path mayCreate =>
    have hids := Files.ids_of_openAll (ht.openStore_at hfirst)
      (fun r hr => (haddress r (List.mem_cons_of_mem _ hr)).trans hfound)
      (htaken.entry path mayCreate ((haddress _ List.mem_cons_self).trans hfound)) hrest
    -- The first store and the third one are of different kinds.
    obtain ⟨hclasses, hothers⟩ := List.forall₂_cons.1 hjoined
    obtain ⟨remote, _, -, hindices, rfl⟩ := List.forall₂_cons_left_iff.1 hothers
    obtain ⟨referencers, _, hreferencers, -, rfl⟩ := List.forall₂_cons_left_iff.1 hindices
    have hkind := hreferencers.kind
    rw [hids referencers (List.mem_cons_of_mem _ List.mem_cons_self), hclasses.kind] at hkind
    cases hkind

theorem target_of_steps {path name : String} (hname : Path.IsName name) (h : ∃ names, Path.steps path = names ++ [name])
    (t : Files) : ∃ directory, t.target path = directory ++ [name] := by
  obtain ⟨names, hsteps⟩ := h
  refine ⟨names.foldl Place.enter (t.start path), ?_⟩
  rw [Files.target, hsteps, List.foldl_append, List.foldl_cons, List.foldl_nil, Path.enter_of_isName hname]

/-- Files with different names are different stores. -/
theorem id_ne_of_names {journal : JournalMode} {name name' : String} {kind kind' : StoreKind} {file file' : OpenFile}
    (hroot : ∀ name, Address.IsFile name → ∀ path mayCreate,
      Address.ofPath? (Path.join root name) = some (.file path mayCreate) → ∃ names, Path.steps path = names ++ [name])
    (hname : Address.IsFile name) (hname' : Address.IsFile name') (hne : name ≠ name')
    (h : Joined journal (Path.join root name) kind file u) (h' : Joined journal (Path.join root name') kind' file' u)
    (hplace : (u.stores.getD file.id default).place ≠ none) : file.id ≠ file'.id := by
  intro hsame
  obtain ⟨address, haddress, hhome⟩ := h.home
  obtain ⟨address', haddress', hhome'⟩ := h'.home
  rw [← hsame] at hhome'
  cases address with
  | nowhere => exact hplace hhome
  | file path mayCreate =>
    cases address' with
    | nowhere => exact hplace hhome'
    | file path' mayCreate' =>
      obtain ⟨directory, htarget⟩ := target_of_steps hname.isName (hroot _ hname _ _ haddress) u
      obtain ⟨directory', htarget'⟩ := target_of_steps hname'.isName (hroot _ hname' _ _ haddress') u
      rw [hhome, Address.place?, Address.place?, Option.some_inj, htarget, htarget'] at hhome'
      exact hne (List.singleton_inj.1 (List.append_inj' hhome' rfl).2)

theorem pairwise_of_forall₂ {α β : Type} {R : α → β → Prop} {P : α → α → Prop} {Q S : β → β → Prop} {xs : List α}
    {ys : List β} (h : List.Forall₂ R xs ys) (hx : xs.Pairwise P) (hy : ys.Pairwise Q)
    (hstep : ∀ x x' y y', R x y → R x' y' → P x x' → Q y y' → S y y') : ys.Pairwise S := by
  induction h with
  | nil => exact .nil
  | @cons x y xs ys hxy hrest ih =>
    rw [List.pairwise_cons] at hx hy
    refine List.pairwise_cons.2 ⟨fun y' hy' => ?_, ih hx.2 hy.2⟩
    obtain ⟨i, hi, rfl⟩ := List.getElem_of_mem hy'
    have hi' : i < xs.length := hrest.length_eq ▸ hi
    exact hstep _ _ _ _ hxy (hrest.get hi' hi) (hx.1 _ (List.get_mem xs ⟨i, hi'⟩)) (hy.1 _ (List.get_mem ys ⟨i, hi⟩))

/-- The stores of a cache are different ones. -/
theorem nodup_ids {files : List OpenFile} (ht : t.Sound)
    (h : openAll config.journalMode (requests root) t = (.ok files, u)) : (files.map OpenFile.id).Nodup := by
  have htaken := Files.takenAll_of_openAll ht h
  have hjoined := List.forall₂_map_left_iff.1 htaken.joined
  have hnames : (storeFiles.map Prod.fst).Nodup := by decide
  have hfiles : storeFiles.Pairwise fun file other =>
      Address.IsFile file.1 ∧ Address.IsFile other.1 ∧ file.1 ≠ other.1 :=
    (List.pairwise_map.1 hnames).imp_of_mem fun hfile hother hne =>
      ⟨isFile_storeFiles _ hfile, isFile_storeFiles _ hother, hne⟩
  rw [List.Nodup, List.pairwise_map]
  refine pairwise_of_forall₂ hjoined hfiles htaken.apart fun file file' g g' hg hg' hfile hplace hsame => ?_
  obtain ⟨hname, hname', hne⟩ := hfile
  obtain ⟨address, hall⟩ | hroot := Address.ofPath?_join_cases root
  · have hnowhere : address = some .nowhere := address_eq_nowhere ht (fun r hr => by
      obtain ⟨file, hfile, rfl⟩ := List.mem_map.1 hr
      exact hall _ (isFile_storeFiles file hfile)) h
    obtain ⟨found, hfound, hhome⟩ := hg.home
    rw [hall _ hname, hnowhere] at hfound
    cases hfound
    exact hplace hsame hhome
  · exact id_ne_of_names hroot hname hname' hne hg hg' (hplace hsame) hsame

/-- A cache that was opened has five different stores, each of its kind, with their logs, and its users are known. -/
theorem of_open (ht : t.Sound) (h : OpenCache.open root config t = (.ok c, u)) :
    u.Sound ∧ c.Separate u ∧ Files.Attached c.handles u ∧ ∀ handle ∈ c.handles, handle.1.user < u.users := by
  obtain ⟨made, hroot, hopen⟩ := exists_openAll h
  have hfurnished : t.Furnished (t.createDirectories root).2 := .createDirectories t root
  rw [hroot] at hfurnished
  have hchanges : Files.Changes (fun _ => False) (fun _ => False) t made := Files.changes_createDirectories hfurnished
  have hmade := hchanges.sound ht
  have htaken := Files.takenAll_of_openAll hmade hopen
  have hattached {path : String} {kind : StoreKind} {file : OpenFile} (h : Joined config.journalMode path kind file u) :
      (u.contents file.id).kind = kind ∧ ((u.stores.getD file.id default).log.inUse = true →
        file.user ∈ (u.stores.getD file.id default).log.users) :=
    ⟨h.kind, fun hused => h.asked (h.inUse hused).2 (h.inUse hused).1⟩
  have hjoined := htaken.joined
  simp only [requests, storeFiles, files, List.map_cons, List.forall₂_cons] at hjoined
  obtain ⟨h₁, h₂, h₃, h₄, h₅, -⟩ := hjoined
  refine ⟨htaken.sound, ⟨nodup_ids hmade hopen, ?_⟩, ?_, ?_⟩
  · simp only [ids, List.forall_mem_cons]
    exact ⟨h₁.known, h₂.known, h₃.known, h₄.known, h₅.known, List.forall_mem_nil _⟩
  · simp only [Files.Attached, handles, List.forall_mem_cons]
    exact ⟨hattached h₁, hattached h₂, hattached h₃, hattached h₄, hattached h₅, List.forall_mem_nil _⟩
  · simp only [handles, List.forall_mem_cons]
    exact ⟨h₁.user, h₂.user, h₃.user, h₄.user, h₅.user, List.forall_mem_nil _⟩

end OpenCache

end ClassDeps
