import ClassDeps.Proofs.Cache.Shelved
import ClassDeps.Proofs.Session.Roster
import ClassDeps.Proofs.Session.Wiped

/-!
# The classes of a directory

Sessions on a directory come one after the other, and each leaves its classes to the next: records stay in the files,
and symbols are saved with the numbers that the records have. So the classes of a session are those that were stored by
any session, and have not been removed or wiped since.

## Main definitions

* `Session.Elsewhere` — what others do meanwhile
* `Session.Chronicle` — what can become of a directory, with the history of its classes
* `Session.Accounted` — the classes at a moment are those of a history

## Main statements

* `Chronicle.accounted` — every step keeps account of the classes
* `Chronicle.exists_reports` — what an open session prints about its classes
-/

namespace ClassDeps.Session

open Json (depthLimit)
open OpenCache (Placed shelved storePaths)
open SymbolTable (limit)

variable {root : String} {config : Config} {t u : Files} {r s : Run} {history : List Event}

/-! ## Histories -/

/-- Others leave the stores of a cache where they are. -/
structure Elsewhere (root : String) (t u : Files) : Prop extends Apart root t u where
  store : ∀ path ∈ storePaths root, ∀ id,
    t.entryAt? (t.target path) = some (.store id) → u.entryAt? (t.target path) = some (.store id)

/-- What can become of a directory that has no stores at first, and the history of its classes, if no session fails to
save its symbols in the end and no record nests deeper than readers follow. While no session is open others may change
what is no store; while one is open they also take no directory away. -/
inductive Chronicle (root : String) : List Event → Moment → Prop where
  | new {t : Files} : t.Sound → (∀ path ∈ storePaths root, ∀ id, t.entryAt? (t.target path) ≠ some (.store id)) →
    Chronicle root [] (.idle t)
  | others {history : List Event} {t : Files} {entries : Ordered.Map Place Entry} :
    Chronicle root history (.idle t) → Elsewhere root t { t with entries } →
      Chronicle root history (.idle { t with entries })
  | opened {history : List Event} {config : Config} {t u : Files} {s : Session} :
    Chronicle root history (.idle t) → Session.open root config t = (.ok s, u) →
      Chronicle root history (.busy ⟨s, u, ""⟩)
  | refused {history : List Event} {config : Config} {t u : Files} {failure : Failure} :
    Chronicle root history (.idle t) → Session.open root config t = (.error failure, u) →
      Chronicle root history (.idle u)
  | after {history : List Event} {r : Run} (command : Cli.Command) :
    Chronicle root history (.busy r) → (∀ document ∈ r.stored command, document.nesting ≤ depthLimit) →
      Chronicle root (history ++ r.events command) (.busy (r.after command))
  | edited {history : List Event} {r : Run} {entries : Ordered.Map Place Entry} :
    Chronicle root history (.busy r) → Elsewhere root r.files (r.edited entries).files →
      (∀ place, r.files.entryAt? place = some .directory → (r.edited entries).files.entryAt? place = some .directory) →
        Chronicle root history (.busy (r.edited entries))
  | closed {history : List Event} {r : Run} {u : Files} :
    Chronicle root history (.busy r) → r.session.close r.files = (.ok (), u) → Chronicle root history (.idle u)
  | wiped {history : List Event} {r : Run} {u : Files} {printed : String} :
    Chronicle root history (.busy r) → r.session.wipe r.files = (.ok printed, u) →
      Chronicle root (history ++ [.wiped]) (.idle u)

/-- A directory with a history can be reached. -/
theorem Chronicle.reached {m : Moment} (hplain : Address.IsPlain root) (h : Chronicle root history m) :
    Reached root m := by
  induction h with
  | new hsound hfree =>
    refine .new hsound fun path hpath filePath mayCreate haddress => ?_
    cases OpenCache.address_of_mem hplain hpath _ haddress
    exact hfree path hpath
  | others _ helsewhere ih => exact .others ih helsewhere.toApart
  | opened _ hopen ih => exact .opened ih hopen
  | refused _ hopen ih => exact .refused ih hopen
  | after command _ _ ih => exact .after command ih
  | edited _ helsewhere _ ih => exact .edited ih helsewhere.toApart
  | closed _ hclose ih => exact .closed ih hclose
  | wiped _ hwipe ih => exact .wiped ih hwipe

/-! ## Rows meanwhile -/

/-- Others change no rows. -/
theorem Elsewhere.rowsAt_eq (h : Elsewhere root t u) {path : String} (hpath : path ∈ storePaths root) :
    u.rowsAt path = t.rowsAt path := by
  refine Files.rowsAt_congr h.working (fun id => ⟨h.entry _ id, h.store path hpath id⟩) fun id _ => ?_
  rw [Files.contents, Files.contents, h.stores]

/-- Opening a session changes no rows, whatever becomes of it. -/
theorem rowsAt_open (ht : t.Sound) {result : Except Failure Session} (h : Session.open root config t = (result, u))
    {path : String} (hpath : path ∈ storePaths root) : u.rowsAt path = t.rowsAt path := by
  have hrows := OpenCache.rowsAt_open ht root config hpath
  rw [open_eq] at h
  split at h
  · cases h
    rfl
  · split at h
    · rename_i hcache
      rw [hcache] at hrows
      cases h
      exact hrows
    · rename_i hcache
      rw [hcache] at hrows
      cases h
      exact hrows

/-- Saving symbols changes no rows. -/
theorem rowsAt_save {table table' : SymbolTable} (hroot : Files.Reachable root t)
    (h : table.save (symbolsOf root) t = (.ok (), table', u)) {path : String} (hpath : path ∈ storePaths root) :
    u.rowsAt path = t.rowsAt path := by
  obtain ⟨hagree, hstores, -⟩ := agree_of_save hroot h
  obtain ⟨q, hq, rfl⟩ := OpenCache.exists_of_mem_storePaths hpath
  have hentry := hagree.entry _ fun hsymbols => not_own_target hq t (.inr hsymbols)
  refine Files.rowsAt_congr hagree.working (fun id => by rw [hentry]) fun id _ => ?_
  rw [Files.contents, Files.contents, hstores]

/-! ## Accounts -/

/-- The classes of an open session are those of a history, and are in the files at the places of its stores. -/
structure Run.Accounted (root : String) (history : List Event) (r : Run) : Prop where
  lists : r.Lists (Live history)
  placed : Placed root r.session.cache r.files
  usable : r.session.cache.Usable root r.files

/-- The classes at a moment are those of a history. -/
def Accounted (root : String) (history : List Event) : Moment → Prop
  | .idle t => (shelved root t).Roster (Live history) (savedSymbols root t)
  | .busy r => r.Accounted root history

theorem accounted_of_open (hplain : Address.IsPlain root) (hne : root ≠ "") (ht : t.Sound) {session : Session}
    (hopen : Session.open root config t = (.ok session, u)) (h : Accounted root history (.idle t)) :
    Run.Accounted root history ⟨session, u, ""⟩ := by
  obtain ⟨hload, hcache, -⟩ := Session.of_open hopen
  obtain ⟨-, hseparate, -⟩ := OpenCache.of_open ht hcache
  have hsymbols : session.symbols = savedSymbols root t := (SymbolTable.onDisk_of_load hload).symm
  exact {
    lists := ⟨hseparate, hsymbols ▸ OpenCache.roster_open hplain ht hcache h⟩
    placed := OpenCache.placed_open hplain ht hcache
    usable := .of_open hplain hne ht hcache }

namespace Run.Accounted

theorem after (h : r.Accounted root history) (hsize : r.session.symbols.size ≤ limit) {command : Cli.Command}
    (hshallow : ∀ document ∈ r.stored command, document.nesting ≤ depthLimit) :
    (r.after command).Accounted root (history ++ r.events command) := by
  have hleads : r.Leads (fun _ => False) 0 (r.imported command) (r.after command) :=
    leads_after nofun (List.Subset.refl _)
  refine ⟨h.lists.after hsize hshallow, ?_, ?_⟩
  · refine h.placed.of_entries hleads.handles hleads.spares.working fun path hpath id hentry => ?_
    obtain ⟨q, hq, rfl⟩ := OpenCache.exists_of_mem_storePaths hpath
    rw [hleads.commits.entry (OpenCache.aside_target hq _)]
    exact hentry
  · exact (h.usable.disturbed (.of_commits hleads.commits)).of_handles hleads.root hleads.handles

theorem edited (h : r.Accounted root history) {entries : Ordered.Map Place Entry}
    (helsewhere : Elsewhere root r.files (r.edited entries).files)
    (hkept : ∀ place, r.files.entryAt? place = some .directory →
      (r.edited entries).files.entryAt? place = some .directory) : (r.edited entries).Accounted root history where
  lists := ⟨⟨h.lists.separate.nodup, h.lists.separate.known⟩, h.lists.roster⟩
  placed := h.placed.of_entries rfl helsewhere.working helsewhere.store
  usable := h.usable.disturbed (.of_eq helsewhere.working hkept helsewhere.stores)

/-- Symbols that were saved have the numbers of the session. -/
theorem shelved (h : r.Accounted root history) {n : Nat} {documents : List ClassDocument}
    (hhealthy : r.Healthy root n documents) {v : Visit}
    (hsave : (r.session.symbols.save r.session.symbolStore r.files).1 = .ok ()) :
    (OpenCache.shelved root r.files).Roster (Live history) (savedSymbols root (v.finish r)) := by
  obtain ⟨hsaved, -⟩ := Visit.of_finish hhealthy.store hhealthy.home hhealthy.built hhealthy.clean hsave
  exact (h.placed.roster h.lists.roster).mono hsaved

theorem closed (h : r.Accounted root history) {n : Nat} {documents : List ClassDocument}
    (hhealthy : r.Healthy root n documents) (hclose : r.session.close r.files = (.ok (), u)) :
    Session.Accounted root history (.idle u) := by
  have hfinish : (⟨.standard, [], false⟩ : Visit).finish r = u := congrArg Prod.snd hclose
  obtain ⟨table, v, hsave, rfl⟩ := of_close hclose
  have hroster := h.shelved hhealthy (v := ⟨.standard, [], false⟩) (congrArg Prod.fst hsave)
  have hroot : Files.Reachable root r.files := .of_isDirectory h.usable.directory
  rw [hhealthy.store] at hsave
  obtain ⟨hagree, hstores, -⟩ := agree_of_save hroot hsave
  have hsound : v.Sound := by
    have hchanging := changing_save root r.session.symbols r.files
    rw [hsave] at hchanging
    exact hchanging.sound hhealthy.sound
  have husable := h.usable.disturbed (.of_eq hagree.working hagree.directory hstores)
  have hrows : ∀ path ∈ storePaths root, (r.session.cache.close v).rowsAt path = r.files.rowsAt path :=
    fun path hpath => (husable.rowsAt_close hsound hpath).trans (rowsAt_save hroot hsave hpath)
  rw [hfinish] at hroster
  rw [Session.Accounted, OpenCache.shelved_congr hrows]
  exact hroster

theorem wiped (h : r.Accounted root history) (hstore : r.session.symbolStore = symbolsOf root) {printed : String}
    (hwipe : r.session.wipe r.files = (.ok printed, u)) : Session.Accounted root (history ++ [.wiped]) (.idle u) := by
  obtain ⟨table, v, hsave, rfl⟩ := of_wipe hwipe
  rw [hstore] at hsave
  obtain ⟨hagree, hstores, -⟩ := agree_of_save (.of_isDirectory h.usable.directory) hsave
  have husable := h.usable.disturbed (.of_eq hagree.working hagree.directory hstores)
  exact (OpenCache.roster_shelved_of_empty (fun path hpath => husable.rowsAt_wipe hpath) _).congr
    fun name => iff_of_false (not_live_wiped history name) id

end Run.Accounted

/-! ## All that can become of a directory -/

theorem Chronicle.sound (hplain : Address.IsPlain root) (h : Chronicle root history (.idle t)) : t.Sound := by
  obtain ⟨n, documents, hcalm⟩ := (h.reached hplain).good
  exact hcalm.sound

/-- Whatever becomes of a directory, its classes are those of its history. -/
theorem Chronicle.accounted {m : Moment} (hplain : Address.IsPlain root) (hne : root ≠ "")
    (h : Chronicle root history m) : Accounted root history m := by
  induction h with
  | @new t hsound hfree =>
    have hempty : ∀ path ∈ storePaths root, t.rowsAt path = .empty :=
      fun path hpath => Files.rowsAt_of_free (hfree path hpath)
    exact (OpenCache.roster_shelved_of_empty hempty _).congr fun name => iff_of_false (not_live_nil name) id
  | others _ helsewhere ih =>
    rw [Accounted, helsewhere.symbols, OpenCache.shelved_congr fun path hpath => helsewhere.rowsAt_eq hpath]
    exact ih
  | opened hbefore hopen ih => exact accounted_of_open hplain hne (hbefore.sound hplain) hopen ih
  | @refused history config t u failure hbefore hopen ih =>
    have hspares : Files.Spares (· = symbolPlace root t) (fun _ => True) t u :=
      spares_open (fun _ => aside_of_eq) (fun _ => trivial) hopen
    rw [Accounted, OpenCache.shelved_congr fun path hpath => rowsAt_open (hbefore.sound hplain) hopen hpath]
    exact ih.mono (SymbolTable.onDisk_le_of_spares hspares rfl)
  | after command hbefore hshallow ih =>
    obtain ⟨n, documents, hhealthy⟩ := (hbefore.reached hplain).healthy
    exact ih.after hhealthy.built.size_le hshallow
  | edited _ helsewhere hkept ih => exact ih.edited helsewhere hkept
  | closed hbefore hclose ih =>
    obtain ⟨n, documents, hhealthy⟩ := (hbefore.reached hplain).healthy
    exact ih.closed hhealthy hclose
  | wiped hbefore hwipe ih =>
    obtain ⟨n, documents, hhealthy⟩ := (hbefore.reached hplain).healthy
    exact ih.wiped hhealthy.store hwipe

/-- What an open session prints about its classes. -/
theorem Chronicle.exists_reports (hplain : Address.IsPlain root) (hne : root ≠ "")
    (h : Chronicle root history (.busy r)) :
    ∃ names, (names.Pairwise fun a b => Bytes.ofText a < Bytes.ofText b) ∧ (∀ name, name ∈ names ↔ Live history name) ∧
      r.Reports names := by
  obtain ⟨n, documents, hhealthy⟩ := (h.reached hplain).healthy
  exact (h.accounted hplain hne).lists.exists_reports hhealthy.built.size_le hhealthy.recorded

/-- Whoever has a number can be removed, be it a class or not. -/
theorem Chronicle.exists_removed (hplain : Address.IsPlain root) (hne : root ≠ "") (h : Chronicle root history (.busy r))
    {name : String} (hname : name ∈ r.session.symbols.symbols) :
    ∃ s, removeClass name r = (.ok (), s) ∧ Chronicle root (history ++ [.removed name]) (.busy s) := by
  obtain ⟨n, documents, hhealthy⟩ := (h.reached hplain).healthy
  obtain ⟨s, hremove, -⟩ := (h.accounted hplain hne).lists.removeClass_ok hhealthy.built.size_le hname
  obtain ⟨hevents, hafter⟩ := Run.remove_of_ok hremove
  have hnext := h.after (.remove name) (List.forall_mem_nil _)
  rw [hevents, hafter] at hnext
  exact ⟨s, hremove, hnext⟩

/-- The classes of a session are those that some session on its directory stored and that were neither removed nor wiped
since, and they are listed in the order of the bytes of their names. They are counted, and each is shown with its record.
A name without a number cannot be removed; if it has one and is no class, removing it leaves the list as it is. This is
so if the path of the directory is neither empty nor a URI. -/
theorem classes_are_live (hplain : Address.IsPlain root) (hne : root ≠ "") (h : Chronicle root history (.busy r)) :
    ∃ names : List String, (names.Pairwise fun a b => Bytes.ofText a < Bytes.ofText b) ∧
      (∀ name, name ∈ names ↔ Live history name) ∧ r.Reports names ∧
      (∀ name, name ∉ r.session.symbols.symbols → removeClass name r = (.error (.unknownClass name), r)) ∧
      ∀ name, name ∈ r.session.symbols.symbols → name ∉ names →
        ∃ s, removeClass name r = (.ok (), s) ∧ s.Reports names := by
  obtain ⟨names, hsorted, hlive, hreports⟩ := h.exists_reports hplain hne
  refine ⟨names, hsorted, hlive, hreports, fun name => removeClass_of_notMem, fun name hname hdead => ?_⟩
  obtain ⟨s, hremove, hnext⟩ := h.exists_removed hplain hne hname
  obtain ⟨others, hsorted', hlive', hreports'⟩ := hnext.exists_reports hplain hne
  refine ⟨s, hremove, ?_⟩
  have hsame : names = others := Listing.eq_of_ascending hsorted hsorted' fun other => by
    rw [hlive', live_removed, hlive]
    refine (and_iff_left_of_imp fun hother heq => hdead ?_).symm
    exact (hlive name).2 (heq ▸ hother)
  exact hsame ▸ hreports'

/-- One session fails to import a third class, the next one wipes both, and another one imports them again and removes
one of them. The class that it is based on has a number, too. -/
theorem classes_are_live_again :
    ∃ r, Chronicle "/r" [.stored "A", .stored "B", .wiped, .stored "A", .stored "B", .removed "A"] (.busy r) ∧
      "C" ∈ r.session.symbols.symbols ∧ r.Reports ["B"] ∧ ∃ s, removeClass "C" r = (.ok (), s) ∧ s.Reports ["B"] := by
  obtain ⟨t, ht⟩ : ∃ t, t = (Files.empty.setEntry ["A.json"]
    (.file (.ofText "\x7b\"name\":\"A\",\"interfaces\":[\"C\"]\x7d"))).setEntry ["B.json"]
      (.file (.ofText "\x7b\"name\":\"B\"\x7d")) := ⟨_, rfl⟩
  have hruns : ∃ a ∈ (Session.open "/r" .standard t).1.toOption,
      let first : Run := ⟨a, (Session.open "/r" .standard t).2, ""⟩
      first.events (.importFiles ["/A.json", "/B.json", "/C.json"]) = [.stored "A", .stored "B"] ∧
      (∀ document ∈ first.stored (.importFiles ["/A.json", "/B.json", "/C.json"]), document.nesting ≤ depthLimit) ∧
      ∃ closed ∈ ((first.after (.importFiles ["/A.json", "/B.json", "/C.json"])).session.close
        (first.after (.importFiles ["/A.json", "/B.json", "/C.json"])).files).1.toOption,
      let v := ((first.after (.importFiles ["/A.json", "/B.json", "/C.json"])).session.close
        (first.after (.importFiles ["/A.json", "/B.json", "/C.json"])).files).2
      ∃ b ∈ (Session.open "/r" .minimal v).1.toOption,
      ∃ printed ∈ (b.wipe (Session.open "/r" .minimal v).2).1.toOption,
      let w := (b.wipe (Session.open "/r" .minimal v).2).2
      ∃ c ∈ (Session.open "/r" .standard w).1.toOption,
      let last : Run := ⟨c, (Session.open "/r" .standard w).2, ""⟩
      last.events (.importFiles ["/A.json", "/B.json"]) = [.stored "A", .stored "B"] ∧
      (∀ document ∈ last.stored (.importFiles ["/A.json", "/B.json"]), document.nesting ≤ depthLimit) ∧
      (last.after (.importFiles ["/A.json", "/B.json"])).events (.remove "A") = [.removed "A"] ∧
      "C" ∈ ((last.after (.importFiles ["/A.json", "/B.json"])).after (.remove "A")).session.symbols.symbols := by
    rw [ht]
    decide +kernel
  have hstoreless : t.Storeless :=
    ht ▸ (Files.Storeless.empty.setFile (by decide) _).setFile (by decide) _
  have hnew : Chronicle "/r" [] (.idle t) := .new hstoreless.sound fun path _ => hstoreless.entry _
  -- Every state is kept as it comes, for the statements about the next ones would otherwise contain its whole history.
  generalize hopen : Session.open "/r" .standard t = opened at hruns
  obtain ⟨result, u⟩ := opened
  obtain ⟨a, ha, himported, hshallow, hruns⟩ := hruns
  obtain rfl : result = .ok a := eq_ok_of_mem ha
  have hfirst := (hnew.opened hopen).after _ hshallow
  rw [himported] at hfirst
  clear himported hshallow
  generalize Run.after _ _ = first at hfirst hruns
  generalize hclose : first.session.close first.files = closing at hruns
  obtain ⟨result, v⟩ := closing
  obtain ⟨_, hclosed, hruns⟩ := hruns
  obtain rfl := eq_ok_of_mem hclosed
  dsimp only at hruns
  generalize hopen' : Session.open "/r" .minimal v = opened at hruns
  obtain ⟨result, v'⟩ := opened
  obtain ⟨b, hb, hruns⟩ := hruns
  obtain rfl : result = .ok b := eq_ok_of_mem hb
  have hsecond := (hfirst.closed hclose).opened hopen'
  dsimp only at hruns
  generalize hwipe : b.wipe v' = wiping at hruns
  obtain ⟨result, w⟩ := wiping
  obtain ⟨printed, hwiped, hruns⟩ := hruns
  obtain rfl : result = .ok printed := eq_ok_of_mem hwiped
  dsimp only at hruns
  generalize hopen'' : Session.open "/r" .standard w = opened at hruns
  obtain ⟨result, w'⟩ := opened
  obtain ⟨c, hc, himported, hshallow, hremoved, hnumber⟩ := hruns
  obtain rfl : result = .ok c := eq_ok_of_mem hc
  have hthird := ((hsecond.wiped hwipe).opened hopen'').after _ hshallow
  rw [himported] at hthird
  clear himported hshallow
  generalize Run.after _ (.importFiles _) = third at hthird hremoved hnumber
  have hlast := hthird.after (.remove "A") (List.forall_mem_nil _)
  rw [hremoved] at hlast
  have hlive : ∀ name,
      Live ([.stored "A", .stored "B", .wiped] ++ [.stored "A"] ++ [.stored "B"] ++ [.removed "A"]) name ↔
        name = "B" := by
    intro name
    have hnone : ¬Live [.stored "A", .stored "B", .wiped] name := not_live_wiped [.stored "A", .stored "B"] name
    simp only [live_removed, live_stored, hnone, or_false]
    exact ⟨fun h => h.1.resolve_right h.2, fun h => ⟨.inl h, h ▸ by decide⟩⟩
  obtain ⟨names, hsorted, hnames, hreports, -, hremove⟩ := classes_are_live (by decide) (by decide) hlast
  obtain rfl : names = ["B"] := Listing.eq_of_ascending hsorted (List.pairwise_singleton _ _) fun name =>
    (hnames name).trans ((hlive name).trans List.mem_singleton.symm)
  exact ⟨_, hlast, hnumber, hreports, hremove "C" hnumber (by decide)⟩

end ClassDeps.Session
