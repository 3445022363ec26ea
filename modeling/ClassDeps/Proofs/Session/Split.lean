import ClassDeps.Proofs.Session.Ending

/-!
# Imports that are split over sessions

Files that can be imported in one session can be imported in two sessions as well, one after the other, and what the
sessions leave is the same: the symbols on disk, and what all stores hold, number for number.

## Main statements

* `Session.load_session` — the symbols that the next session loads
* `Session.Run.Open.reopen` — the next session has the same stores and holds the same
* `Session.import_split` — an import in one session and in two
-/

namespace ClassDeps

namespace Session

open Files (Amended Changes Follows Standing)

variable {root : String} {config : Config} {n : Nat} {t u v : Files} {s : Session} {r r' : Run}
  {paths others : List String}

/-! ## Imports one after the other -/

theorem importFiles_append_eq_ok_iff : importFiles (paths ++ others) r = (.ok (), r') ↔
    ∃ m, importFiles paths r = (.ok (), m) ∧ importFiles others m = (.ok (), r') := by
  induction paths generalizing r with
  | nil => exact ⟨fun h => ⟨r, rfl, h⟩, fun ⟨_, h, hrest⟩ => by cases h; exact hrest⟩
  | cons path paths ih =>
    rw [List.cons_append, importFiles_cons_eq_ok_iff]
    simp only [ih, importFiles_cons_eq_ok_iff]
    constructor
    · rintro ⟨u, hfile, m, hpaths, hothers⟩
      exact ⟨m, ⟨u, hfile, hpaths⟩, hothers⟩
    · rintro ⟨m, ⟨u, hfile, hpaths⟩, hothers⟩
      exact ⟨u, hfile, m, hpaths, hothers⟩

/-- After an import there are symbols. -/
theorem symbols_ne_nil_of_importFiles (hr : r.Separate) (h : importFiles paths r = (.ok (), r')) (hne : paths ≠ []) :
    r'.session.symbols.symbols ≠ [] := by
  obtain ⟨documents, hlength, -, hall, -⟩ := of_importFiles hr h
  obtain ⟨-, htable, -⟩ := Cache.of_importAll_eq_ok hall
  cases documents with
  | nil => exact absurd (List.length_eq_zero_iff.1 hlength.symm) hne
  | cons document documents =>
    rw [htable]
    refine List.ne_nil_of_mem (SymbolTable.mem_extend.2 (.inr ?_) : document.name ∈ _)
    rw [List.flatMap_cons]
    exact List.mem_append_left _ List.mem_cons_self

theorem runCommand_importFiles_eq_ok_iff {printed : String} :
    Cli.runCommand (.importFiles paths) root config t = (.ok (), printed, u) ↔
      ∃ s v r, Session.open root config t = (.ok s, v) ∧ importFiles paths ⟨s, v, ""⟩ = (.ok (), r) ∧
        r.session.close r.files = (.ok (), u) ∧ r.printed = printed := by
  unfold Cli.runCommand
  match hopen : Session.open root config t with
  | (.error failure, v) => exact iff_of_false nofun fun ⟨_, _, _, h, _⟩ => nomatch h
  | (.ok s, v) =>
    simp only [Cli.Command.ofSession?]
    constructor
    · intro h
      match himport : importFiles paths ⟨s, v, ""⟩ with
      | (.error failure, r) =>
        rw [ExceptT.run, himport] at h
        cases h
      | (.ok (), r) =>
        rw [ExceptT.run, himport] at h
        obtain ⟨hclose, hrest⟩ := Prod.mk.inj h
        obtain ⟨hprinted, hfiles⟩ := Prod.mk.inj hrest
        exact ⟨s, v, r, rfl, himport, Prod.ext hclose hfiles, hprinted⟩
    · rintro ⟨_, _, r, hsame, himport, hclose, rfl⟩
      cases hsame
      rw [ExceptT.run, himport]
      simp only [hclose]

/-! ## Symbols of the next session -/

/-- The next session loads the symbols of a session that ended well. If there are none, and none were on disk, then
nothing stands where they are to be saved. -/
theorem load_session (hplain : Address.IsPlain root) (ht : Settled root t)
    (hopen : Session.open root config t = (.ok s, u)) (himport : importFiles paths ⟨s, u, ""⟩ = (.ok (), r))
    (hclose : r.session.close r.files = (.ok (), v))
    (hready : r.session.symbols.symbols = [] → (symbolsOf root).Ready SymbolTable.fileName v) :
    ∃ table, SymbolTable.load (symbolsOf root) v = .ok table ∧ table.symbols = r.session.symbols.symbols := by
  by_cases hne : r.session.symbols.symbols = []
  · obtain ⟨hload, -, -⟩ := Session.of_open hopen
    have hopened : Run.Open root config t.users ⟨s, u, ""⟩ := .of_open hplain ht hopen
    have hleads : Run.Leads (· = symbolPlace root t) 0 _ ⟨s, u, ""⟩ r :=
      leads_of_importFiles (fun _ => aside_of_eq) himport
    -- Nothing was saved, for there is nothing that the symbols were made up to.
    have hsame : r.session.symbols = s.symbols := by
      refine hleads.grows.eq_of_symbols_eq ?_
      rw [hne, List.prefix_nil.1 (hne ▸ hleads.grows.le : s.symbols.symbols <+: [])]
    have hclean : r.session.symbols.dirty = false := by
      rw [hsame]
      exact (SymbolTable.built_load hload).2
    rw [close_apply, SymbolTable.save_of_clean hclean] at hclose
    obtain ⟨-, rfl⟩ := Prod.mk.inj hclose
    refine ⟨s.symbols, ?_, congrArg SymbolTable.symbols hsame.symm⟩
    match hfile : (symbolsOf root).loadOptional SymbolFile.form SymbolTable.fileName t with
    | .error error =>
      rw [SymbolTable.load, hfile] at hload
      cases hload
    | .ok (some file) =>
      have hspares : Files.Spares (· = symbolPlace root t) (fun _ => True) t (r.session.cache.close r.files) :=
        ((spares_open (fun _ => aside_of_eq) (fun _ => trivial) hopen).trans hleads.spares).trans
          (r.session.cache.spares_close (fun _ => aside_of_eq) r.files)
      rw [SymbolTable.load_of_spares hfile hspares rfl, hload]
    | .ok none =>
      have hchanges : Changes (· ∈ OpenCache.storePaths root) (fun _ => False) t (r.session.cache.close r.files) :=
        ((changes_open hplain hopen).trans (hleads.commits.changes (OpenCache.users_of_held hopened.held))).trans
          (changes_closeCache r.session.cache r.files)
      have hmissing : (symbolsOf root).exists? SymbolTable.fileName t = false := JsonStore.loadOptional_eq_none_iff.1 hfile
      have hempty : s.symbols = .empty := Except.ok.inj (hload.symm.trans (SymbolTable.load_of_missing hmissing))
      rw [hempty]
      exact SymbolTable.load_of_missing (missing_of_changes ht.located hchanges (hready hne).document hmissing)
  · have hsaved := savedSymbols_session hopen himport hclose hne
    refine ⟨savedSymbols root v, SymbolTable.load_of_onDisk ?_, hsaved⟩
    rwa [← hsaved] at hne

/-! ## The next session -/

/-- A session that has ended is opened again: the next one has the same stores, and holds the same. -/
theorem Run.Open.reopen {table : SymbolTable} (hplain : Address.IsPlain root) (h : r.Open root config n)
    (hv : Settled root v) (hfollows : Follows (Own root r.files) r.files v) (hkeeps : r.files.Keeps v)
    (hload : SymbolTable.load (symbolsOf root) v = .ok table)
    (hsymbols : table.symbols = r.session.symbols.symbols) :
    ∃ s w, Session.open root config v = (.ok s, w) ∧ s.cache.ids = r.session.cache.ids ∧
      Follows (OpenCache.IsLog (v.target root)) v w ∧ r.Twin ⟨s, w, ""⟩ := by
  have hroot : root = "" ∨ v.isDirectory root = true :=
    h.directory.imp_right (Files.isDirectory_of_directories hfollows.working hfollows.directory)
  have haside : ∀ q ∈ OpenCache.requests root, (v.target q.1).Aside := by
    intro q hq
    rw [Files.target_of_working hfollows.working]
    exact (OpenCache.accessible_requests hplain h.reachable q hq).aside
  obtain ⟨c, w, hcache, hids, hopened⟩ := OpenCache.open_of_standing hroot (h.stands hfollows) haside
  have hopen : Session.open root config v = (.ok ⟨c, table, symbolsOf root⟩, w) := by
    rw [open_eq, hload]
    simp only [hcache]
  have hnext : Run.Open root config v.users ⟨⟨c, table, symbolsOf root⟩, w, ""⟩ := .of_open hplain hv hopen
  refine ⟨⟨c, table, symbolsOf root⟩, w, hopen, hids, hopened, ?_⟩
  have hcontents : ∀ id ∈ r.session.cache.ids, w.contents id = r.files.contents id :=
    fun id hid => (hkeeps.trans (OpenCache.cache_open hcache).1).contents (h.separate.known id hid)
  exact {
    symbols := hsymbols
    built := h.built
    cache := OpenCache.alike_of_contents hids hcontents (hnext.capacity.trans h.capacity.symm) h.fits hnext.fits
    separate := h.separate
    separate' := hnext.separate
    attached := h.attached
    attached' := hnext.attached
    -- What was changed at the places of logs and symbols was no class document.
    shows := (hfollows.toAgree.shows h.settled.quiet).trans
      (hopened.toAgree.shows fun place hplace => hv.quiet place (.inl hplace)) }

/-! ## One session or two -/

/-- Sessions that have the same stores and hold the same leave the same in them. -/
theorem Run.Twin.stores {n' : Nat} {w : Files} (htwin : r.Twin r') (h : r.Open root config n)
    (h' : r'.Open root config n') (hids : r'.session.cache.ids = r.session.cache.ids)
    (hfollows : Follows (Own root r.files) r.files u) (hkeeps : r.files.Keeps u)
    (hfollows' : Follows (Own root r'.files) r'.files w) (hkeeps' : r'.files.Keeps w) :
    ∀ path ∈ OpenCache.storePaths root, ∃ id, u.storeAt? path = some id ∧ w.storeAt? path = some id ∧
      w.contents id = u.contents id := by
  have hstands := h.stands hfollows
  have hstands' := h'.stands hfollows'
  rw [hids] at hstands'
  have hcontents := OpenCache.contents_of_alike hids htwin.cache h.attached h'.attached
  intro path hpath
  rw [OpenCache.storePaths_eq] at hpath
  obtain ⟨q, hq, rfl⟩ := List.mem_map.1 hpath
  obtain ⟨i, hi, rfl⟩ := List.getElem_of_mem hq
  have hi' : i < r.session.cache.ids.length := hstands.length_eq ▸ hi
  have hid : r.session.cache.ids[i] ∈ r.session.cache.ids := List.getElem_mem hi'
  have hid' : r.session.cache.ids[i] ∈ r'.session.cache.ids := by rwa [hids]
  refine ⟨r.session.cache.ids[i], (hstands.get hi hi').storeAt?_eq, (hstands'.get hi hi').storeAt?_eq, ?_⟩
  rw [hkeeps'.contents (h'.separate.known _ hid'), hcontents _ hid, hkeeps.contents (h.separate.known _ hid)]

/-- A session that can import more files and then end well can end well before. -/
theorem Run.Open.close_before (h : r.Open root config n)
    (himport : Session.importFiles others r = (.ok (), r'))
    (hclose : r'.session.close r'.files = (.ok (), u)) :
    ∃ v, r.session.close r.files = (.ok (), v) ∧ Settled root v ∧ Follows (Own root r.files) r.files v ∧
      r.files.Keeps v ∧ (r'.session.symbols.dirty = true → (symbolsOf root).Ready SymbolTable.fileName v) := by
  obtain ⟨h', hamended⟩ := h.importFiles himport
  have hleads : r.Leads (fun _ => False) 0 _ r' := leads_of_importFiles nofun himport
  have hready (hdirty : r'.session.symbols.dirty = true) : (symbolsOf root).Ready SymbolTable.fileName r.files :=
    (ready_iff_of_amended hamended).2 (h'.ready_of_close hclose hdirty)
  obtain ⟨v, hclosed, hfollows, hkeeps, hstays⟩ := h.close_ok fun hdirty => hready (hleads.grows.dirty hdirty)
  have hchanging := changing_close h.store r.files
  rw [hclosed] at hchanging
  exact ⟨v, hclosed, h.settled.changing hchanging, hfollows, hkeeps, fun hdirty => hstays (hready hdirty)⟩

/-- An import that succeeds in one session succeeds in two as well, and leaves the same symbols, records, markers and
edges on disk, number for number. If the path of the cache is a URI, the next session need not find the stores again:
their paths may lead below the place of a store or of the symbols, where there was nothing before the first session. -/
theorem import_split {printed : String} (hplain : Address.IsPlain root) (hleft : Left root t) (hne : paths ++ others ≠ [])
    (h : Cli.runCommand (.importFiles (paths ++ others)) root config t = (.ok (), printed, u)) :
    ∃ first v second w, Cli.runCommand (.importFiles paths) root config t = (.ok (), first, v) ∧
      Cli.runCommand (.importFiles others) root config v = (.ok (), second, w) ∧
      (savedSymbols root w).symbols = (savedSymbols root u).symbols ∧
      ∀ path ∈ OpenCache.storePaths root, ∃ id, u.storeAt? path = some id ∧ w.storeAt? path = some id ∧
        w.contents id = u.contents id := by
  have ht := hleft.settled hplain
  obtain ⟨s, t₁, r, hopen, himport, hclose, -⟩ := runCommand_importFiles_eq_ok_iff.1 h
  obtain ⟨m, hfirst, hsecond⟩ := importFiles_append_eq_ok_iff.1 himport
  have hopened : Run.Open root config t.users ⟨s, t₁, ""⟩ := .of_open hplain ht hopen
  obtain ⟨hm, -⟩ := hopened.importFiles hfirst
  obtain ⟨hr, -⟩ := hm.importFiles hsecond
  have hleads : m.Leads (fun _ => False) 0 _ r := leads_of_importFiles nofun hsecond
  have hsymbols : r.session.symbols.symbols ≠ [] := symbols_ne_nil_of_importFiles hopened.separate himport hne
  -- The first session ends, and the second one loads its symbols.
  obtain ⟨v, hclosed, hv, hfollows, hkeeps, hready⟩ := hm.close_before hsecond hclose
  obtain ⟨table, hload, htable⟩ := load_session hplain ht hopen hfirst hclosed fun hempty =>
    hready (hleads.grows.eq_or_dirty.resolve_left fun hsame => hsymbols (hsame ▸ hempty))
  obtain ⟨s', w, hreopen, hids, hreopened, htwin⟩ := hm.reopen hplain hv hfollows hkeeps hload htable
  obtain ⟨r', himport', htwin'⟩ := htwin.importFiles hsecond
  have hopened' : Run.Open root config v.users ⟨s', w, ""⟩ := .of_open hplain hv hreopen
  obtain ⟨hr', hamended'⟩ := hopened'.importFiles himport'
  have hleads' : Run.Leads (fun _ => False) 0 _ ⟨s', w, ""⟩ r' := leads_of_importFiles nofun himport'
  -- If it has symbols to save, so has the one session, and nothing is in the way.
  obtain ⟨w', hclosed', hfollows', hkeeps', -⟩ := hr'.close_ok fun hdirty' => by
    have hdirty : r.session.symbols.dirty = true := by
      refine hleads.grows.eq_or_dirty.resolve_left fun hsame => ?_
      have hsame' : r'.session.symbols = s'.symbols :=
        hleads'.grows.eq_of_symbols_eq (by rw [htwin'.symbols, hsame, htwin.symbols])
      rw [hsame', (SymbolTable.built_load (Session.of_open hreopen).1).2] at hdirty'
      cases hdirty'
    refine (ready_iff_of_amended hamended').1 ?_
    exact (hready hdirty).agree hreopened.toAgree fun place hplace => Run.Open.not_isLog_of_mem_places hplace _
  refine ⟨m.printed, v, r'.printed, w', runCommand_importFiles_eq_ok_iff.2 ⟨s, t₁, m, hopen, hfirst, hclosed, rfl⟩,
    runCommand_importFiles_eq_ok_iff.2 ⟨s', w, r', hreopen, himport', hclosed', rfl⟩, ?_, ?_⟩
  · rw [savedSymbols_session hopen himport hclose hsymbols, ← htwin'.symbols]
    exact savedSymbols_session hreopen himport' hclosed' (by rwa [htwin'.symbols])
  · obtain ⟨u', hclose', hfollows, hkeeps, -⟩ := hr.close_ok (hr.ready_of_close hclose)
    cases hclose.symm.trans hclose'
    have hsame {r r' : Run} (hhandles : r'.session.cache.handles = r.session.cache.handles) :
        r'.session.cache.ids = r.session.cache.ids :=
      congrArg (List.map fun handle : OpenFile × StoreKind => handle.1.id) hhandles
    refine htwin'.stores hr hr' ?_ hfollows hkeeps hfollows' hkeeps'
    rw [hsame hleads'.handles, hsame hleads.handles, hids]

/-- After a session that has imported a class, others are imported in one session or in two, one of which describes the
class again. -/
theorem import_split_again :
    ∃ t printed u, Address.IsPlain "/c" ∧ Left "/c" t ∧ ["/B.json"] ++ ["/C.json"] ≠ [] ∧
      Cli.runCommand (.importFiles (["/B.json"] ++ ["/C.json"])) "/c" .standard t = (.ok (), printed, u) ∧
      ∃ first v second w, Cli.runCommand (.importFiles ["/B.json"]) "/c" .standard t = (.ok (), first, v) ∧
        Cli.runCommand (.importFiles ["/C.json"]) "/c" .standard v = (.ok (), second, w) ∧
        (savedSymbols "/c" w).symbols = (savedSymbols "/c" u).symbols ∧
        ∀ path ∈ OpenCache.storePaths "/c", ∃ id, u.storeAt? path = some id ∧ w.storeAt? path = some id ∧
          w.contents id = u.contents id := by
  let a : Files := Files.empty.setEntry ["A.json"] (.file (.ofText "\x7b\"name\":\"A\"\x7d"))
  let b : Files := a.setEntry ["B.json"] (.file (.ofText "\x7b\"name\":\"B\"\x7d"))
  let c : Files := b.setEntry ["C.json"]
    (.file (.ofText "\x7b\"name\":\"A\",\"superName\":\"B\"\x7d"))
  have hfile {bytes : Bytes} : ∀ id, Entry.file bytes ≠ .store id := by
    intro id h
    cases h
  have ha : a.Sound := Files.sound_empty.setEntry (by decide) hfile
  have hb : b.Sound := ha.setEntry (by decide) hfile
  have hc : c.Sound := hb.setEntry (by decide) hfile
  have hfree : ∀ place, Own "/c" c place → c.entryAt? place = none := by
    intro place hplace
    have hbelow : place.dropLast ≠ [] := by
      obtain heq | heq := hplace.dropLast_eq <;> rw [heq] <;> decide
    have hother (name : String) : place ≠ [name] := by
      rintro rfl
      exact hbelow rfl
    have hroot : place ≠ [] := by
      rintro rfl
      exact hbelow rfl
    rw [Files.entryAt?_setEntry (by decide), if_neg (hother _), Files.entryAt?_setEntry (by decide), if_neg (hother _),
      Files.entryAt?_setEntry (by decide), if_neg (hother _), Files.entryAt?, if_neg hroot]
    rfl
  let earlier : Visit := ⟨.standard, [.importFiles ["/A.json"]], false⟩
  have hleft : Left "/c" (earlier.run "/c" c) := .visit earlier (.new hc hfree)
  have hrun : (Cli.runCommand (.importFiles (["/B.json"] ++ ["/C.json"])) "/c" .standard (earlier.run "/c" c)).1 =
      .ok () := by decide +kernel
  rcases hresult : Cli.runCommand (.importFiles (["/B.json"] ++ ["/C.json"])) "/c" .standard (earlier.run "/c" c)
    with ⟨result, printed, u⟩
  rw [hresult] at hrun
  obtain rfl : result = .ok () := hrun
  exact ⟨_, printed, u, by decide, hleft, by decide, hresult, import_split (by decide) hleft (by decide) hresult⟩

end Session

end ClassDeps
