import ClassDeps.Proofs.Cache.Roster
import ClassDeps.Proofs.Session.Recorded

/-!
# The roster of a session

Importing documents adds their names to the classes of a session, removing takes one name away, and nothing else changes
them, whether a command succeeds or fails. What the session prints about its classes follows from their names.

## Main definitions

* `Session.Event`, `Session.Live` — which classes there are after a history
* `Session.stored`, `Run.events` — what a command does to the classes
* `Run.Lists` — the classes of a session
* `Run.Reports` — what a session prints about its classes

## Main statements

* `live_concat` — one more event
* `Run.Lists.after` — one more command
* `Run.Lists.exists_reports` — what is printed
-/

namespace ClassDeps.Session

open Json (depthLimit)

/-! ## Histories -/

/-- What changes which classes there are. -/
inductive Event where
  | stored (name : String)
  | removed (name : String)
  | wiped
  deriving DecidableEq

/-- A class was stored, and has neither been removed nor wiped since. -/
def Live (history : List Event) (name : String) : Prop :=
  ∃ before after, history = before ++ .stored name :: after ∧ .removed name ∉ after ∧ .wiped ∉ after

variable {history : List Event} {event : Event} {name : String}

theorem not_live_nil (name : String) : ¬Live [] name := by
  rintro ⟨before, after, hnil, -⟩
  simp at hnil

/-- The last event stores the class, or neither removes nor wipes it. -/
theorem live_concat : Live (history ++ [event]) name ↔
    event = .stored name ∨ (Live history name ∧ event ≠ .removed name ∧ event ≠ .wiped) := by
  constructor
  · rintro ⟨before, after, hhistory, hremoved, hwiped⟩
    obtain rfl | ⟨after, last, rfl⟩ := after.eq_nil_or_concat
    · exact .inl (List.singleton_inj.1 (List.append_inj' hhistory rfl).2)
    · have hinit : history ++ [event] = (before ++ .stored name :: after) ++ [last] := by simpa using hhistory
      obtain ⟨rfl, hlast⟩ := List.append_inj' hinit rfl
      obtain rfl := List.singleton_inj.1 hlast
      simp only [List.concat_eq_append, List.mem_append, List.mem_singleton, not_or] at hremoved hwiped
      exact .inr ⟨⟨before, after, rfl, hremoved.1, hwiped.1⟩, Ne.symm hremoved.2, Ne.symm hwiped.2⟩
  · rintro (rfl | ⟨⟨before, after, rfl, hremoved, hwiped⟩, hne, hne'⟩)
    · exact ⟨history, [], rfl, List.not_mem_nil, List.not_mem_nil⟩
    · refine ⟨before, after ++ [event], by simp, ?_⟩
      simp only [List.mem_append, List.mem_singleton, not_or]
      exact ⟨⟨hremoved, hne.symm⟩, hwiped, hne'.symm⟩

theorem live_stored {other : String} :
    Live (history ++ [.stored other]) name ↔ name = other ∨ Live history name := by
  rw [live_concat]
  simp [eq_comm]

theorem live_removed {other : String} :
    Live (history ++ [.removed other]) name ↔ Live history name ∧ name ≠ other := by
  rw [live_concat]
  simp [eq_comm]

theorem not_live_wiped (history : List Event) (name : String) : ¬Live (history ++ [.wiped]) name := by
  rw [live_concat]
  simp

variable {r s : Run} {live live' : String → Prop} {α β : Type}

/-- The document whose record importing a file stores, if any. -/
def storedFile (path : String) (r : Run) : Option ClassDocument :=
  match readDocument path r with
  | (.error _, _) => none
  | (.ok document, r) =>
    match importDocument document r with
    | (.error _, _) => none
    | (.ok _, _) => some document

/-- The documents whose records importing files stores, up to the first file whose import fails. -/
def stored : List String → Run → List ClassDocument
  | [], _ => []
  | path :: rest, r =>
    (storedFile path r).toList ++ match importFile path r with
      | (.ok (), s) => stored rest s
      | (.error _, _) => []

/-- The documents whose records a command stores. -/
def Run.stored (r : Run) : Cli.Command → List ClassDocument
  | .importFiles paths => Session.stored paths r
  | _ => []

/-- What a command does to the classes. A removal that fails does nothing. -/
def Run.events (r : Run) : Cli.Command → List Event
  | .importFiles paths => (Session.stored paths r).map fun document => .stored document.name
  | .remove name =>
    match (removeClass name r).1 with
    | .error _ => []
    | .ok () => [.removed name]
  | _ => []

/-! ## Names of classes -/

theorem bind_of_ok {op : Command α} {next : α → Command β} {a : α} (h : op r = (.ok a, s)) :
    (op >>= next) r = next a s := by
  rw [Files.bind_apply, h]

theorem symbolTable_apply (r : Run) : symbolTable r = (.ok r.session.symbols, r) :=
  rfl

theorem classId_of_mem (h : name ∈ r.session.symbols.symbols) :
    classId name r = (.ok (r.session.symbols.number name), r) := by
  rw [classId, bind_of_ok (symbolTable_apply r), SymbolTable.id?_eq_some_number h]
  rfl

theorem classId_of_notMem (h : name ∉ r.session.symbols.symbols) :
    classId name r = (.error (.unknownClass name), r) := by
  rw [classId, bind_of_ok (symbolTable_apply r), SymbolTable.id?_eq_none_iff.2 h]
  rfl

/-- A name without a number cannot be removed, and nothing changes. -/
theorem removeClass_of_notMem (h : name ∉ r.session.symbols.symbols) :
    removeClass name r = (.error (.unknownClass name), r) := by
  rw [removeClass, Files.bind_apply, classId_of_notMem h]

theorem Run.remove_of_ok (h : removeClass name r = (.ok (), s)) :
    r.events (.remove name) = [.removed name] ∧ r.after (.remove name) = s :=
  ⟨by rw [Run.events, h], congrArg Prod.snd h⟩

theorem Run.remove_of_notMem (h : name ∉ r.session.symbols.symbols) :
    r.events (.remove name) = [] ∧ r.after (.remove name) = r :=
  ⟨by rw [Run.events, removeClass_of_notMem h], congrArg Prod.snd (removeClass_of_notMem h)⟩

/-! ## Classes of a session -/

/-- A session has records of the classes with some names, and of no others. -/
structure Run.Lists (live : String → Prop) (r : Run) : Prop where
  separate : r.Separate
  roster : r.cache.Roster live r.session.symbols

namespace Run.Lists

theorem congr (h : r.Lists live) (hsame : ∀ name, live' name ↔ live name) : r.Lists live' :=
  ⟨h.separate, h.roster.congr hsame⟩

/-- A command, and what comes next if it does not fail. -/
theorem bind {op : Command α} {next : α → Command β} (hop : (op r).2.Lists live)
    (hnext : ∀ a s, op r = (.ok a, s) → s.Lists live → (next a s).2.Lists live) : ((op >>= next) r).2.Lists live := by
  rw [Files.bind_apply]
  match h : op r with
  | (.ok a, s) =>
    rw [h] at hop
    exact hnext a s h hop
  | (.error error, s) =>
    rw [h] at hop
    exact hop

theorem print (h : r.Lists live) (text : String) : (Session.print text r).2.Lists live :=
  ⟨h.separate, h.roster⟩

theorem symbolTable (h : r.Lists live) : (Session.symbolTable r).2.Lists live :=
  h

theorem classId (h : r.Lists live) (name : String) : (Session.classId name r).2.Lists live := by
  refine h.symbolTable.bind fun table s _ hs => ?_
  cases table.id? name with
  | none => exact hs
  | some id => exact hs

/-- An operation of a session answers as that of its cache. -/
theorem exists_onCache (h : r.Lists live) {op : Cache.Op α} (hroot : (r.cache.after op).root = r.cache.root)
    (hop : (r.cache.after op).Roster live' r.session.symbols) :
    ∃ s, onCache op r = ((r.cache.answer op).mapError Failure.cache, s) ∧ s.Lists live' ∧ s.cache = r.cache.after op ∧
      s.session.symbols = r.session.symbols ∧ s.printed = r.printed := by
  have hcache := OpenCache.cache_run h.separate op.run hroot
  have hseparate := OpenCache.separate_run h.separate op.run
  let s := r.update r.session.symbols (r.session.cache.run op.run r.files).2.1 (r.session.cache.run op.run r.files).2.2
  have hs : s.cache = r.cache.after op := hcache
  exact ⟨s, onCache_eq op r rfl, ⟨hseparate, hs ▸ hop⟩, hs, rfl, rfl⟩

theorem onCache (h : r.Lists live) {op : Cache.Op α} (hroot : (r.cache.after op).root = r.cache.root)
    (hop : (r.cache.after op).Roster live' r.session.symbols) : (Session.onCache op r).2.Lists live' := by
  obtain ⟨s, honCache, hs, -⟩ := h.exists_onCache hroot hop
  rw [honCache]
  exact hs

/-- An operation that only looks at the cache leaves it as it is. -/
theorem exists_onCache_of_same (h : r.Lists live) (op : Cache.Op α) (hop : r.cache.after op = r.cache) :
    ∃ s, Session.onCache op r = ((r.cache.answer op).mapError Failure.cache, s) ∧ s.Lists live ∧
      s.session.symbols = r.session.symbols ∧ s.printed = r.printed := by
  obtain ⟨s, honCache, hs, -, hsame⟩ := h.exists_onCache (congrArg Cache.root hop) (hop.symm ▸ h.roster)
  exact ⟨s, honCache, hs, hsame⟩

theorem onCache_of_same (h : r.Lists live) {op : Cache.Op α} (hop : ∀ c : Cache, c.after op = c) :
    (Session.onCache op r).2.Lists live :=
  h.onCache (congrArg Cache.root (hop r.cache)) ((hop r.cache).symm ▸ h.roster)

/-! ## Looking at classes -/

theorem getClass (h : r.Lists live) (q : SymbolId) : (Session.onCache (Cache.getClass q) r).2.Lists live :=
  h.onCache (Cache.root_apply (.getClass q) r.cache) (h.roster.getClass q)

theorem isRemote (h : r.Lists live) (q : SymbolId) : (Session.onCache (Cache.isRemote q) r).2.Lists live :=
  h.onCache (Cache.root_apply (.isRemote q) r.cache) (h.roster.isRemote q)

theorem after_classNames (c : Cache) : c.after Cache.classNames = c := by
  rw [Cache.after, Cache.perform_classNames]

theorem listClasses (h : r.Lists live) : (Session.listClasses r).2.Lists live :=
  (h.onCache_of_same after_classNames).bind fun _ _ _ hs => hs.symbolTable.bind fun _ _ _ hs => hs.print _

theorem showClass (h : r.Lists live) (name : String) : (Session.showClass name r).2.Lists live := by
  refine (h.classId name).bind fun q s _ hs => ?_
  refine (hs.getClass q).bind fun found s _ hs => ?_
  cases found with
  | none => exact hs
  | some record =>
    refine (hs.isRemote q).bind fun remote s _ hs => ?_
    refine (hs.onCache_of_same fun _ => rfl).bind fun subclasses s _ hs => ?_
    exact hs.symbolTable.bind fun table s _ hs => hs.print _

theorem showDependencies (h : r.Lists live) (name : String) : (Session.showDependencies name r).2.Lists live := by
  refine (h.classId name).bind fun q s _ hs => ?_
  have hroot : (s.cache.after (Cache.backDependencies q)).root = s.cache.root := by
    rw [Cache.after_backDependencies]
    exact Cache.root_apply (.getClass q) s.cache
  refine (hs.onCache hroot (hs.roster.backDependencies q)).bind fun found s _ hs => ?_
  split
  · exact hs.print _
  · exact hs.symbolTable.bind fun table s _ hs => hs.print _

theorem showStats (h : r.Lists live) : (Session.showStats r).2.Lists live :=
  (h.onCache_of_same fun _ => rfl).bind fun _ _ _ hs => hs.symbolTable.bind fun _ _ _ hs => hs.print _

/-! ## Changing them -/

/-- A document whose record is stored is one of a class from then on. -/
theorem importDocument_ok {document : ClassDocument} {q : SymbolId} (h : r.Lists live)
    (hdepth : document.nesting ≤ depthLimit) (himport : Session.importDocument document r = (.ok q, s)) :
    s.Lists fun other => other = document.name ∨ live other := by
  obtain ⟨hrun, hs⟩ := of_importDocument h.separate himport
  exact ⟨hs, h.roster.importDocument_ok hdepth hrun⟩

theorem importDocument_error {document : ClassDocument} {failure : Failure} (h : r.Lists live)
    (himport : Session.importDocument document r = (.error failure, s)) : s.Lists live := by
  obtain ⟨error | q, s', himport', hrun, hs⟩ := exists_importDocument h.separate document
  · cases himport'.symm.trans himport
    exact ⟨hs, h.roster.importDocument_error hrun⟩
  · cases himport'.symm.trans himport

/-- Importing a file adds the class of its document if the record of that is stored, even if something fails then. -/
theorem importFile {path : String} (h : r.Lists (Live history))
    (hshallow : ∀ document ∈ storedFile path r, document.nesting ≤ depthLimit) :
    (Session.importFile path r).2.Lists
      (Live (history ++ (storedFile path r).toList.map fun document => .stored document.name)) := by
  have hsame := readDocument_snd path r
  rw [Session.importFile, Files.bind_apply]
  rw [storedFile] at hshallow ⊢
  generalize readDocument path r = read at hsame hshallow ⊢
  obtain ⟨result, r'⟩ := read
  obtain rfl : r' = r := hsame
  cases result with
  | error failure =>
    simp only [Option.toList_none, List.map_nil, List.append_nil]
    exact h
  | ok document =>
    simp only at hshallow ⊢
    rw [Files.bind_apply]
    rcases himport : Session.importDocument document r' with ⟨failure | q, s⟩
    · simp only [Option.toList_none, List.map_nil, List.append_nil]
      exact h.importDocument_error himport
    · rw [himport] at hshallow
      have hs : s.Lists (Live (history ++ [.stored document.name])) :=
        (h.importDocument_ok (hshallow document rfl) himport).congr fun name => live_stored
      refine (hs.onCache (Cache.root_apply (.indexReferences q) s.cache) (hs.roster.indexReferences q)).bind
        fun _ s _ hs => ?_
      exact hs.symbolTable.bind fun table s _ hs => hs.print _

theorem importFiles {paths : List String} (h : r.Lists (Live history))
    (hshallow : ∀ document ∈ Session.stored paths r, document.nesting ≤ depthLimit) :
    (Session.importFiles paths r).2.Lists
      (Live (history ++ (Session.stored paths r).map fun document => .stored document.name)) := by
  induction paths generalizing r history with
  | nil =>
    rw [Session.stored, List.map_nil, List.append_nil]
    exact h
  | cons path rest ih =>
    rw [Session.stored] at hshallow ⊢
    have hfile := h.importFile fun document hdocument =>
      hshallow document (List.mem_append_left _ (Option.mem_toList.2 hdocument))
    rw [importFiles_cons, Files.bind_apply, List.map_append, ← List.append_assoc]
    match himport : Session.importFile path r with
    | (.ok (), s) =>
      rw [himport] at hfile hshallow
      exact ih hfile fun document hdocument => hshallow document (List.mem_append_right _ hdocument)
    | (.error failure, s) =>
      rw [himport] at hfile
      simp only [List.map_nil, List.append_nil]
      exact hfile

/-- A name that has a number can be removed, and no other one goes with it. -/
theorem removeClass_ok (h : r.Lists live) (hsize : r.session.symbols.size ≤ SymbolTable.limit)
    (hname : name ∈ r.session.symbols.symbols) :
    ∃ s, removeClass name r = (.ok (), s) ∧ s.Lists fun other => live other ∧ other ≠ name := by
  have hperform := h.roster.toLegible.perform_removeClass (r.session.symbols.number name)
  have hafter : r.cache.after (Cache.removeClass (r.session.symbols.number name)) =
    r.cache.without (r.session.symbols.number name) := congrArg Prod.snd hperform
  obtain ⟨s, honCache, hs, -⟩ := h.exists_onCache
    (Cache.root_apply (.removeClass (r.session.symbols.number name)) r.cache)
    (hafter.symm ▸ h.roster.without hsize hname)
  rw [Cache.answer, hperform] at honCache
  refine ⟨_, ?_, hs.print (Listing.line s!"Removed {name}")⟩
  rw [removeClass, bind_of_ok (classId_of_mem hname), bind_of_ok honCache]
  rfl

/-- One more command, which may fail. -/
theorem after (h : r.Lists (Live history)) (hsize : r.session.symbols.size ≤ SymbolTable.limit) {command : Cli.Command}
    (hshallow : ∀ document ∈ r.stored command, document.nesting ≤ depthLimit) :
    (r.after command).Lists (Live (history ++ r.events command)) := by
  have hnothing : history ++ [] = history := List.append_nil history
  cases command with
  | classes => exact hnothing.symm ▸ h.listClasses
  | showClass name => exact hnothing.symm ▸ h.showClass name
  | dependencies name => exact hnothing.symm ▸ h.showDependencies name
  | importFiles paths => exact h.importFiles hshallow
  | stats => exact hnothing.symm ▸ h.showStats
  | wipe => exact hnothing.symm ▸ h
  | remove name =>
    by_cases hname : name ∈ r.session.symbols.symbols
    · obtain ⟨s, hremove, hs⟩ := h.removeClass_ok hsize hname
      obtain ⟨hevents, hafter⟩ := Run.remove_of_ok hremove
      rw [hevents, hafter]
      exact hs.congr fun name => live_removed
    · obtain ⟨hevents, hafter⟩ := Run.remove_of_notMem hname
      rw [hevents, hafter, hnothing]
      exact h

end Run.Lists

/-! ## What is printed -/

/-- What a session prints about its classes, if these are the ones with some names. -/
structure Run.Reports (names : List String) (r : Run) : Prop where
  classes : ∃ s, listClasses r = (.ok (), s) ∧ s.printed = r.printed ++ Listing.ofNames names
  stats : ∃ memory s, showStats r = (.ok (), s) ∧
    s.printed = r.printed ++ Listing.stats r.session.symbols names.length memory
  shows : ∀ name ∈ names, ∃ record remote subclasses s, r.session.symbols.resolve record.name = name ∧
    showClass name r = (.ok (), s) ∧
      s.printed = r.printed ++ Listing.classRecord r.session.symbols record remote subclasses

namespace Run.Lists

variable {n : Nat} {documents : List ClassDocument}

/-- A class that is there is shown with its record. -/
theorem exists_showClass (h : r.Lists live) (hsize : r.session.symbols.size ≤ SymbolTable.limit)
    (hrecorded : r.Recorded n documents) (hlive : live name) :
    ∃ record remote subclasses s, r.session.symbols.resolve record.name = name ∧ Session.showClass name r = (.ok (), s) ∧
      s.printed = r.printed ++ Listing.classRecord r.session.symbols record remote subclasses := by
  have hname := h.roster.known name hlive
  obtain ⟨record, hget⟩ := h.roster.exists_record hlive
  obtain ⟨s, honCache, hs, -, hsymbols, hprinted⟩ := h.exists_onCache
    (Cache.root_apply (.getClass (r.session.symbols.number name)) r.cache) (h.roster.getClass _)
  obtain ⟨remote, hremote⟩ := hs.roster.toCoherent.exists_isRemote (r.session.symbols.number name)
  obtain ⟨s', honCache', hs', -, hsymbols', hprinted'⟩ := hs.exists_onCache
    (Cache.root_apply (.isRemote (r.session.symbols.number name)) s.cache) (hs.roster.isRemote _)
  obtain ⟨s'', honCache'', -, hsymbols'', hprinted''⟩ := hs'.exists_onCache_of_same
    (Cache.subclassesOf (r.session.symbols.number name)) rfl
  rw [hget] at honCache
  rw [hremote] at honCache'
  have hsame : s''.session.symbols = r.session.symbols := hsymbols''.trans (hsymbols'.trans hsymbols)
  let subclasses := s'.cache.subclasses.values (r.session.symbols.number name)
  let printed := s''.printed ++ Listing.classRecord s''.session.symbols record remote subclasses
  refine ⟨record, remote, subclasses, { s'' with printed }, ?_, ?_, ?_⟩
  · rw [(hrecorded.cache.isRecord_of_get (Cache.answer_getClass_eq_ok.1 hget)).name_eq]
    exact SymbolTable.resolve_number hname hsize
  · rw [Session.showClass, bind_of_ok (classId_of_mem hname), bind_of_ok honCache]
    simp only
    rw [bind_of_ok honCache', bind_of_ok honCache'']
    rfl
  · change printed = _
    rw [← hprinted, ← hprinted', ← hprinted'', ← hsame]

/-- What is printed about the classes of a session whose records were made of some documents. -/
theorem exists_reports (h : r.Lists live) (hsize : r.session.symbols.size ≤ SymbolTable.limit)
    (hrecorded : r.Recorded n documents) :
    ∃ names, (names.Pairwise fun a b => Bytes.ofText a < Bytes.ofText b) ∧ (∀ name, name ∈ names ↔ live name) ∧
      r.Reports names := by
  obtain ⟨ids, names, hanswer, hcount, hlisting, hsorted, hmem⟩ := h.roster.exists_names hsize
  obtain ⟨s, honCache, -, hsymbols, hprinted⟩ := h.exists_onCache_of_same Cache.classNames
    (after_classNames r.cache)
  obtain ⟨s', honCache', -, hsymbols', hprinted'⟩ := h.exists_onCache_of_same Cache.stats rfl
  rw [hanswer] at honCache
  refine ⟨names, hsorted, hmem, ⟨?_, ?_, fun name hname => h.exists_showClass hsize hrecorded ((hmem name).1 hname)⟩⟩
  · refine ⟨{ s with printed := s.printed ++ Listing.classNames s.session.symbols ids }, ?_, ?_⟩
    · rw [Session.listClasses, bind_of_ok honCache]
      rfl
    · change s.printed ++ _ = _
      rw [hprinted, hsymbols, hlisting]
  · refine ⟨r.cache.classes.stats,
      { s' with printed := s'.printed ++ Listing.stats s'.session.symbols r.cache.classes.size r.cache.classes.stats },
      ?_, ?_⟩
    · rw [Session.showStats, bind_of_ok honCache']
      rfl
    · change s'.printed ++ _ = _
      rw [hprinted', hsymbols', hcount]

end Run.Lists

end ClassDeps.Session
