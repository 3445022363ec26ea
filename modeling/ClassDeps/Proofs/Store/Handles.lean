import ClassDeps.Proofs.Cache.Opened
import ClassDeps.Proofs.Files.Kinds

/-!
# Handles of one file

A file can be opened as a key-value store or as a multi-value store, as often as one likes. What it was opened as for
the first time it stays, and it holds what was written last, whoever tries to open it as what.

## Main definitions

* `Handle` — a handle of a store of either kind
* `Handle.open`, `Handle.Update`, `Handle.close` — its life
* `Handle.History` — attempts to open one file, with updates and closing between them
* `Handle.KeepsKind` — what a file keeps

## Main statements

* `Handle.History.keepsKind` — a file keeps its kind and what it holds
-/

namespace ClassDeps

open Files (Rooted)

/-- A handle of a store of either kind. -/
inductive Handle (κ α ι : Type) where
  | keyValue (s : OpenStore (KeyValueStore κ α))
  | multiValue (s : OpenStore (MultiValueStore ι))

namespace Handle

variable {κ α ι : Type}

/-! ## Handles -/

/-- Opens the file at a path as a store of a kind. -/
def «open» (path : String) (capacity : Nat) (journal : JournalMode) : StoreKind → Files.Op (Handle κ α ι)
  | .keyValue => return .keyValue (← KeyValueStore.open path capacity journal)
  | .multiValue => return .multiValue (← MultiValueStore.open path journal)

def kind : Handle κ α ι → StoreKind
  | keyValue _ => .keyValue
  | multiValue _ => .multiValue

def file : Handle κ α ι → OpenFile
  | keyValue s => s.file
  | multiValue s => s.file

/-- What a handle took up from its file, or wrote to it. -/
def shown : Handle κ α ι → StoreContents
  | keyValue s => Persistent.contents s.store
  | multiValue s => Persistent.contents s.store

/-- What a handle takes up from its file. -/
def seen (t : Files) : Handle κ α ι → StoreContents
  | keyValue s => Persistent.contents (s.refreshed t)
  | multiValue s => Persistent.contents (s.refreshed t)

/-- Ends the use of the file. -/
def close (t : Files) : Handle κ α ι → Files
  | keyValue s => s.close t
  | multiValue s => s.close t

/-- Any operation on the store of a handle, which is written back to the file. -/
inductive Update : Handle κ α ι → Files → Handle κ α ι → Files → Prop where
  | keyValue {β : Type} (s : OpenStore (KeyValueStore κ α)) (op : KeyValueStore κ α → β × KeyValueStore κ α)
    (t : Files) : Update (.keyValue s) t (.keyValue (s.run op t).2.1) (s.run op t).2.2
  | multiValue {β : Type} (s : OpenStore (MultiValueStore ι)) (op : MultiValueStore ι → β × MultiValueStore ι)
    (t : Files) : Update (.multiValue s) t (.multiValue (s.run op t).2.1) (s.run op t).2.2

variable {path : String} {capacity : Nat} {journal : JournalMode} {kind other : StoreKind} {contents : StoreContents}
  {h h' : Handle κ α ι} {held before after : List (Handle κ α ι)} {error : Error}
  {known : Option (StoreKind × StoreContents)} {start t u : Files}

/-- What an update does: the file of the handle holds what the handle shows then. -/
theorem Update.eq (hupdate : Update h t h' u) : h'.kind = h.kind ∧ h'.file = h.file ∧ h'.shown.kind = h.kind ∧
    u = (t.setContents h.file.id h'.shown).modifyLog h.file.id (.join h.file.user) := by
  cases hupdate with
  | keyValue => exact ⟨rfl, rfl, rfl, rfl⟩
  | multiValue => exact ⟨rfl, rfl, rfl, rfl⟩

theorem close_eq (h : Handle κ α ι) (t : Files) : h.close t = t.leaveStores (· = h.file.user) := by
  cases h with
  | keyValue => rfl
  | multiValue => rfl

/-- A handle sees what its file holds, if that is of its kind. -/
theorem seen_eq (hkind : (t.contents h.file.id).kind = h.kind) : h.seen t = t.contents h.file.id := by
  cases h with
  | keyValue s =>
    change StoreContents.keyValue (t.contents s.file.id).rows = t.contents s.file.id
    change (t.contents s.file.id).kind = .keyValue at hkind
    match hcontents : t.contents s.file.id with
    | .keyValue rows => rfl
    | .multiValue links => rw [hcontents] at hkind; cases hkind
  | multiValue s =>
    change StoreContents.multiValue (t.contents s.file.id).links = t.contents s.file.id
    change (t.contents s.file.id).kind = .multiValue at hkind
    match hcontents : t.contents s.file.id with
    | .multiValue links => rfl
    | .keyValue rows => rw [hcontents] at hkind; cases hkind

/-- A new handle of a file with some contents. -/
def fresh (path : String) (capacity : Nat) (file : OpenFile) (contents : StoreContents) : StoreKind → Handle κ α ι
  | .keyValue => .keyValue ⟨file, .ofRows path capacity contents.rows⟩
  | .multiValue => .multiValue ⟨file, ⟨path, contents.links⟩⟩

/-- Opening a handle is opening the store file. -/
theorem open_eq (path : String) (capacity : Nat) (journal : JournalMode) (kind : StoreKind) (t : Files) :
    Handle.open (κ := κ) (α := α) (ι := ι) path capacity journal kind t = match t.openStore path kind journal with
      | (.ok file, u) => (.ok (fresh path capacity file (u.contents file.id) kind), u)
      | (.error fault, u) => (.error (.storage fault), u) := by
  cases kind with
  | keyValue =>
    rw [Handle.open, Files.bind_apply, KeyValueStore.open, Files.bind_apply, Files.openKind]
    rcases t.openStore path .keyValue journal with ⟨_ | _, _⟩ <;> rfl
  | multiValue =>
    rw [Handle.open, Files.bind_apply, MultiValueStore.open, Files.bind_apply, Files.openKind]
    rcases t.openStore path .multiValue journal with ⟨_ | _, _⟩ <;> rfl

theorem of_fresh (path : String) (capacity : Nat) (file : OpenFile) (t : Files) (kind : StoreKind) :
    let h : Handle κ α ι := fresh path capacity file (t.contents file.id) kind
    h.kind = kind ∧ h.file = file ∧ h.shown = h.seen t := by
  cases kind with
  | keyValue => exact ⟨rfl, rfl, rfl⟩
  | multiValue => exact ⟨rfl, rfl, rfl⟩

/-- A handle is opened when its store is, and shows what it sees. -/
theorem of_open (hopen : Handle.open path capacity journal kind t = (.ok h, u)) :
    t.openStore path kind journal = (.ok h.file, u) ∧ h.kind = kind ∧ h.shown = h.seen u := by
  rw [open_eq] at hopen
  split at hopen
  · rename_i file v hstore
    obtain ⟨hkind, hfile, hshown⟩ := of_fresh (κ := κ) (α := α) (ι := ι) path capacity file v kind
    cases hopen
    exact ⟨hfile.symm ▸ hstore, hkind, hshown⟩
  · cases hopen

theorem of_open_error
    (hopen : Handle.open (κ := κ) (α := α) (ι := ι) path capacity journal kind t = (.error error, u)) :
    ∃ fault, error = .storage fault ∧ t.openStore path kind journal = (.error fault, u) := by
  rw [open_eq] at hopen
  split at hopen
  · cases hopen
  · rename_i fault v hstore
    cases hopen
    exact ⟨fault, rfl, hstore⟩

theorem exists_openStore {result : Except Error (Handle κ α ι)}
    (hopen : Handle.open path capacity journal kind t = (result, u)) :
    ∃ outcome, t.openStore path kind journal = (outcome, u) := by
  match result with
  | .ok h => exact ⟨_, (of_open hopen).1⟩
  | .error error =>
    obtain ⟨fault, -, hstore⟩ := of_open_error hopen
    exact ⟨_, hstore⟩

/-! ## Histories -/

/-- Attempts to open one file as what one likes, with updates and closing between those that succeed. Known are the kind
that the file was opened as for the first time, and what a handle showed when the file was first opened or written
last. -/
inductive History (path : String) (start : Files) :
    Files → List (Handle κ α ι) → Option (StoreKind × StoreContents) → Prop where
  | start : History path start start [] none
  | failed {t u : Files} {held : List (Handle κ α ι)} {known : Option (StoreKind × StoreContents)} {capacity : Nat}
    {journal : JournalMode} {kind : StoreKind} {error : Error} : History path start t held known →
    Handle.open (κ := κ) (α := α) (ι := ι) path capacity journal kind t = (.error error, u) →
    History path start u held known
  | opened {t u : Files} {held : List (Handle κ α ι)} {known : Option (StoreKind × StoreContents)} {capacity : Nat}
    {journal : JournalMode} {kind : StoreKind} {h : Handle κ α ι} : History path start t held known →
    Handle.open path capacity journal kind t = (.ok h, u) →
    History path start u (h :: held) (some (known.getD (kind, h.shown)))
  | updated {t u : Files} {before after : List (Handle κ α ι)} {known : Option (StoreKind × StoreContents)}
    {h h' : Handle κ α ι} : History path start t (before ++ h :: after) known → Update h t h' u →
    History path start u (before ++ h' :: after) (known.map fun k => (k.1, h'.shown))
  | closed {t : Files} {before after : List (Handle κ α ι)} {known : Option (StoreKind × StoreContents)}
    {h : Handle κ α ι} : History path start t (before ++ h :: after) known →
    History path start (h.close t) (before ++ after) known

/-- What a file keeps whose kind and contents are known, while some handles have it open. -/
structure KeepsKind (path : String) (kind : StoreKind) (contents : StoreContents) (held : List (Handle κ α ι))
    (t : Files) : Prop where
  kind_eq : contents.kind = kind
  /-- The file is there with the contents. -/
  stands : ∃ id, t.storeAt? path = some id ∧ t.contents id = contents
  /-- Whoever has it open has opened it as what it is, and sees the contents. -/
  sees : ∀ h ∈ held, h.kind = kind ∧ h.seen t = contents
  /-- Whoever opens it opens it as what it is, and is shown the contents. -/
  shows : ∀ {capacity journal other h u},
    Handle.open (κ := κ) (α := α) (ι := ι) path capacity journal other t = (.ok h, u) →
      other = kind ∧ h.shown = contents
  /-- It cannot be opened as what it is not. -/
  refused : ∀ other ≠ kind, ∀ capacity journal, ∃ fault u,
    Handle.open (κ := κ) (α := α) (ι := ι) path capacity journal other t = (.error (.storage fault), u)
  /-- It can be opened as what it is when no one has it open, with any journal that it can have. -/
  opens : held = [] → ∀ capacity journal, (journal = .wal → Files.journalFault (t.target path) journal = none) →
    ∃ h u, Handle.open (κ := κ) (α := α) (ι := ι) path capacity journal kind t = (.ok h, u)
  /-- An attempt to open it leaves it where it is, and changes what no store holds. -/
  keeps : ∀ {capacity journal other result u},
    Handle.open (κ := κ) (α := α) (ι := ι) path capacity journal other t = (result, u) →
      u.storeAt? path = t.storeAt? path ∧ t.Keeps u

/-! ## What histories keep -/

/-- The users that some handles are. -/
def IsUser (held : List (Handle κ α ι)) (user : Nat) : Prop :=
  ∃ h ∈ held, h.file.user = user

theorem isUser_cons {user : Nat} : IsUser (h :: held) user ↔ h.file.user = user ∨ IsUser held user :=
  List.exists_mem_cons_iff ..

theorem isUser_append {user : Nat} : IsUser (before ++ after) user ↔ IsUser before user ∨ IsUser after user := by
  simp only [IsUser, List.mem_append, or_and_right, exists_or]

/-- What a history says of a tree: either no one could open the file so far, or the store that they opened stands there,
and the handles are its users. -/
def Accounts (path : String) (t : Files) (held : List (Handle κ α ι)) : Option (StoreKind × StoreContents) → Prop
  | none => held = [] ∧ t.Sound ∧ t.Unopened path
  | some (kind, contents) => Address.ofPath? path = some (.file path true) ∧
    ∃ id, Rooted path kind id (IsUser held) t ∧ t.contents id = contents ∧ ∀ h ∈ held, h.kind = kind ∧ h.file.id = id

namespace Accounts

theorem failed {fault : StorageFault} (h : Accounts path t held known)
    (hopen : t.openStore path kind journal = (.error fault, u)) : Accounts path u held known := by
  match known, h with
  | none, ⟨hheld, hsound, hunopened⟩ => exact ⟨hheld, hsound.openStore_at hopen, hunopened.attempt hopen⟩
  | some (_, _), ⟨haddress, id, hrooted, hcontents, hhandles⟩ =>
    refine ⟨haddress, id, (hrooted.attempt haddress hopen).congr fun user => ?_, ?_, hhandles⟩
    · exact or_iff_left fun ⟨_, hfile, _⟩ => nomatch hfile
    · rw [(Files.keeps_openStore hopen).contents (hrooted.sound.entry _ _ hrooted.entry).1, hcontents]

theorem opened (haddress : ∀ address, Address.ofPath? path = some address → address = .file path true)
    (hacc : Accounts path t held known) (hopen : Handle.open path capacity journal kind t = (.ok h, u)) :
    Accounts path u (h :: held) (some (known.getD (kind, h.shown))) := by
  obtain ⟨hstore, hkind, hshown⟩ := of_open hopen
  match known, hacc with
  | none, ⟨hheld, hsound, hunopened⟩ =>
    obtain ⟨address, hfile⟩ := Files.exists_address hstore
    obtain rfl := haddress address hfile
    have hrooted := Files.rooted_of_openStore hfile hsound hunopened hstore
    have hcontents := StoreFile.kind_of_check hrooted.check
    refine ⟨hfile, h.file.id, hrooted.congr fun user => ?_, ?_, ?_⟩
    · have hnone : ¬IsUser held user := fun ⟨_, hmem, _⟩ => List.not_mem_nil (hheld ▸ hmem)
      rw [isUser_cons, or_iff_left hnone, eq_comm]
    · rw [hshown, seen_eq (hcontents.trans hkind.symm)]
    · rw [hheld, List.forall_mem_singleton]
      exact ⟨hkind, rfl⟩
  | some (first, contents), ⟨hfile, id, hrooted, hcontents, hhandles⟩ =>
    obtain ⟨rfl, hid⟩ := hrooted.of_openStore hfile hstore
    refine ⟨hfile, id, (hrooted.attempt hfile hstore).congr fun user => ?_, ?_, ?_⟩
    · rw [isUser_cons, or_comm]
      refine or_congr_left ⟨fun ⟨_, heq, huser⟩ => ?_, fun huser => ⟨h.file, rfl, huser.symm⟩⟩
      cases heq
      exact huser.symm
    · rw [(Files.keeps_openStore hstore).contents (hrooted.sound.entry _ _ hrooted.entry).1]
      exact hcontents
    · exact List.forall_mem_cons.2 ⟨⟨hkind, by rw [hid]⟩, hhandles⟩

theorem updated (hacc : Accounts path t (before ++ h :: after) known) (hupdate : Update h t h' u) :
    Accounts path u (before ++ h' :: after) (known.map fun k => (k.1, h'.shown)) := by
  obtain ⟨hkind, hfile, hshown, rfl⟩ := hupdate.eq
  match known, hacc with
  | none, ⟨hheld, _, _⟩ => exact absurd hheld (by simp)
  | some (first, contents), ⟨haddress, id, hrooted, hcontents, hhandles⟩ =>
    obtain ⟨hfirst, rfl⟩ := hhandles h (List.mem_append_right _ List.mem_cons_self)
    have huser : IsUser (before ++ h :: after) h.file.user := isUser_append.2 (.inr (isUser_cons.2 (.inl rfl)))
    refine ⟨haddress, h.file.id, (hrooted.commit huser (hshown.trans hfirst)).congr fun user => ?_, ?_, ?_⟩
    · rw [isUser_append, isUser_append, isUser_cons, isUser_cons, hfile]
    · rw [Files.contents_modifyLog, Files.contents_setContents (hrooted.sound.entry _ _ hrooted.entry).1, if_pos rfl]
    · rw [List.forall_mem_append, List.forall_mem_cons] at hhandles ⊢
      exact ⟨hhandles.1, ⟨hkind.trans hfirst, congrArg OpenFile.id hfile⟩, hhandles.2.2⟩

theorem closed (hacc : Accounts path t (before ++ h :: after) known) :
    Accounts path (h.close t) (before ++ after) known := by
  rw [close_eq]
  match known, hacc with
  | none, ⟨hheld, _, _⟩ => exact absurd hheld (by simp)
  | some (first, contents), ⟨haddress, id, hrooted, hcontents, hhandles⟩ =>
    have huser : IsUser (before ++ h :: after) h.file.user := isUser_append.2 (.inr (isUser_cons.2 (.inl rfl)))
    refine ⟨haddress, id, hrooted.leave huser (fun user hrest => ?_) (fun user hall hne => ?_), ?_, ?_⟩
    · exact isUser_append.2 ((isUser_append.1 hrest).imp_right fun hlater => isUser_cons.2 (.inr hlater))
    · refine isUser_append.2 ((isUser_append.1 hall).imp_right fun hlater => ?_)
      exact (isUser_cons.1 hlater).resolve_left (Ne.symm hne)
    · rw [(Files.Keeps.leaveStores t _).contents (hrooted.sound.entry _ _ hrooted.entry).1, hcontents]
    · rw [List.forall_mem_append, List.forall_mem_cons] at hhandles
      exact List.forall_mem_append.2 ⟨hhandles.1, hhandles.2.2⟩

end Accounts

/-- A history from a tree whose stores know their places, and where no one has the file open. -/
theorem History.accounts (haddress : ∀ address, Address.ofPath? path = some address → address = .file path true)
    (hstart : start.Sound) (hunopened : start.Unopened path) (h : History path start t held known) :
    Accounts path t held known := by
  induction h with
  | start => exact ⟨rfl, hstart, hunopened⟩
  | failed _ hopen ih =>
    obtain ⟨fault, -, hstore⟩ := of_open_error hopen
    exact ih.failed hstore
  | opened _ hopen ih => exact ih.opened haddress hopen
  | updated _ hupdate ih => exact ih.updated hupdate
  | closed _ ih => exact ih.closed

theorem Accounts.keepsKind (h : Accounts path t held (some (kind, contents))) :
    KeepsKind path kind contents held t := by
  obtain ⟨haddress, id, hrooted, hcontents, hhandles⟩ := h
  obtain ⟨hknown, -⟩ := hrooted.sound.entry _ _ hrooted.entry
  have hkind : contents.kind = kind := hcontents ▸ StoreFile.kind_of_check hrooted.check
  have hstands := hrooted.storeAt?_eq haddress
  exact {
    kind_eq := hkind
    stands := ⟨id, hstands, hcontents⟩
    sees := fun h hheld => by
      obtain ⟨hfirst, rfl⟩ := hhandles h hheld
      refine ⟨hfirst, ?_⟩
      rw [seen_eq, hcontents]
      rw [hcontents, hkind, hfirst]
    shows := fun hopen => by
      obtain ⟨hstore, hfirst, hshown⟩ := of_open hopen
      obtain ⟨rfl, hfile⟩ := hrooted.of_openStore haddress hstore
      have hsame := (Files.keeps_openStore hstore).contents hknown
      refine ⟨rfl, ?_⟩
      rw [hshown, seen_eq, hfile, hsame, hcontents]
      rw [hfile, hsame, hcontents, hkind, hfirst]
    refused := fun other hne capacity journal => by
      obtain ⟨fault, u, hstore⟩ := hrooted.refused haddress hne journal
      refine ⟨fault, u, ?_⟩
      rw [open_eq, hstore]
    opens := fun hheld capacity journal hjournal => by
      have hnone : ∀ user, ¬IsUser held user := fun user ⟨_, hmem, _⟩ => List.not_mem_nil (hheld ▸ hmem)
      obtain ⟨u, hstore⟩ := hrooted.opens haddress hnone hjournal
      rw [open_eq, hstore]
      exact ⟨_, _, rfl⟩
    keeps := fun hopen => by
      obtain ⟨outcome, hstore⟩ := exists_openStore hopen
      rw [hstands, (hrooted.attempt haddress hstore).storeAt?_eq haddress]
      exact ⟨rfl, Files.keeps_openStore hstore⟩ }

end Handle

end ClassDeps
