import ClassDeps.Proofs.Cache.Reopened
import ClassDeps.Proofs.Files.Kinds
import ClassDeps.Proofs.Store.Keys

/-!
# Key-value stores as plain maps

A store whose keys and values are read back as they were written answers every operation as a plain map does. What
it keeps in memory shows in no answer, however much that is: a handle can be closed at any time, and the file can be
opened again with another capacity.

## Main definitions

* `KeyValueStore.Faithful` — keys and values that are read back as they were written
* `KeyValueStore.Operation`, `Answer` — what can be asked of a store
* `KeyValueStore.Operation.effect`, `Answers`, `Answered` — what a plain map does and answers
* `KeyValueStore.Represents` — a store that stands for a map
* `KeyValueStore.Serves` — what a handle of a file, and those opened after it, answer
* `KeyValueStore.Ready` — the only handle of a file at the place of its path

## Main statements

* `Represents.run` — one operation
* `Answered.unique` — a map answers in one way only
* `Serves.handles` — all operations of a handle and of those opened after it
* `Ready.exists_serves` — a file that no one else has open can be used, closed and opened again without end
* `serves_as_map` — answers do not depend on the memory, which agrees with the file at any time
-/

namespace ClassDeps.KeyValueStore

variable {κ α : Type} [StoreKey κ] [Storable α]

/-- Keys are read back from their encodings, and values from their documents. -/
structure Faithful (κ α : Type) [StoreKey κ] [Storable α] : Prop where
  decode_encode : ∀ k : κ, StoreKey.decode (StoreKey.encode k) = .ok k
  ofBytes?_toBytes : ∀ value : α, Storable.form.ofBytes? (Storable.form.toBytes value) = some value

namespace Faithful

theorem encode_inj (h : Faithful κ α) {k k' : κ} (heq : StoreKey.encode k = StoreKey.encode k') : k = k' := by
  have hdecode := h.decode_encode k
  rw [heq, h.decode_encode k'] at hdecode
  exact (Except.ok.inj hdecode).symm

theorem toBytes_inj (h : Faithful κ α) {value other : α}
    (heq : Storable.form.toBytes value = Storable.form.toBytes other) : value = other := by
  have hread := h.ofBytes?_toBytes value
  rw [heq, h.ofBytes?_toBytes other] at hread
  exact (Option.some.inj hread).symm

end Faithful

/-! ## Operations -/

/-- What can be asked of a store. -/
inductive Operation (κ α : Type) where
  | get (k : κ)
  | put (k : κ) (value : α)
  | remove (k : κ)
  | contains (k : κ)
  | keys
  | size

/-- What a store answers. -/
inductive Answer (κ α : Type) where
  | found (value : Except EncodingFault (Option α))
  | stored
  | removed (existed : Bool)
  | contained (present : Bool)
  | listed (keys : Except KeyFault (List κ))
  | counted (size : Nat)

namespace Operation

/-- What a store does. -/
def run : Operation κ α → KeyValueStore κ α → Answer κ α × KeyValueStore κ α
  | get k, s => (.found (s.get k).1, (s.get k).2)
  | put k value, s => (.stored, s.put k value)
  | remove k, s => (.removed (s.remove k).1, (s.remove k).2)
  | contains k, s => (.contained (s.contains k), s)
  | keys, s => (.listed s.keys, s)
  | size, s => (.counted s.size, s)

/-- What a plain map becomes. -/
def effect [DecidableEq κ] : Operation κ α → (κ → Option α) → κ → Option α
  | put k value, m => Function.update m k (some value)
  | remove k, m => Function.update m k none
  | _, m => m

end Operation

/-- A list has the keys of a map, each once and in the order of their encodings. -/
structure Lists (m : κ → Option α) (ks : List κ) : Prop where
  ascending : ks.Pairwise fun a b => compare (StoreKey.encode a) (StoreKey.encode b) = .lt
  mem_iff : ∀ k, k ∈ ks ↔ (m k).isSome

/-- What a plain map answers. -/
def Operation.Answers (m : κ → Option α) : Operation κ α → Answer κ α → Prop
  | get k, answer => answer = .found (.ok (m k))
  | put _ _, answer => answer = .stored
  | remove k, answer => answer = .removed (m k).isSome
  | contains k, answer => answer = .contained (m k).isSome
  | keys, answer => ∃ ks, Lists m ks ∧ answer = .listed (.ok ks)
  | size, answer => ∃ ks, Lists m ks ∧ answer = .counted ks.length

/-- What a plain map answers to operations, one after the other. -/
inductive Answered [DecidableEq κ] : (κ → Option α) → List (Operation κ α) → List (Answer κ α) → Prop where
  | nil {m : κ → Option α} : Answered m [] []
  | cons {m : κ → Option α} {op : Operation κ α} {ops : List (Operation κ α)} {answer : Answer κ α}
      {answers : List (Answer κ α)} :
    op.Answers m answer → Answered (op.effect m) ops answers → Answered m (op :: ops) (answer :: answers)

omit [Storable α] in
/-- There is one list of the keys of a map. -/
theorem Lists.unique {m : κ → Option α} {ks ks' : List κ} (h : Lists m ks) (h' : Lists m ks') : ks = ks' := by
  have hnodup {ks : List κ} (h : Lists m ks) : ks.Nodup :=
    h.ascending.imp fun hlt heq => by simp [heq, Std.ReflCmp.compare_self] at hlt
  have hsame : ∀ k, k ∈ ks ↔ k ∈ ks' := fun k => (h.mem_iff k).trans (h'.mem_iff k).symm
  refine ((List.perm_ext_iff_of_nodup (hnodup h) (hnodup h')).2 hsame).eq_of_pairwise ?_ h.ascending
    h'.ascending
  intro a b _ _ hab hba
  simpa [Std.ReflCmp.compare_self] using Std.TransCmp.lt_trans hab hba

omit [Storable α] in
theorem Operation.Answers.unique {m : κ → Option α} {op : Operation κ α} {a b : Answer κ α}
    (ha : op.Answers m a) (hb : op.Answers m b) : a = b := by
  cases op with
  | get | put | remove | contains => exact ha.trans hb.symm
  | keys =>
    obtain ⟨ks, hks, rfl⟩ := ha
    obtain ⟨ks', hks', rfl⟩ := hb
    rw [hks.unique hks']
  | size =>
    obtain ⟨ks, hks, rfl⟩ := ha
    obtain ⟨ks', hks', rfl⟩ := hb
    rw [hks.unique hks']

omit [Storable α] in
/-- A plain map answers in one way only. -/
theorem Answered.unique [DecidableEq κ] {m : κ → Option α} {ops : List (Operation κ α)}
    {as bs : List (Answer κ α)} (ha : Answered m ops as) (hb : Answered m ops bs) : as = bs := by
  induction ha generalizing bs with
  | nil =>
    cases hb
    rfl
  | cons hfirst _ ih =>
    cases hb with
    | cons hfirst' hrest' => rw [hfirst.unique hfirst', ih hrest']

/-! ## Stores that stand for maps -/

/-- Rows hold what is written of a map, and nothing else. -/
structure Encodes (rows : Ordered.Map Bytes Bytes) (m : κ → Option α) : Prop where
  row : ∀ k, rows.get? (StoreKey.encode k) = (m k).map Storable.form.toBytes
  key_of_row : ∀ {key bytes : Bytes}, rows.get? key = some bytes → ∃ k : κ, key = StoreKey.encode k

/-- The rows of a store are those of a map, and its memory agrees with them. -/
structure Represents (s : KeyValueStore κ α) (m : κ → Option α) : Prop where
  rows : Encodes s.rows m
  coherent : s.Coherent

namespace Encodes

variable {rows : Ordered.Map Bytes Bytes} {m : κ → Option α}

theorem empty : Encodes (.empty : Ordered.Map Bytes Bytes) (fun _ => none : κ → Option α) where
  row _ := rfl
  key_of_row h := by cases h

theorem written (h : Encodes rows m) {key bytes : Bytes} (hrow : rows.get? key = some bytes) :
    ∃ value : α, bytes = Storable.form.toBytes value := by
  obtain ⟨k, rfl⟩ := h.key_of_row hrow
  rw [h.row, Option.map_eq_some_iff] at hrow
  obtain ⟨value, -, hbytes⟩ := hrow
  exact ⟨value, hbytes.symm⟩

theorem contains_encode (h : Encodes rows m) (k : κ) : rows.contains (StoreKey.encode k) = (m k).isSome := by
  rw [Ordered.Map.contains, h.row, Option.isSome_map]

variable [DecidableEq κ]

theorem insert (h : Encodes rows m) (hfaithful : Faithful κ α) (k : κ) (value : α) :
    Encodes (rows.insert (StoreKey.encode k) (Storable.form.toBytes value)) (Function.update m k (some value)) where
  row other := by
    rw [Ordered.Map.get?_insert]
    by_cases hk : other = k
    · rw [hk, if_pos rfl, Function.update_self, Option.map_some]
    · rw [if_neg fun heq => hk (hfaithful.encode_inj heq), Function.update_of_ne hk, h.row]
  key_of_row hrow := Keyed.insert (fun _ _ => h.key_of_row) k _ hrow

theorem erase (h : Encodes rows m) (hfaithful : Faithful κ α) (k : κ) :
    Encodes (rows.erase (StoreKey.encode k)) (Function.update m k none) where
  row other := by
    rw [Ordered.Map.get?_erase]
    by_cases hk : other = k
    · rw [hk, if_pos rfl, Function.update_self, Option.map_none]
    · rw [if_neg fun heq => hk (hfaithful.encode_inj heq), Function.update_of_ne hk, h.row]
  key_of_row hrow := Keyed.erase (fun _ _ => h.key_of_row) _ hrow

omit [DecidableEq κ] in
/-- The keys of the rows are the encodings of the keys of the map, which decoding gives back. -/
theorem exists_keys (h : Encodes rows m) (hfaithful : Faithful κ α) :
    ∃ ks : List κ, Lists m ks ∧ rows.keys.mapM StoreKey.decode = .ok ks ∧ rows.size = ks.length := by
  have hkeyed : Keyed κ rows := fun _ _ => h.key_of_row
  obtain ⟨ks, hks, hdecode, hascending, hmem⟩ := hkeyed.exists_keys hfaithful.decode_encode
  refine ⟨ks, ⟨hascending, fun k => ?_⟩, hdecode, ?_⟩
  · rw [hmem, h.contains_encode]
  · rw [← List.length_map (StoreKey.encode (κ := κ)), hks, Ordered.Map.keys, List.length_map, Ordered.Map.size]

end Encodes

namespace Represents

variable {s : KeyValueStore κ α} {m : κ → Option α}

theorem ofRows {rows : Ordered.Map Bytes Bytes} (h : Encodes rows m) (path : String) (capacity : Nat) :
    (KeyValueStore.ofRows path capacity rows : KeyValueStore κ α).Represents m :=
  ⟨h, .ofRows h.written⟩

/-- What is in memory under a key is what the map has. -/
theorem eq_of_memory (h : s.Represents m) (hfaithful : Faithful κ α) {k : κ} {value : α}
    (hmemory : s.memory.value? (StoreKey.encode k) = some value) : m k = some value := by
  have hrow := h.coherent.row_of_memory hmemory
  rw [h.rows.row, Option.map_eq_some_iff] at hrow
  obtain ⟨other, hother, hbytes⟩ := hrow
  rw [hother, hfaithful.toBytes_inj hbytes]

theorem readRow_eq (h : s.Represents m) (hfaithful : Faithful κ α) (k : κ) :
    s.readRow (StoreKey.encode k) = .ok (m k) := by
  cases hk : m k with
  | none =>
    refine readRow_eq_none ?_
    rw [h.rows.row, hk, Option.map_none]
  | some value =>
    have hrow : s.rows.get? (StoreKey.encode k) = some (Storable.form.toBytes value) := by
      rw [h.rows.row, hk, Option.map_some]
    simp only [readRow, hrow, hfaithful.ofBytes?_toBytes]

/-- A look-up answers what the map has, be it in memory or not. -/
theorem get_fst (h : s.Represents m) (hfaithful : Faithful κ α) (k : κ) : (s.get k).1 = .ok (m k) := by
  cases hmemory : s.memory.value? (StoreKey.encode k) with
  | none => rw [get_of_memory_eq_none hmemory, h.readRow_eq hfaithful]
  | some value => rw [get_of_memory hmemory, h.eq_of_memory hfaithful hmemory]

theorem get (h : s.Represents m) (hfaithful : Faithful κ α) (k : κ) : (s.get k).2.Represents m where
  rows := by
    rw [rows_get]
    exact h.rows
  coherent := by
    refine h.coherent.get_of_row fun {value} hread => ?_
    have hvalue : m k = some value := by
      rw [h.readRow_eq hfaithful] at hread
      exact Except.ok.inj hread
    rw [h.rows.row, hvalue, Option.map_some]

theorem contains_eq (h : s.Represents m) (hfaithful : Faithful κ α) (k : κ) : s.contains k = (m k).isSome := by
  rw [contains, h.rows.contains_encode, Lru.contains_eq]
  -- A value in memory is one of the map, so that the memory adds nothing to what the rows say.
  cases hmemory : s.memory.value? (StoreKey.encode k) with
  | none => rfl
  | some value => rw [h.eq_of_memory hfaithful hmemory]; rfl

/-- An operation answers what the map answers, and does what the map does. -/
theorem run [DecidableEq κ] (h : s.Represents m) (hfaithful : Faithful κ α) (op : Operation κ α) :
    op.Answers m (op.run s).1 ∧ (op.run s).2.Represents (op.effect m) := by
  cases op with
  | get k => exact ⟨congrArg Answer.found (h.get_fst hfaithful k), h.get hfaithful k⟩
  | put k value => exact ⟨rfl, h.rows.insert hfaithful k value, h.coherent.put k value⟩
  | remove k =>
    exact ⟨congrArg Answer.removed (h.rows.contains_encode k), h.rows.erase hfaithful k, h.coherent.remove k⟩
  | contains k => exact ⟨congrArg Answer.contained (h.contains_eq hfaithful k), h⟩
  | keys =>
    obtain ⟨ks, hlists, hdecode, -⟩ := h.rows.exists_keys hfaithful
    exact ⟨⟨ks, hlists, congrArg Answer.listed hdecode⟩, h⟩
  | size =>
    obtain ⟨ks, hlists, -, hsize⟩ := h.rows.exists_keys hfaithful
    exact ⟨⟨ks, hlists, congrArg Answer.counted hsize⟩, h⟩

end Represents

/-! ## Handles of a file -/

/-- What is done with a store: it is asked something, or its handle is closed and its file is opened again. -/
inductive Event (κ α : Type) where
  | ask (op : Operation κ α)
  | reopen (capacity : Nat) (journal : JournalMode)

/-- The operations among some events. -/
def operations (events : List (Event κ α)) : List (Operation κ α) :=
  events.filterMap fun
    | .ask op => some op
    | .reopen _ _ => none

/-- A handle, and the ones that are opened after it was closed, answer operations one after the other; nothing but
these handles uses the tree. -/
inductive Serves : OpenStore (KeyValueStore κ α) → Files → List (Event κ α) → List (Answer κ α) →
    OpenStore (KeyValueStore κ α) → Files → Prop where
  | nil {s : OpenStore (KeyValueStore κ α)} {t : Files} : Serves s t [] [] s t
  | ask {s s' : OpenStore (KeyValueStore κ α)} {t t' : Files} {op : Operation κ α} {events : List (Event κ α)}
      {answers : List (Answer κ α)} :
    Serves (s.run op.run t).2.1 (s.run op.run t).2.2 events answers s' t' →
      Serves s t (.ask op :: events) ((s.run op.run t).1 :: answers) s' t'
  | reopen {s r s' : OpenStore (KeyValueStore κ α)} {t u t' : Files} {capacity : Nat} {journal : JournalMode}
      {events : List (Event κ α)} {answers : List (Answer κ α)} :
    KeyValueStore.open s.store.path capacity journal (s.close t) = (.ok r, u) → r.file.id = s.file.id →
      Serves r u events answers s' t' → Serves s t (.reopen capacity journal :: events) answers s' t'

/-- A handle that was just opened, of a file whose rows are those of a map. -/
structure Opened (m : κ → Option α) (s : OpenStore (KeyValueStore κ α)) (t : Files) : Prop where
  opened : ∃ path capacity journal before, KeyValueStore.open path capacity journal before = (.ok s, t)
  known : s.file.id < t.stores.length
  rows : Encodes (t.contents s.file.id).rows m

/-- A handle stands for a map by what its file holds and what it has in memory. -/
structure Handles (m : κ → Option α) (s : OpenStore (KeyValueStore κ α)) (t : Files) : Prop where
  known : s.file.id < t.stores.length
  represents : (s.refreshed t).Represents m

variable {m : κ → Option α} {s s' : OpenStore (KeyValueStore κ α)} {t t' : Files} {events : List (Event κ α)}
  {answers : List (Answer κ α)}

theorem Opened.handles (h : Opened m s t) : Handles m s t where
  known := h.known
  represents := by
    obtain ⟨path, capacity, journal, before, hopen⟩ := h.opened
    rw [OpenStore.refreshed, (of_open hopen).2]
    exact .ofRows h.rows path capacity

namespace Handles

theorem run [DecidableEq κ] (h : Handles m s t) (hfaithful : Faithful κ α) (op : Operation κ α) :
    op.Answers m (s.run op.run t).1 ∧ Handles (op.effect m) (s.run op.run t).2.1 (s.run op.run t).2.2 := by
  obtain ⟨hanswer, hrepresents⟩ := h.represents.run hfaithful op
  refine ⟨hanswer, ?_, ?_⟩
  · rw [OpenStore.length_run]
    exact h.known
  · rw [OpenStore.refreshed_run h.known fun _ => rfl]
    exact hrepresents

/-- Closing a handle and opening its file again leave the rows, and nothing is in memory then. -/
theorem reopen (h : Handles m s t) {r : OpenStore (KeyValueStore κ α)} {u : Files} {path : String}
    {capacity : Nat} {journal : JournalMode} (hopen : KeyValueStore.open path capacity journal (s.close t) = (.ok r, u))
    (hid : r.file.id = s.file.id) : Handles m r u := by
  obtain ⟨hkeeps, hstore⟩ := of_open hopen
  have hkeeps := (s.keeps_close t).trans hkeeps
  refine ⟨?_, ?_⟩
  · rw [hid]
    exact Nat.lt_of_lt_of_le h.known hkeeps.length
  · rw [OpenStore.refreshed, hid, hkeeps.contents h.known, hstore]
    exact .ofRows h.represents.rows path capacity

end Handles

/-- A handle and those after it answer as a plain map does, and the last one stands for what the map has become. -/
theorem Serves.handles [DecidableEq κ] (h : Serves s t events answers s' t') (hfaithful : Faithful κ α)
    (hs : Handles m s t) : Answered m (operations events) answers ∧ ∃ m', Handles m' s' t' := by
  induction h generalizing m with
  | nil => exact ⟨.nil, m, hs⟩
  | @ask s s' t t' op events answers _ ih =>
    obtain ⟨hanswer, hnext⟩ := hs.run hfaithful op
    obtain ⟨hanswers, hlast⟩ := ih hnext
    exact ⟨.cons hanswer hanswers, hlast⟩
  | reopen hopen hid _ ih => exact ih (hs.reopen hopen hid)

/-! ## Opening again -/

/-- The only handle of a file, which stands at the place where the path of the store leads. -/
structure Ready (path : String) (place : Place) (s : OpenStore (KeyValueStore κ α)) (t : Files) : Prop where
  address : Address.ofPath? path = some (.file path true)
  rooted : Files.Rooted path .keyValue s.file.id (· = s.file.user) t
  target_eq : t.target path = place
  path_eq : s.store.path = path

namespace Ready

variable {path : String} {place : Place} {journal : JournalMode}

omit [StoreKey κ] [Storable α] in
theorem of_open {before : Files} {capacity : Nat}
    (haddress : ∀ address, Address.ofPath? path = some address → address = .file path true) (hsound : before.Sound)
    (hunopened : before.Unopened path) (hopen : KeyValueStore.open path capacity journal before = (.ok s, t)) :
    Ready path (t.target path) s t := by
  have hstore := open_eq_ok hopen
  obtain ⟨address, hfile⟩ := Files.exists_address hstore
  obtain rfl := haddress address hfile
  refine ⟨hfile, Files.rooted_of_openStore hfile hsound hunopened hstore, rfl, ?_⟩
  rw [(KeyValueStore.of_open hopen).2]
  rfl

theorem run (h : Ready path place s t) (op : Operation κ α) :
    Ready path place (s.run op.run t).2.1 (s.run op.run t).2.2 where
  address := h.address
  rooted := h.rooted.commit rfl rfl
  target_eq := by
    have hworking : (s.run op.run t).2.2.working = t.working := Files.working_modifyLog ..
    exact (Files.target_of_working hworking path).trans h.target_eq
  path_eq := by
    rw [← h.path_eq]
    cases op with
    | get k => exact path_get (s.refreshed t) k
    | _ => rfl

omit [StoreKey κ] [Storable α] in
/-- When its handle is closed no one has the file open, so that it can be opened again. -/
theorem reopen (h : Ready path place s t) (capacity : Nat)
    (hjournal : journal = .wal → Files.journalFault place journal = none) :
    ∃ (r : OpenStore (KeyValueStore κ α)) (u : Files),
      KeyValueStore.open s.store.path capacity journal (s.close t) = (.ok r, u) ∧ r.file.id = s.file.id ∧
        Ready path place r u := by
  have hleft : Files.Rooted path .keyValue s.file.id (fun _ => False) (s.close t) :=
    h.rooted.leave rfl (fun _ hnone => hnone.elim) fun _ huser hne => hne huser
  have hchanges : Files.Changes (fun _ => False) (fun _ => False) t (s.close t) := Files.changes_leaveStores t _
  have htarget := (Files.target_of_working hchanges.working_eq path).trans h.target_eq
  obtain ⟨u, hstore⟩ := hleft.opens h.address (fun _ => id) (by rwa [htarget])
  obtain ⟨r, hfile, hopen⟩ : ∃ r : OpenStore (KeyValueStore κ α), r.file = ⟨s.file.id, (s.close t).users⟩ ∧
      KeyValueStore.open path capacity journal (s.close t) = (.ok r, u) := exists_open hstore
  have hremains := Files.remains_openStore hstore hleft.sound (Files.logs_of_address _ h.address)
  rw [h.path_eq]
  refine ⟨r, u, hopen, by rw [hfile], h.address, ?_, (Files.target_of_working hremains.working path).trans htarget, ?_⟩
  · rw [hfile]
    exact (hleft.attempt h.address hstore).congr fun user => by simp
  · rw [(KeyValueStore.of_open hopen).2]
    rfl

/-- The handle and those after it can be used, closed and opened again without end. -/
theorem exists_serves (h : Ready path place s t)
    (hjournal : ∀ capacity, .reopen capacity .wal ∈ events → Files.journalFault place .wal = none) :
    ∃ answers s' t', Serves s t events answers s' t' := by
  induction events generalizing s t with
  | nil => exact ⟨[], s, t, .nil⟩
  | cons event events ih =>
    have hrest : ∀ capacity, .reopen capacity .wal ∈ events → Files.journalFault place .wal = none :=
      fun capacity hlater => hjournal capacity (.tail _ hlater)
    cases event with
    | ask op =>
      obtain ⟨answers, s', t', hserves⟩ := ih (h.run op) hrest
      exact ⟨_, s', t', .ask hserves⟩
    | reopen capacity journal =>
      have hroom : journal = .wal → Files.journalFault place journal = none := by
        rintro rfl
        exact hjournal capacity (.head _)
      obtain ⟨r, u, hopen, hid, hready⟩ := h.reopen capacity hroom
      obtain ⟨answers, s', t', hserves⟩ := ih hready hrest
      exact ⟨answers, s', t', .reopen hopen hid hserves⟩

end Ready

/-- Whatever a handle keeps in memory, and whenever it is closed and its file opened again, the answers are those of
a plain map; so they are the same for any other handle and other times of opening. At any time a value in memory is
the one that the row of its key in the file is read as. A file that no one else has open, with a name that leaves room
for a journal, can be opened again each time. -/
theorem serves_as_map [DecidableEq κ] (hfaithful : Faithful κ α) :
    (∀ {m : κ → Option α} {s s' : OpenStore (KeyValueStore κ α)} {t t' : Files} {events : List (Event κ α)}
      {answers : List (Answer κ α)}, Opened m s t → Serves s t events answers s' t' →
        Answered m (operations events) answers ∧
          (∀ {key : Bytes} {value : α}, s'.store.memory.value? key = some value →
            ∃ bytes, (t'.contents s'.file.id).rows.get? key = some bytes ∧
              Storable.form.ofBytes? bytes = some value) ∧
          ∀ {r r' : OpenStore (KeyValueStore κ α)} {u u' : Files} {others : List (Event κ α)}
            {answers' : List (Answer κ α)}, Opened m r u → Serves r u others answers' r' u' →
            operations others = operations events → answers' = answers) ∧
    ∀ {path : String} {capacity : Nat} {journal : JournalMode} {s : OpenStore (KeyValueStore κ α)} {before t : Files},
      Address.IsPlain path → path ≠ "" → path ≠ ":memory:" → before.Sound → before.Unopened path →
        KeyValueStore.open path capacity journal before = (.ok s, t) → ∀ {events : List (Event κ α)},
          (∀ room, .reopen room .wal ∈ events → Files.journalFault (t.target path) .wal = none) →
            ∃ answers s' t', Serves s t events answers s' t' := by
  refine ⟨fun hopened hserves => ?_, fun hplain hempty hmemory hsound hunopened hopen _ hjournal => ?_⟩
  · obtain ⟨hanswered, m', hlast⟩ := hserves.handles hfaithful hopened.handles
    refine ⟨hanswered, fun hmemory => ?_, fun hopened' hserves' hsame => ?_⟩
    · exact ⟨_, hlast.represents.coherent.row_of_memory hmemory, hfaithful.ofBytes?_toBytes _⟩
    · have hanswered' := (hserves'.handles hfaithful hopened'.handles).1
      rw [hsame] at hanswered'
      exact hanswered'.unique hanswered
  · have haddress : ∀ address, Address.ofPath? _ = some address → address = .file _ true :=
      fun _ => Address.ofPath?_of_isPlain hplain hempty hmemory
    exact (Ready.of_open haddress hsound hunopened hopen).exists_serves hjournal

theorem faithful_flags : Faithful Int32 Bool where
  decode_encode k := by
    obtain ⟨a, b, c, d, hbytes⟩ : ∃ a b c d, Bytes.ofInt32 k = [a, b, c, d] := ⟨_, _, _, _, rfl⟩
    have hk : Bytes.toInt32 a b c d = k := Bytes.ofInt32_eq_iff.1 hbytes
    change StoreKey.decode (Bytes.ofInt32 k) = .ok k
    rw [hbytes, ← hk]
    rfl
  ofBytes?_toBytes value := by cases value <;> decide +kernel

/-- A value that was put is found after its file was opened again without any memory. A file that was not there before
can be opened again, too, with other journals. -/
theorem serves_reopened :
    (∃ (s s' : OpenStore (KeyValueStore Int32 Bool)) (t t' : Files) (answers : List (Answer Int32 Bool)),
      Opened (fun _ => none) s t ∧
      Serves s t [.ask (.put 1 true), .ask (.get 1), .reopen 0 .delete, .ask (.get 1), .ask .size] answers s' t' ∧
      answers = [.stored, .found (.ok (some true)), .found (.ok (some true)), .counted 1]) ∧
    ∃ (s : OpenStore (KeyValueStore Int32 Bool)) (t : Files),
      KeyValueStore.open "flags.db" 2 .wal .empty = (.ok s, t) ∧ ∃ answers s' t',
        Serves s t [.ask (.put 1 true), .reopen 0 .delete, .ask (.get 1), .reopen 1 .wal] answers s' t' := by
  have hopened : ∃ (s : OpenStore (KeyValueStore Int32 Bool)) (t : Files), Opened (fun _ => none) s t ∧
      ∃ answers s' t', Serves s t [.ask (.put 1 true), .ask (.get 1), .reopen 0 .delete, .ask (.get 1),
        .ask .size] answers s' t' :=
    ⟨_, _, ⟨⟨"flags.db", 2, .wal, .empty, rfl⟩, by decide +kernel, .empty⟩, _, _, _,
      .ask (.ask (.reopen rfl rfl (.ask (.ask .nil))))⟩
  obtain ⟨s, t, hopened, answers, s', t', hserves⟩ := hopened
  refine ⟨⟨s, s', t, t', answers, hopened, hserves, ?_⟩, ?_⟩
  · have hanswered := ((serves_as_map faithful_flags).1 hopened hserves).1
    have hlists : Lists (Function.update (fun _ => none) 1 (some true)) [(1 : Int32)] := by
      refine ⟨List.pairwise_singleton _ _, fun k => ?_⟩
      rw [List.mem_singleton, Function.update_apply]
      split <;> simp_all
    exact hanswered.unique (.cons rfl (.cons rfl (.cons rfl (.cons ⟨[1], hlists, rfl⟩ .nil))))
  · have hunopened : Files.empty.Unopened "flags.db" :=
      fun id hentry => absurd (Files.sound_empty.entry _ id hentry).1 (Nat.not_lt_zero id)
    obtain ⟨r, u, hopen, hjournal⟩ : ∃ (r : OpenStore (KeyValueStore Int32 Bool)) (u : Files),
        KeyValueStore.open "flags.db" 2 .wal .empty = (.ok r, u) ∧
          Files.journalFault (u.target "flags.db") .wal = none := ⟨_, _, rfl, by decide +kernel⟩
    refine ⟨r, u, hopen, ?_⟩
    exact (serves_as_map faithful_flags).2 (by decide) (by decide) (by decide) Files.sound_empty hunopened hopen
      fun _ _ => hjournal

end ClassDeps.KeyValueStore
