import ClassDeps.Proofs.Cache.Opened
import ClassDeps.Proofs.Cache.Views

/-!
# Updates of one item

Storing a record, changing its path, setting a marker, taking over a record of another cache, and adding or removing
an edge change one item of the view of a cache each. All queries about other items are answered as before, wherever
records are kept, and whatever the stored record calls its class. A cache that a record is taken from stays as it is.

## Main definitions

* `Cache.Update` — the updates, with the item and the change of each
* `Cache.Updated` — what a cache is after an update

## Main statements

* `Update.sameBut` — an update changes its item only
* `Shows.updated` — the stores after an update
* `Legible.updated` — one update of a cache whose records can be read
* `OpenCache.copied` — a record of another cache
* `update_changes_one_item` — all updates, and all queries
-/

namespace ClassDeps

namespace Cache

open Json (depthLimit)

variable {α : Type} {c d : Cache} {v : View}

/-- Operations that are about one item of a cache. -/
inductive Update where
  | putClass (q : SymbolId) (record : ClassRecord)
  | setPath (q : SymbolId) (path : String)
  | setRemote (q : SymbolId) (marker : Bool)
  | importRecord (q : SymbolId) (found : Option ClassRecord)
  | addReferencer (key : DeclarationKey) (referencer : SymbolId)
  | removeReferencer (key : DeclarationKey) (referencer : SymbolId)
  | addReferenced (q referenced : SymbolId)
  | addSubclass (q subclass : SymbolId)
  | removeSubclass (q subclass : SymbolId)

namespace Update

def op : Update → Op Unit
  | putClass q record => Cache.putClass q record
  | setPath q path => Cache.setPath q path
  | setRemote q marker => Cache.setRemote q marker
  | importRecord q found => Cache.importRecord q found
  | addReferencer key referencer => Cache.addReferencer key referencer
  | removeReferencer key referencer => Cache.removeReferencer key referencer
  | addReferenced q referenced => Cache.addReferenced q referenced
  | addSubclass q subclass => Cache.addSubclass q subclass
  | removeSubclass q subclass => Cache.removeSubclass q subclass

/-- What the update is about. -/
def item : Update → Item
  | putClass q _ | setPath q _ | importRecord q _ => .record q
  | setRemote q _ => .marker q
  | addReferencer key referencer | removeReferencer key referencer => .referencer key referencer
  | addReferenced q referenced => .referenced q referenced
  | addSubclass q subclass | removeSubclass q subclass => .subclass q subclass

/-- What the update does: a record is replaced, or changed if there is one; an edge is there or not. -/
def change (v : View) : Update → View
  | putClass q record => { v with record := Function.update v.record q (some record) }
  | setPath q path =>
    { v with record := Function.update v.record q ((v.record q).map fun record => { record with path }) }
  | setRemote q marker => { v with marker := Function.update v.marker q (some marker) }
  | importRecord q found =>
    { v with record := Function.update v.record q ((found.map ClassShape.withoutReferences).or (v.record q)) }
  | addReferencer key r => { v with referencer := Function.update v.referencer (key, r) true }
  | removeReferencer key r => { v with referencer := Function.update v.referencer (key, r) false }
  | addReferenced q t => { v with referenced := Function.update v.referenced (q, t) true }
  | addSubclass q s => { v with subclass := Function.update v.subclass (q, s) true }
  | removeSubclass q s => { v with subclass := Function.update v.subclass (q, s) false }

/-- A record that is stored nests no deeper than readers follow. -/
def Legible : Update → Prop
  | putClass _ record => record.nesting ≤ depthLimit
  | importRecord _ found => ∀ record ∈ found, record.nesting ≤ depthLimit
  | _ => True

/-- An update changes nothing but its item. -/
theorem sameBut (update : Update) (v : View) : v.SameBut update.item (update.change v) := by
  have hother {β γ : Type} [DecidableEq β] (f : β → γ) {x y : β} (z : γ) (hne : y ≠ x) :
      Function.update f x z y = f y := Function.update_of_ne hne z f
  cases update with
  | putClass q | setPath q | importRecord q =>
    exact ⟨fun q' hne => hother _ _ fun heq => hne (heq ▸ rfl), fun _ _ => rfl, fun _ _ _ => rfl,
      fun _ _ _ => rfl, fun _ _ _ => rfl⟩
  | setRemote q =>
    exact ⟨fun _ _ => rfl, fun q' hne => hother _ _ fun heq => hne (heq ▸ rfl), fun _ _ _ => rfl,
      fun _ _ _ => rfl, fun _ _ _ => rfl⟩
  | addReferencer key r | removeReferencer key r =>
    refine ⟨fun _ _ => rfl, fun _ _ => rfl, fun key' r' hne => hother _ _ fun heq => hne ?_, fun _ _ _ => rfl,
      fun _ _ _ => rfl⟩
    cases heq
    rfl
  | addReferenced q t =>
    refine ⟨fun _ _ => rfl, fun _ _ => rfl, fun _ _ _ => rfl, fun q' t' hne => hother _ _ fun heq => hne ?_,
      fun _ _ _ => rfl⟩
    cases heq
    rfl
  | addSubclass q s | removeSubclass q s =>
    refine ⟨fun _ _ => rfl, fun _ _ => rfl, fun _ _ _ => rfl, fun _ _ _ => rfl,
      fun q' s' hne => hother _ _ fun heq => hne ?_⟩
    cases heq
    rfl

/-- Records that can be read still can be after an update that stores none that cannot. -/
theorem readable_change {update : Update} (hlegible : update.Legible)
    (hreadable : ∀ {β : Type} (query : Query β), query.Readable v) (query : Query α) :
    query.Readable (update.change v) := by
  have hrecord (q : SymbolId) : ∀ record ∈ v.record q, record.nesting ≤ depthLimit := hreadable (.record q) q rfl
  -- All that changes is the record of one class, to one that nests no deeper than the limit.
  have hupdate (q : SymbolId) (found : Option ClassRecord) (hfound : ∀ record ∈ found, record.nesting ≤ depthLimit)
      (q' : SymbolId) : ∀ record ∈ Function.update v.record q found q', record.nesting ≤ depthLimit := by
    by_cases hq : q' = q
    · rw [hq, Function.update_self]
      exact hfound
    · rw [Function.update_of_ne hq]
      exact hrecord q'
  intro q _
  cases update with
  | putClass x record => exact hupdate x _ (fun _ hmem => Option.some.inj hmem ▸ hlegible) q
  | setPath x path =>
    refine hupdate x _ (fun changed hmem => ?_) q
    obtain ⟨record, hstored, rfl⟩ := Option.mem_map.1 hmem
    exact hrecord x record hstored
  | importRecord x found =>
    refine hupdate x _ (fun changed hmem => ?_) q
    cases found with
    | none => exact hrecord x changed hmem
    | some record => exact Option.some.inj hmem ▸ ClassShape.nesting_withoutReferences_le (hlegible record rfl)
  | _ => exact hrecord q

end Update

/-! ## Stores after an update -/

theorem view_eq_of_record {v : View} {record : SymbolId → Option ClassRecord} (h : record = v.record) :
    { v with record } = v := by
  rw [h]

/-- The rows after a value is stored are those of the map that has the value. -/
theorem row_put {κ α : Type} [StoreKey κ] [LawfulStoreKey κ] [Storable α] [DecidableEq κ] {s : KeyValueStore κ α}
    {m : κ → Option α} (h : ∀ k, s.rows.get? (StoreKey.encode k) = (m k).map Storable.form.toBytes) (k : κ) (value : α)
    (k' : κ) : (s.put k value).rows.get? (StoreKey.encode k') =
      (Function.update m k (some value) k').map Storable.form.toBytes := by
  rw [KeyValueStore.put, Ordered.Map.get?_insert]
  simp only [StoreKey.encode_eq_iff]
  by_cases hk : k' = k
  · rw [if_pos hk, hk, Function.update_self, Option.map_some]
  · rw [if_neg hk, Function.update_of_ne hk, h]

namespace Shows

theorem getClass (h : c.Shows v) (q : SymbolId) : (c.after (getClass q)).Shows v := by
  have hcoherent := h.toCoherent.apply (.getClass q)
  rw [Operation.apply] at hcoherent
  have hrows : (c.after (Cache.getClass q)).classes.rows = c.classes.rows := by
    rw [after_getClass]
    exact c.classes.rows_get q
  refine ⟨hcoherent, hrows.symm ▸ h.keyed, fun q' => hrows.symm ▸ h.record q', ?_, ?_, ?_, ?_⟩
  all_goals rw [after_getClass]
  · exact h.marker
  · exact h.referencer
  · exact h.referenced
  · exact h.subclass

theorem put (h : c.Shows v) (q : SymbolId) (record : ClassRecord) :
    Shows { c with classes := c.classes.put q record }
      { v with record := Function.update v.record q (some record) } where
  toCoherent := h.toCoherent.apply (.putClass q record)
  keyed := h.keyed.insert q _
  record := row_put h.record q record
  marker := h.marker
  referencer := h.referencer
  referenced := h.referenced
  subclass := h.subclass

theorem setRemote (h : c.Shows v) (q : SymbolId) (marker : Bool) :
    Shows { c with remote := c.remote.put q marker }
      { v with marker := Function.update v.marker q (some marker) } where
  toCoherent := h.toCoherent.apply (.setRemote q marker)
  keyed := h.keyed
  record := h.record
  marker := row_put h.marker q marker
  referencer := h.referencer
  referenced := h.referenced
  subclass := h.subclass

end Shows

section Edges

variable {κ : Type} [StoreKey κ] [LawfulStoreKey κ] [DecidableEq κ] {s : MultiValueStore κ} {edges : κ × Int32 → Bool}

/-- The edges after one is added are those of the store. -/
theorem edges_add (h : ∀ k r, edges (k, r) = true ↔ r ∈ s.values k) (k : κ) (r : Int32) (k' : κ) (r' : Int32) :
    Function.update edges (k, r) true (k', r') = true ↔ r' ∈ (s.add k r).values k' := by
  rw [MultiValueStore.mem_values_add, ← h, ← Prod.mk.injEq, Function.update_apply]
  split
  · rename_i heq
    exact iff_of_true rfl (.inl heq)
  · rename_i hne
    exact (or_iff_right hne).symm

/-- The edges after one is removed are those of the store. -/
theorem edges_removeValue (h : ∀ k r, edges (k, r) = true ↔ r ∈ s.values k) (k : κ) (r : Int32) (k' : κ)
    (r' : Int32) : Function.update edges (k, r) false (k', r') = true ↔ r' ∈ (s.removeValue k r).values k' := by
  rw [MultiValueStore.mem_values_removeValue, ← h, ← Prod.mk.injEq, Function.update_apply]
  split
  · rename_i heq
    exact iff_of_false Bool.false_ne_true fun hmem => hmem.2 heq
  · rename_i hne
    exact (and_iff_left hne).symm

end Edges

/-- An update whose record can be looked up succeeds, and its change is what the stores have afterwards. -/
theorem Shows.updated (h : c.Shows v) (hreadable : ∀ {β : Type} (query : Query β), query.Readable v)
    (update : Update) : ∃ d, c.perform update.op = (.ok (), d) ∧ d.Shows (update.change v) := by
  cases update with
  | putClass q record => exact ⟨_, rfl, h.put q record⟩
  | setPath q path =>
    have hget := perform_of_answer (h.answer_getClass (hreadable (.record q) q rfl))
    have hperform := c.perform_setPath q path
    rw [hget] at hperform
    rw [Update.op, Update.change]
    cases hrecord : v.record q with
    | none =>
      simp only [hrecord] at hperform
      refine ⟨_, hperform, ?_⟩
      have hsame : Function.update v.record q none = v.record := by
        rw [← hrecord, Function.update_eq_self]
      exact (view_eq_of_record hsame).symm ▸ h.getClass q
    | some record =>
      simp only [hrecord] at hperform
      exact ⟨_, hperform, (h.getClass q).put q _⟩
  | setRemote q marker => exact ⟨_, rfl, h.setRemote q marker⟩
  | importRecord q found =>
    cases found with
    | none =>
      refine ⟨c, rfl, ?_⟩
      have hsame : Function.update v.record q (v.record q) = v.record := Function.update_eq_self ..
      change c.Shows { v with record := Function.update v.record q (v.record q) }
      rw [view_eq_of_record hsame]
      exact h
    | some record => exact ⟨_, rfl, h.put q record.withoutReferences⟩
  | addReferencer key r => exact ⟨_, rfl, { h with referencer := edges_add h.referencer key r }⟩
  | removeReferencer key r => exact ⟨_, rfl, { h with referencer := edges_removeValue h.referencer key r }⟩
  | addReferenced q t => exact ⟨_, rfl, { h with referenced := edges_add h.referenced q t }⟩
  | addSubclass q s => exact ⟨_, rfl, { h with subclass := edges_add h.subclass q s }⟩
  | removeSubclass q s => exact ⟨_, rfl, { h with subclass := edges_removeValue h.subclass q s }⟩

/-- A cache after an update. A record that nests too deep is stored as well, and no other query than those of this
record is concerned. -/
structure Updated (update : Update) (c d : Cache) : Prop where
  shows : d.Shows (update.change c.view)
  /-- What was changed is answered as the change says. -/
  answers : ∀ {α : Type} (query : Query α), query.Readable (update.change c.view) →
    d.Answers (update.change c.view) query
  readable : update.Legible → ∀ {α : Type} (query : Query α), query.Readable (update.change c.view)
  /-- What does not depend on the item is answered as before. -/
  answer_eq : ∀ {α : Type} (query : Query α), ¬query.Reads update.item → d.answer query.op = c.answer query.op

theorem Legible.updated (h : c.Legible) (hshows : c.Shows c.view) (update : Update) :
    ∃ d, c.perform update.op = (.ok (), d) ∧ Updated update c d := by
  have hreadable {β : Type} (query : Query β) : query.Readable c.view := h.readable_view query
  obtain ⟨d, hperform, hd⟩ := hshows.updated hreadable update
  exact ⟨d, hperform, hd, hd.answers, fun hlegible => Update.readable_change hlegible hreadable,
    fun query => hshows.answer_eq hd (update.sameBut c.view) query (hreadable query)⟩

end Cache

/-! ## Records of another cache -/

namespace OpenCache

variable {source target : OpenCache} {t u : Files}

/-- A commit writes to the files of the cache only. -/
theorem contents_commit_of_notMem {c : OpenCache} (h : c.Separate t) {id : Nat} (hid : id ∉ c.ids) :
    (c.commit t).contents id = t.contents id := by
  simp only [ids, List.mem_cons, List.not_mem_nil, or_false, not_or] at hid
  obtain ⟨h₁, h₂, h₃, h₄, h₅⟩ := hid
  rw [contents_commit h.known, if_neg h₅, if_neg h₄, if_neg h₃, if_neg h₂, if_neg h₁]

/-- What a cache holds depends on its own files only. -/
theorem cache_congr {c : OpenCache} (h : ∀ id ∈ c.ids, u.contents id = t.contents id) : c.cache u = c.cache t := by
  simp only [ids, List.forall_mem_cons] at h
  obtain ⟨h₁, h₂, h₃, h₄, h₅, -⟩ := h
  simp only [cache, OpenStore.refreshed, h₁, h₂, h₃, h₄, h₅]

/-- An operation on an open cache that succeeds. It leaves all other files as they are. -/
theorem exists_run {α : Type} {c : OpenCache} (h : c.Separate t) {op : Cache.Op α} {answer : α} {d : Cache}
    (hperform : (c.cache t).perform op = (.ok answer, d)) (hroot : d.root = c.root) :
    ∃ c' u, c.run op.run t = (.ok answer, c', u) ∧ c'.cache u = d ∧ c'.ids = c.ids ∧ c'.Separate u ∧
      u.stores.length = t.stores.length ∧ ∀ id ∉ c.ids, u.contents id = t.contents id := by
  have hanswer : (op.run (c.cache t)).1 = .ok answer := congrArg Prod.fst hperform
  have hafter : (op.run (c.cache t)).2 = d := congrArg Prod.snd hperform
  have hcache := cache_run h op.run (hafter ▸ hroot)
  have hsame : (c.withCache (op.run (c.cache t)).2).Separate t := ⟨h.nodup, h.known⟩
  refine ⟨_, _, Prod.ext hanswer rfl, hcache.trans hafter, rfl, separate_run h op.run, length_commit _ t, ?_⟩
  exact fun id hid => contents_commit_of_notMem hsame hid

/-- Two caches with different files after a record was taken over: one has looked it up, and the other has stored it. -/
theorem copied (hsource : source.Separate t) (htarget : target.Separate t) (hids : source.ids.Disjoint target.ids)
    {q : SymbolId} {found : Option ClassRecord} {d : Cache}
    (hfound : (source.cache t).answer (Cache.getClass q) = .ok found)
    (himport : (target.cache t).perform (Cache.importRecord q found) = (.ok (), d)) :
    ∃ source' target' u, copyRecord source target q t = (.ok (), source', target', u) ∧
      source'.cache u = (source.cache t).after (Cache.getClass q) ∧ target'.cache u = d := by
  have hroot : ((source.cache t).after (Cache.getClass q)).root = source.root :=
    Cache.root_apply (.getClass q) (source.cache t)
  obtain ⟨source', v, hrun, hlooked, hsame, hseparate, hlength, hcontents⟩ :=
    exists_run hsource (Cache.perform_of_answer hfound) hroot
  have hother : target.cache v = target.cache t :=
    cache_congr fun id hid => hcontents id fun hmem => hids hmem hid
  have htarget' : target.Separate v := ⟨htarget.nodup, fun id hid => hlength.symm ▸ htarget.known id hid⟩
  have hroot' : d.root = target.root := by
    have hafter : (target.cache t).after (Cache.importRecord q found) = d := congrArg Prod.snd himport
    rw [← hafter]
    exact Cache.root_apply (.importRecord q found) (target.cache t)
  obtain ⟨target', u, hstore, hstored, -, -, -, hkept⟩ := exists_run htarget' (hother.symm ▸ himport) hroot'
  refine ⟨source', target', u, ?_, ?_, hstored⟩
  · rw [copyRecord, hrun]
    simp only [hstore]
  · rw [← hlooked]
    exact cache_congr fun id hid => hkept id fun hmem => hids (hsame ▸ hid) hmem

end OpenCache

namespace Cache

/-- Every update of a reachable cache whose records can be read succeeds, changes its item and leaves the answers to all
queries about others. A record that is taken from an open cache with other files comes without what its body uses, or
not at all, and that cache answers all queries as before. -/
theorem update_changes_one_item :
    (∀ c : Cache, c.Reachable → (∀ q : SymbolId, ∃ found, c.classes.readRow (StoreKey.encode q) = .ok found) →
      (∀ {α : Type} (query : Query α), c.Answers c.view query) ∧
      ∀ update : Update, ∃ d, c.perform update.op = (.ok (), d) ∧ Updated update c d) ∧
    ∀ (source target : OpenCache) (t : Files), source.Separate t → target.Separate t →
      source.ids.Disjoint target.ids → (source.cache t).Reachable → (target.cache t).Reachable →
      (∀ q : SymbolId, ∃ found, (source.cache t).classes.readRow (StoreKey.encode q) = .ok found) →
      (∀ q : SymbolId, ∃ found, (target.cache t).classes.readRow (StoreKey.encode q) = .ok found) →
      ∀ q, ∃ source' target' u, source.copyRecord target q t = (.ok (), source', target', u) ∧
        Updated (.importRecord q ((source.cache t).view.record q)) (target.cache t) (target'.cache u) ∧
        ∀ {α : Type} (query : Query α),
          (source'.cache u).answer query.op = (source.cache t).answer query.op := by
  refine ⟨fun c hc hreadable => ?_, fun source target t hs ht hids hsource htarget hreadable hreadable' q => ?_⟩
  · have hlegible : c.Legible := ⟨hc.coherent, hreadable⟩
    have hshows := hc.shows_view hreadable
    exact ⟨fun query => hshows.answers query (hlegible.readable_view query), hlegible.updated hshows⟩
  · have hlegible : (source.cache t).Legible := ⟨hsource.coherent, hreadable⟩
    have hlegible' : (target.cache t).Legible := ⟨htarget.coherent, hreadable'⟩
    have hshows := hsource.shows_view hreadable
    have hshows' := htarget.shows_view hreadable'
    obtain ⟨d, hperform, hupdated⟩ :=
      hlegible'.updated hshows' (.importRecord q ((source.cache t).view.record q))
    obtain ⟨source', target', u, hcopy, hlooked, rfl⟩ :=
      OpenCache.copied hs ht hids (hlegible.answer_getClass q) hperform
    refine ⟨source', target', u, hcopy, hupdated, fun {α} query => ?_⟩
    have hreadable : query.Readable (source.cache t).view := hlegible.readable_view query
    obtain ⟨former, hformer, hsays⟩ := hshows.answers query hreadable
    obtain ⟨later, hlater, hsays'⟩ := (hshows.getClass q).answers query hreadable
    rw [hlooked, hlater, hformer, hsays'.unique hsays]

/-- A cache of a new directory whose files are numbered from `first` on. -/
def numbered (root : String) (first : Nat) : OpenCache where
  root
  classes := ⟨⟨first, first⟩, .ofRows (Path.join root OpenCache.classesFile) 8 .empty⟩
  remote := ⟨⟨first + 1, first + 1⟩, .ofRows (Path.join root OpenCache.remoteFile) 8 .empty⟩
  referencers := ⟨⟨first + 2, first + 2⟩, ⟨Path.join root OpenCache.referencersFile, .empty⟩⟩
  referenced := ⟨⟨first + 3, first + 3⟩, ⟨Path.join root OpenCache.referencedFile, .empty⟩⟩
  subclasses := ⟨⟨first + 4, first + 4⟩, ⟨Path.join root OpenCache.subclassesFile, .empty⟩⟩

/-- The record of a class that calls itself otherwise, and by a number that is not negative, is taken over, and its path
is changed. -/
theorem update_changes_one_item_overloaded :
    ∃ (source target source' target' : OpenCache) (t u : Files) (d : Cache),
      source.copyRecord target (-5) t = (.ok (), source', target', u) ∧
      (target'.cache u).answer (getClass (-5)) = .ok (some overloaded) ∧
      (source'.cache u).answer (getClass (-5)) = .ok (some overloaded) ∧
      (source.cache t).perform (setPath (-5) "A.class") = (.ok (), d) ∧
      d.answer (path (-5)) = .ok "A.class" ∧ d.answer (fields (-5)) = .ok overloaded.fields ∧
      d.answer (getClass 1) = .ok none := by
  let stored := (fresh "a" 8).run [.putClass (-5) overloaded, .reopen 8]
  let contents : List StoreContents := [.keyValue stored.classes.rows, .empty .keyValue, .empty .multiValue,
    .empty .multiValue, .empty .multiValue, .empty .keyValue, .empty .keyValue, .empty .multiValue,
    .empty .multiValue, .empty .multiValue]
  let t : Files := { Files.empty with stores := contents.map fun contents => ⟨0, contents, default, none⟩ }
  let source := numbered "a" 0
  let target := numbered "b" 5
  have hsource : source.cache t = stored := rfl
  have htarget : target.cache t = fresh "b" 8 := rfl
  have hseparate : source.Separate t := ⟨by decide, by decide⟩
  have hseparate' : target.Separate t := ⟨by decide, by decide⟩
  have hids : source.ids.Disjoint target.ids := List.disjoint_left.2 (by decide)
  have hreachable : (source.cache t).Reachable := hsource ▸ Reachable.run (.fresh "a" 8) _
  have hreachable' : (target.cache t).Reachable := htarget ▸ .fresh "b" 8
  have hput := (Legible.fresh "a" 8).put (-5) overloaded (by decide)
  have hreadable (q : SymbolId) : ∃ found, (source.cache t).classes.readRow (StoreKey.encode q) = .ok found := by
    obtain ⟨found, hread⟩ := hput.readable q
    exact ⟨found, KeyValueStore.readRow_congr rfl hread⟩
  have hreadable' : ∀ q : SymbolId, ∃ found, (target.cache t).classes.readRow (StoreKey.encode q) = .ok found :=
    (Legible.fresh "b" 8).readable
  have hrecord : (source.cache t).view.record (-5) = some overloaded :=
    (exact_record.ofBytes?_toBytes overloaded).trans (if_pos (by decide))
  obtain ⟨hone, hcopy⟩ := update_changes_one_item
  obtain ⟨source', target', u, hcopied, hupdated, hkept⟩ :=
    hcopy source target t hseparate hseparate' hids hreachable hreachable' hreadable hreadable' (-5)
  obtain ⟨hanswers, hupdates⟩ := hone (source.cache t) hreachable hreadable
  obtain ⟨d, hperform, hchanged⟩ := hupdates (.setPath (-5) "A.class")
  rw [hrecord] at hupdated
  have hlegible : (Update.importRecord (-5) (some overloaded)).Legible := by
    rintro _ ⟨⟩
    decide
  obtain ⟨_, htaken, rfl⟩ := hupdated.answers (.record (-5)) (hupdated.readable hlegible _)
  obtain ⟨_, hformer, rfl⟩ := hanswers (.record (-5))
  obtain ⟨_, hpath, rfl⟩ := hchanged.answers (.part (-5) "" (·.path)) (hchanged.readable trivial _)
  obtain ⟨_, hfields, rfl⟩ := hchanged.answers (.part (-5) [] (·.fields)) (hchanged.readable trivial _)
  have hother := hchanged.answer_eq (.record 1) (by simp [Query.Reads, Update.item])
  obtain ⟨_, habsent, rfl⟩ := hanswers (.record 1)
  rw [hrecord] at hformer
  simp only [Update.change, Function.update_self, hrecord] at htaken hpath hfields
  exact ⟨source, target, source', target', t, u, d, hcopied, htaken, (hkept (.record (-5))).trans hformer, hperform,
    hpath, hfields, (hother.trans habsent).trans rfl⟩

end Cache

end ClassDeps
