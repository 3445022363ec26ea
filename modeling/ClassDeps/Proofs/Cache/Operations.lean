import ClassDeps.Cache.Index
import ClassDeps.Cache.Opened
import ClassDeps.Proofs.Class.Nesting
import ClassDeps.Proofs.Store.KeyValue
import ClassDeps.Proofs.Store.MultiValue

/-!
# Operations of a cache

What each operation answers and what it leaves, as equations, and the caches that operations lead to from an
empty one. The key-value stores of all these caches are coherent.

## Main definitions

* `Cache.answer`, `Cache.after` — what an operation answers, and the cache after it
* `Cache.Operation` — the operations that change a cache, opening it again included
* `Cache.Reachable` — the caches that operations lead to from an empty one
* `Cache.Steps` — what may have happened to a cache

## Main statements

* `after_indexReferences`, `after_removeClass`, … — what operations leave
* `steps_apply` — which records an operation may touch
* `Reachable.coherent` — the invariant of reachable caches
-/

namespace ClassDeps.Cache

variable {α β : Type}

/-- What an operation answers, and the cache after it, also if it fails. -/
def perform (c : Cache) (op : Op α) : Except CacheError α × Cache :=
  op.run.run c

/-- What an operation answers. -/
def answer (c : Cache) (op : Op α) : Except CacheError α :=
  (c.perform op).1

/-- The cache after an operation. -/
def after (c : Cache) (op : Op α) : Cache :=
  (c.perform op).2

/-! ## Steps -/

theorem perform_of_answer {c : Cache} {op : Op α} {a : α} (h : c.answer op = .ok a) :
    c.perform op = (.ok a, c.after op) :=
  Prod.ext h rfl

theorem perform_pure (c : Cache) (a : α) : c.perform (pure a) = (.ok a, c) := rfl

theorem perform_modify (c : Cache) (change : Cache → Cache) :
    c.perform (modifyThe Cache change) = (.ok (), change c) := rfl

theorem perform_bind (c : Cache) (op : Op α) (next : α → Op β) :
    c.perform (op >>= next) = match c.perform op with
      | (.ok a, c) => c.perform (next a)
      | (.error error, c) => (.error error, c) := by
  change (match c.perform op with | (a, c) => (ExceptT.bindCont next a).run c) = _
  match c.perform op with
  | (.error _, _) => rfl
  | (.ok _, _) => rfl

theorem perform_bind_of_ok {c d : Cache} {op : Op α} {a : α} (h : c.perform op = (.ok a, d))
    (next : α → Op β) : c.perform (op >>= next) = d.perform (next a) := by
  rw [perform_bind, h]

theorem perform_bind_of_error {c d : Cache} {op : Op α} {error : CacheError}
    (h : c.perform op = (.error error, d)) (next : α → Op β) :
    c.perform (op >>= next) = (.error error, d) := by
  rw [perform_bind, h]

/-- A step for each item of a list, when no step fails in the caches that the steps lead to. -/
theorem perform_forM_of {γ : Type} {step : γ → Op Unit} {change : Cache → γ → Cache} (p : Cache → Prop)
    (h : ∀ c x, p c → c.perform (step x) = (.ok (), change c x)) (hp : ∀ c x, p c → p (change c x))
    (xs : List γ) {c : Cache} (hc : p c) : c.perform (xs.forM step) = (.ok (), xs.foldl change c) := by
  induction xs generalizing c with
  | nil => rfl
  | cons x xs ih =>
    have hcons : (x :: xs).forM step = step x >>= fun _ => xs.forM step := rfl
    rw [hcons, perform_bind_of_ok (h c x hc), ih (hp c x hc), List.foldl_cons]

theorem perform_forM {γ : Type} {step : γ → Op Unit} {change : Cache → γ → Cache}
    (h : ∀ c x, c.perform (step x) = (.ok (), change c x)) (xs : List γ) (c : Cache) :
    c.perform (xs.forM step) = (.ok (), xs.foldl change c) :=
  perform_forM_of (fun _ => True) (fun c x _ => h c x) (fun _ _ _ => trivial) xs trivial

/-! ## Records -/

/-- A fault of the record store as a failure of the cache. -/
def unreadableError (fault : EncodingFault) : CacheError :=
  .corrupted (.encoding fault)

theorem run_classNames (c : Cache) :
    classNames.run.run c = (match c.classes.keys with
      | .ok names => (pure names : Op (List SymbolId))
      | .error fault => unreadable (.key fault)).run.run c := rfl

theorem perform_classNames (c : Cache) :
    c.perform classNames = (c.classes.keys.mapError fun fault => unreadableError (.key fault), c) := by
  rw [perform, run_classNames]
  cases c.classes.keys <;> rfl

theorem run_getClass (c : Cache) (q : SymbolId) :
    (getClass q).run.run c = (match (c.classes.get q).1 with
      | .ok record => (pure record : Op (Option ClassRecord))
      | .error fault => unreadable fault).run.run { c with classes := (c.classes.get q).2 } := rfl

theorem perform_getClass (c : Cache) (q : SymbolId) :
    c.perform (getClass q) =
      ((c.classes.get q).1.mapError unreadableError, { c with classes := (c.classes.get q).2 }) := by
  rw [perform, run_getClass]
  cases (c.classes.get q).1 <;> rfl

theorem answer_getClass_eq_ok {c : Cache} {q : SymbolId} {found : Option ClassRecord} :
    c.answer (getClass q) = .ok found ↔ (c.classes.get q).1 = .ok found := by
  rw [answer, perform_getClass]
  match (c.classes.get q).1 with
  | .ok _ => exact Iff.of_eq (by simp only [Except.mapError, Except.ok.injEq])
  | .error _ => exact iff_of_false nofun nofun

theorem run_isRemote (c : Cache) (q : SymbolId) :
    (isRemote q).run.run c = (match (c.remote.get q).1 with
      | .ok marker => (pure (marker.getD false) : Op Bool)
      | .error fault => unreadable fault).run.run { c with remote := (c.remote.get q).2 } := rfl

theorem perform_isRemote (c : Cache) (q : SymbolId) :
    c.perform (isRemote q) =
      (((c.remote.get q).1.map (·.getD false)).mapError unreadableError,
        { c with remote := (c.remote.get q).2 }) := by
  rw [perform, run_isRemote]
  cases (c.remote.get q).1 <;> rfl

theorem perform_read (c : Cache) (q : SymbolId) (absent : α) (part : ClassRecord → α) :
    c.perform (read q absent part) =
      ((c.answer (getClass q)).map fun found => (found.map part).getD absent, c.after (getClass q)) := by
  rw [read, answer, after]
  match h : c.perform (getClass q) with
  | (.ok found, d) =>
    rw [perform_bind_of_ok h]
    rfl
  | (.error error, d) =>
    rw [perform_bind_of_error h]
    rfl

theorem perform_setPath (c : Cache) (q : SymbolId) (path : String) :
    c.perform (setPath q path) = match c.perform (getClass q) with
      | (.ok (some record), d) => (.ok (), { d with classes := d.classes.put q { record with path } })
      | (.ok none, d) => (.ok (), d)
      | (.error error, d) => (.error error, d) := by
  match h : c.perform (getClass q) with
  | (.ok (some record), d) => exact perform_bind_of_ok h _
  | (.ok none, d) => exact perform_bind_of_ok h _
  | (.error error, d) => exact perform_bind_of_error h _

theorem perform_removeClass (c : Cache) (q : SymbolId) :
    c.perform (removeClass q) = match c.perform (getClass q) with
      | (.ok (some record), d) => (.ok (), (d.after (removeRecord q record)).after (removeEntries q))
      | (.ok none, d) => (.ok (), d.after (removeEntries q))
      | (.error error, d) => (.error error, d) := by
  match h : c.perform (getClass q) with
  | (.ok (some record), d) => exact perform_bind_of_ok h _
  | (.ok none, d) => exact perform_bind_of_ok h _
  | (.error error, d) => exact perform_bind_of_error h _

/-- What importing a document answers and leaves. -/
theorem run_importDocument (c : Cache) (document : ClassDocument) (table : SymbolTable) :
    (importDocument document table).run c = match document.intern table with
      | (.ok record, table) =>
        ((.ok record.name, table), { c with classes := c.classes.put record.name record })
      | (.error error, table) => ((.error error, table), c) := by
  unfold importDocument
  match document.intern table with
  | (.ok _, _) => rfl
  | (.error _, _) => rfl

/-! ## Indices -/

theorem perform_addReferencer (c : Cache) (key : DeclarationKey) (referencer : SymbolId) :
    c.perform (addReferencer key referencer) =
      (.ok (), { c with referencers := c.referencers.add key referencer }) := rfl

theorem perform_addReferenced (c : Cache) (q referenced : SymbolId) :
    c.perform (addReferenced q referenced) =
      (.ok (), { c with referenced := c.referenced.add q referenced }) := rfl

/-- The edges of one reference of a class. -/
def link (q : SymbolId) (c : Cache) (key : DeclarationKey) : Cache :=
  { c with
    referencers := c.referencers.add key q
    referenced := if key.owner ≠ q then c.referenced.add q key.owner else c.referenced }

/-- The edge of a super type of a class. -/
def inherit (q : SymbolId) (c : Cache) (supertype : SymbolId) : Cache :=
  { c with subclasses := c.subclasses.add supertype q }

/-- The cache with the edges of a record, which has forgotten its references. -/
def indexed (c : Cache) (q : SymbolId) (record : ClassRecord) : Cache :=
  let linked := record.supertypes.foldl (inherit q) (record.references.foldl (link q) c)
  { linked with classes := linked.classes.put q record.withoutReferences }

theorem perform_indexReference (q : SymbolId) (c : Cache) (key : DeclarationKey) :
    c.perform (indexReference q key) = (.ok (), link q c key) := by
  by_cases howner : key.owner = q
  · have hstep : indexReference q key = addReferencer key q >>= fun _ => pure () := by
      simp [indexReference, howner]
    rw [hstep, perform_bind_of_ok (perform_addReferencer c key q), perform_pure]
    simp [link, howner]
  · have hstep : indexReference q key =
        addReferencer key q >>= fun _ => addReferenced q key.owner := by
      simp [indexReference, howner]
    rw [hstep, perform_bind_of_ok (perform_addReferencer c key q), perform_addReferenced]
    simp [link, howner]

theorem perform_indexReferences (c : Cache) (q : SymbolId) :
    c.perform (indexReferences q) = match c.perform (getClass q) with
      | (.ok (some record), d) => (.ok (), d.indexed q record)
      | (.ok none, d) => (.ok (), d)
      | (.error error, d) => (.error error, d) := by
  match h : c.perform (getClass q) with
  | (.ok (some record), d) =>
    rw [indexReferences, perform_bind_of_ok h]
    have hlink := perform_forM (perform_indexReference q) record.references d
    have hinherit : (record.references.foldl (link q) d).perform
        (record.supertypes.forM fun supertype => addSubclass supertype q) =
          (.ok (), record.supertypes.foldl (inherit q) (record.references.foldl (link q) d)) :=
      perform_forM (fun _ _ => rfl) record.supertypes _
    simp only
    rw [perform_bind_of_ok hlink, perform_bind_of_ok hinherit]
    rfl
  | (.ok none, d) => exact perform_bind_of_ok h _
  | (.error error, d) => exact perform_bind_of_error h _

/-! ## Sequences of operations -/

/-- The cache after its files have been closed and opened again with room for `capacity` decoded records and
markers. -/
def reopened (c : Cache) (capacity : Nat) : Cache :=
  { c with
    classes := .ofRows c.classes.path capacity c.classes.rows
    remote := .ofRows c.remote.path capacity c.remote.rows }

/-- The cache of a new directory. -/
def fresh (root : String) (capacity : Nat) : Cache where
  root
  classes := .ofRows (Path.join root OpenCache.classesFile) capacity .empty
  remote := .ofRows (Path.join root OpenCache.remoteFile) capacity .empty
  referencers := ⟨Path.join root OpenCache.referencersFile, .empty⟩
  referenced := ⟨Path.join root OpenCache.referencedFile, .empty⟩
  subclasses := ⟨Path.join root OpenCache.subclassesFile, .empty⟩

/-- The operations that change a cache. Whatever else looks a record up leaves what `getClass` leaves. -/
inductive Operation where
  | getClass (q : SymbolId)
  | isRemote (q : SymbolId)
  | putClass (q : SymbolId) (record : ClassRecord)
  | importDocument (document : ClassDocument) (table : SymbolTable)
  | importRecord (q : SymbolId) (found : Option ClassRecord)
  | setPath (q : SymbolId) (path : String)
  | setRemote (q : SymbolId) (marker : Bool)
  | removeClass (q : SymbolId)
  | indexReferences (q : SymbolId)
  | addReferencer (key : DeclarationKey) (referencer : SymbolId)
  | removeReferencer (key : DeclarationKey) (referencer : SymbolId)
  | addReferenced (q referenced : SymbolId)
  | addSubclass (q subclass : SymbolId)
  | removeSubclass (q subclass : SymbolId)
  /-- Closing the cache and opening it again. -/
  | reopen (capacity : Nat)

namespace Operation

/-- The cache after an operation, which may have failed. -/
def apply (c : Cache) : Operation → Cache
  | getClass q => c.after (Cache.getClass q)
  | isRemote q => c.after (Cache.isRemote q)
  | putClass q record => c.after (Cache.putClass q record)
  | importDocument document table => ((Cache.importDocument document table).run c).2
  | importRecord q found => c.after (Cache.importRecord q found)
  | setPath q path => c.after (Cache.setPath q path)
  | setRemote q marker => c.after (Cache.setRemote q marker)
  | removeClass q => c.after (Cache.removeClass q)
  | indexReferences q => c.after (Cache.indexReferences q)
  | addReferencer key referencer => c.after (Cache.addReferencer key referencer)
  | removeReferencer key referencer => c.after (Cache.removeReferencer key referencer)
  | addReferenced q referenced => c.after (Cache.addReferenced q referenced)
  | addSubclass q subclass => c.after (Cache.addSubclass q subclass)
  | removeSubclass q subclass => c.after (Cache.removeSubclass q subclass)
  | reopen capacity => c.reopened capacity

/-- The class whose record an operation may write or remove. -/
def subject? : Operation → Option SymbolId
  | putClass q _ | importRecord q _ | setPath q _ | removeClass q | indexReferences q => some q
  | importDocument document table =>
    match document.intern table with
    | (.ok record, _) => some record.name
    | (.error _, _) => none
  | _ => none

end Operation

/-- The cache after some operations. -/
def run (c : Cache) (operations : List Operation) : Cache :=
  operations.foldl Operation.apply c

/-- The caches that operations lead to from the cache of a new directory. -/
inductive Reachable : Cache → Prop where
  | fresh (root : String) (capacity : Nat) : Reachable (Cache.fresh root capacity)
  | step {c : Cache} : Reachable c → (operation : Operation) → Reachable (operation.apply c)

theorem Reachable.run {c : Cache} (h : c.Reachable) (operations : List Operation) :
    (c.run operations).Reachable := by
  induction operations generalizing c with
  | nil => exact h
  | cons operation operations ih => exact ih (h.step operation)

/-! ## After operations -/

theorem after_getClass (c : Cache) (q : SymbolId) :
    c.after (getClass q) = { c with classes := (c.classes.get q).2 } := by
  rw [after, perform_getClass]

theorem after_isRemote (c : Cache) (q : SymbolId) :
    c.after (isRemote q) = { c with remote := (c.remote.get q).2 } := by
  rw [after, perform_isRemote]

theorem after_setPath (c : Cache) (q : SymbolId) (path : String) :
    c.after (setPath q path) = match (c.classes.get q).1 with
      | .ok (some record) =>
        { c with classes := (c.classes.get q).2.put q { record with path } }
      | _ => c.after (getClass q) := by
  rw [after_getClass, after, perform_setPath, perform_getClass]
  match (c.classes.get q).1 with
  | .ok (some _) => rfl
  | .ok none => rfl
  | .error _ => rfl

theorem after_indexReferences (c : Cache) (q : SymbolId) :
    c.after (indexReferences q) = match (c.classes.get q).1 with
      | .ok (some record) => (c.after (getClass q)).indexed q record
      | _ => c.after (getClass q) := by
  rw [after_getClass, after, perform_indexReferences, perform_getClass]
  match (c.classes.get q).1 with
  | .ok (some _) => rfl
  | .ok none => rfl
  | .error _ => rfl

theorem after_removeClass (c : Cache) (q : SymbolId) :
    c.after (removeClass q) = match (c.classes.get q).1 with
      | .ok (some record) => ((c.after (getClass q)).after (removeRecord q record)).after (removeEntries q)
      | .ok none => (c.after (getClass q)).after (removeEntries q)
      | .error _ => c.after (getClass q) := by
  rw [after_getClass, after, perform_removeClass, perform_getClass]
  match (c.classes.get q).1 with
  | .ok (some _) => rfl
  | .ok none => rfl
  | .error _ => rfl

/-! ## What operations keep -/

/-- The directory of a cache and the paths of its stores. -/
def paths (c : Cache) : List String :=
  [c.root, c.classes.path, c.remote.path, c.referencers.path, c.referenced.path, c.subclasses.path]

theorem foldl_keeps {σ β γ : Type} (f : σ → γ) {step : σ → β → σ} (h : ∀ s x, f (step s x) = f s)
    (xs : List β) (s : σ) : f (xs.foldl step s) = f s := by
  induction xs generalizing s with
  | nil => rfl
  | cons x xs ih => exact (ih (step s x)).trans (h s x)

/-- All of a cache but its indices. -/
def unindexed (c : Cache) : KeyValueStore SymbolId ClassRecord × KeyValueStore SymbolId Bool × List String :=
  (c.classes, c.remote, c.paths)

/-- The edges of a record are in the indices only. -/
theorem indexed_eq (c : Cache) (q : SymbolId) (record : ClassRecord) :
    (c.indexed q record).classes = c.classes.put q record.withoutReferences ∧
      (c.indexed q record).remote = c.remote ∧ (c.indexed q record).paths = c.paths := by
  have hlink (c : Cache) (key : DeclarationKey) : (link q c key).unindexed = c.unindexed := by
    simp only [link, unindexed, paths]
    split <;> rfl
  have hinherit (c : Cache) (supertype : SymbolId) : (inherit q c supertype).unindexed = c.unindexed := rfl
  have hlinked := (foldl_keeps unindexed hinherit record.supertypes _).trans
    (foldl_keeps unindexed hlink record.references c)
  simp only [unindexed, Prod.mk.injEq] at hlinked
  obtain ⟨hclasses, hremote, hpaths⟩ := hlinked
  refine ⟨?_, hremote, hpaths⟩
  rw [indexed, hclasses]

/-- A cache comes from another one by steps that write and remove records of some classes only, and move no
store. -/
structure Steps (may : SymbolId → Prop) (c d : Cache) : Prop where
  classes : KeyValueStore.Steps may c.classes d.classes
  remote : KeyValueStore.Steps (fun _ => True) c.remote d.remote
  paths : d.paths = c.paths

namespace Steps

variable {may : SymbolId → Prop} {c d : Cache}

theorem refl (c : Cache) : Steps may c c :=
  ⟨.refl c.classes, .refl c.remote, rfl⟩

theorem put (h : Steps may c d) {q : SymbolId} (hq : may q) (record : ClassRecord) :
    Steps may c { d with classes := d.classes.put q record } :=
  ⟨.put q record hq h.classes, h.remote, h.paths⟩

theorem getClass (h : Steps may c d) (q : SymbolId) : Steps may c (d.after (Cache.getClass q)) := by
  rw [after_getClass]
  refine ⟨.get q h.classes, h.remote, ?_⟩
  rw [← h.paths, Cache.paths, KeyValueStore.path_get]
  rfl

theorem isRemote (h : Steps may c d) (q : SymbolId) : Steps may c (d.after (Cache.isRemote q)) := by
  rw [after_isRemote]
  refine ⟨h.classes, .get q h.remote, ?_⟩
  rw [← h.paths, Cache.paths, KeyValueStore.path_get]
  rfl

theorem indexed (h : Steps may c d) {q : SymbolId} (hq : may q) (record : ClassRecord) :
    Steps may c (d.indexed q record) := by
  obtain ⟨hclasses, hremote, hpaths⟩ := d.indexed_eq q record
  refine ⟨?_, ?_, hpaths.trans h.paths⟩
  · rw [hclasses]
    exact .put q _ hq h.classes
  · rw [hremote]
    exact h.remote

theorem removeRecord (h : Steps may c d) {q : SymbolId} (hq : may q) (record : ClassRecord) :
    Steps may c (d.after (Cache.removeRecord q record)) := by
  have hremove (s : MultiValueStore DeclarationKey) (key : DeclarationKey) : (s.remove key).2.path = s.path := rfl
  have hpath (keys : List DeclarationKey) := foldl_keeps MultiValueStore.path hremove keys d.referencers
  refine ⟨.remove q hq h.classes, h.remote, ?_⟩
  rw [← h.paths]
  simp only [after, Cache.removeRecord, perform_modify, Cache.paths, hpath]
  rfl

theorem removeEntries (h : Steps may c d) (q : SymbolId) : Steps may c (d.after (Cache.removeEntries q)) :=
  ⟨h.classes, .remove q trivial h.remote, h.paths⟩

end Steps

/-- An operation writes and removes no record but that of the class that it is about. -/
theorem steps_apply (operation : Operation) (c : Cache) :
    Steps (fun q => operation.subject? = some q) c (operation.apply c) := by
  -- Whatever looks a record up first may have pushed another one out of memory before it goes on.
  have hrefl : Steps (fun q => operation.subject? = some q) c c := .refl c
  cases operation with
  | getClass q => exact hrefl.getClass q
  | isRemote q => exact hrefl.isRemote q
  | putClass q record => exact hrefl.put rfl record
  | importDocument document table =>
    rw [Operation.apply, run_importDocument]
    split
    · rename_i hintern
      exact hrefl.put (by rw [Operation.subject?, hintern]) _
    · exact hrefl
  | importRecord q found =>
    cases found with
    | none => exact hrefl
    | some record => exact hrefl.put rfl record.withoutReferences
  | setPath q path =>
    rw [Operation.apply, after_setPath]
    have hget := hrefl.getClass q
    split
    · rw [after_getClass] at hget
      exact hget.put rfl _
    · exact hget
  | removeClass q =>
    rw [Operation.apply, after_removeClass]
    have hget := hrefl.getClass q
    split
    · exact (hget.removeRecord rfl _).removeEntries q
    · exact hget.removeEntries q
    · exact hget
  | indexReferences q =>
    rw [Operation.apply, after_indexReferences]
    have hget := hrefl.getClass q
    split
    · exact hget.indexed rfl _
    · exact hget
  | setRemote q marker => exact ⟨.refl c.classes, .put q marker trivial (.refl c.remote), rfl⟩
  | reopen capacity => exact ⟨.reopen capacity (.refl c.classes), .reopen capacity (.refl c.remote), rfl⟩
  | addReferencer | removeReferencer | addReferenced | addSubclass | removeSubclass =>
    exact ⟨.refl c.classes, .refl c.remote, rfl⟩

theorem root_apply (operation : Operation) (c : Cache) : (operation.apply c).root = c.root :=
  (List.cons.inj (steps_apply operation c).paths).1

theorem paths_run (c : Cache) (operations : List Operation) : (c.run operations).paths = c.paths :=
  foldl_keeps paths (fun c operation => (steps_apply operation c).paths) operations c

/-! ## Coherence -/

/-- The key-value stores of a cache are coherent. -/
structure Coherent (c : Cache) : Prop where
  classes : c.classes.Coherent
  remote : c.remote.Coherent

theorem exact_record : (Storable.form (α := ClassRecord)).Exact :=
  Dialect.lawful_record.exact_shape

theorem exact_marker : (Storable.form (α := Bool)).Exact :=
  Json.Form.exact_boolean

theorem Coherent.fresh (root : String) (capacity : Nat) : (Cache.fresh root capacity).Coherent where
  classes := .ofRows fun h => by simp at h
  remote := .ofRows fun h => by simp at h

theorem Coherent.apply {c : Cache} (h : c.Coherent) (operation : Operation) :
    (operation.apply c).Coherent where
  classes := (steps_apply operation c).classes.coherent exact_record h.classes
  remote := (steps_apply operation c).remote.coherent exact_marker h.remote

theorem Coherent.run {c : Cache} (h : c.Coherent) (operations : List Operation) :
    (c.run operations).Coherent := by
  induction operations generalizing c with
  | nil => exact h
  | cons operation operations ih => exact ih (h.apply operation)

theorem Reachable.coherent {c : Cache} (h : c.Reachable) : c.Coherent := by
  induction h with
  | fresh root capacity => exact .fresh root capacity
  | step _ operation ih => exact ih.apply operation

/-- Operations on other classes leave what is stored for a class. -/
theorem holds_run {q : SymbolId} {stored : Option ClassRecord} {operations : List Operation}
    (h : ∀ operation ∈ operations, operation.subject? ≠ some q) {c : Cache}
    (hc : c.classes.Holds q stored) : (c.run operations).classes.Holds q stored := by
  induction operations generalizing c with
  | nil => exact hc
  | cons operation operations ih =>
    rw [List.forall_mem_cons] at h
    exact ih h.2 ((steps_apply operation c).classes.holds exact_record h.1 hc)

theorem fits_apply (operation : Operation) (c : Cache) (h : c.classes.memory.Fits) :
    (operation.apply c).classes.memory.Fits :=
  (steps_apply operation c).classes.fits h

theorem fits_run {c : Cache} (h : c.classes.memory.Fits) (operations : List Operation) :
    (c.run operations).classes.memory.Fits := by
  induction operations generalizing c with
  | nil => exact h
  | cons operation operations ih => exact ih (fits_apply operation c h)

/-- A stored record is looked up if its row can be read or it is still in memory. -/
theorem answer_getClass_of_holds {c : Cache} {q : SymbolId} {record : ClassRecord}
    (h : c.classes.Holds q (some record)) :
    c.answer (getClass q) =
      if record.nesting ≤ Json.depthLimit ∨ c.classes.memory.contains (StoreKey.encode q)
      then .ok (some record) else .error (unreadableError (.value c.classes.path)) := by
  have hdepth : (Storable.form.write record).depth = record.nesting := record.depth_write
  rw [answer, perform_getClass, h.get_fst exact_record, hdepth]
  split <;> rfl

end ClassDeps.Cache
