import ClassDeps.Proofs.Cache.Aggregation
import ClassDeps.Proofs.Cache.Edges
import ClassDeps.Proofs.Cache.Removal

/-!
# Edges without loose ends

As long as nobody edits the indices by hand, every edge starts at a class whose record is stored, and every class
that another one refers forward to is the owner of a declaration of which that one is a referencer. The index pass
adds edges of a class with a record only, and a removal takes a record out together with all edges of its class.

## Main definitions

* `Operation.editsIndex` — operations that add or take away single edges
* `Cache.Stored` — classes with a stored record
* `Cache.Closed` — the invariant

## Main statements

* `Closed.indexed`, `Closed.removed` — index pass and removal keep the invariant
* `Closed.apply` — every operation does that edits no index by hand
* `closed_run` — whatever such operations lead to, dependencies name stored classes only
-/

namespace ClassDeps.Cache

/-- Whether an operation adds or takes away a single edge, whatever the records say. -/
def Operation.editsIndex : Operation → Bool
  | addReferencer _ _ | removeReferencer _ _ | addReferenced _ _ | addSubclass _ _ | removeSubclass _ _ =>
    true
  | _ => false

variable {c d : Cache} {q r : SymbolId} {record : ClassRecord} {found : Option ClassRecord}
  {operation : Operation} {operations : List Operation}

/-! ## Stored records -/

/-- The row of a class is what is written of a record. -/
def Stored (c : Cache) (q : SymbolId) : Prop :=
  ∃ record : ClassRecord, c.classes.rows.get? (StoreKey.encode q) = some (Storable.form.toBytes record)

theorem Stored.answer_containsClass (h : c.Stored q) : c.answer (containsClass q) = .ok true := by
  obtain ⟨record, hrow⟩ := h
  have hcontains : c.classes.contains q = true := by
    rw [KeyValueStore.contains, Ordered.Map.contains, hrow, Option.isSome_some, Bool.or_true]
  exact congrArg Except.ok hcontains

theorem stored_put (c : Cache) (q : SymbolId) (record : ClassRecord) :
    ({ c with classes := c.classes.put q record } : Cache).Stored q := by
  refine ⟨record, ?_⟩
  rw [KeyValueStore.put, Ordered.Map.get?_insert, if_pos rfl]

theorem Stored.put (h : c.Stored r) (q : SymbolId) (record : ClassRecord) :
    ({ c with classes := c.classes.put q record } : Cache).Stored r := by
  by_cases hr : r = q
  · rw [hr]
    exact stored_put c q record
  · obtain ⟨former, hrow⟩ := h
    refine ⟨former, ?_⟩
    have hkey : StoreKey.encode r ≠ StoreKey.encode q := fun h => hr (StoreKey.encode_eq_iff.1 h)
    rw [KeyValueStore.put, Ordered.Map.get?_insert, if_neg hkey, hrow]

theorem Stored.getClass (h : c.Stored r) (q : SymbolId) : (c.after (Cache.getClass q)).Stored r := by
  obtain ⟨record, hrow⟩ := h
  rw [after_getClass]
  exact ⟨record, (congrArg (·.get? (StoreKey.encode r)) (c.classes.rows_get q)).trans hrow⟩

theorem Stored.indexed (h : c.Stored r) (q : SymbolId) (record : ClassRecord) :
    (c.indexed q record).Stored r := by
  have hput := h.put q record.withoutReferences
  rw [Stored, (indexed_eq c q record).1]
  exact hput

theorem Stored.removed (h : c.Stored r) (hr : r ≠ q) (found : Option ClassRecord) :
    (c.removed q found).Stored r := by
  obtain ⟨record, hrow⟩ := h
  have hkey : StoreKey.encode r ≠ StoreKey.encode q := fun h => hr (StoreKey.encode_eq_iff.1 h)
  cases found with
  | none => exact ⟨record, hrow⟩
  | some former =>
    refine ⟨record, ?_⟩
    have herase := c.classes.rows.get?_erase (StoreKey.encode q) (StoreKey.encode r)
    rw [if_neg hkey, hrow] at herase
    exact herase

/-- A record that is found is stored, since memory holds nothing that the rows do not hold. -/
theorem Coherent.stored (hc : c.Coherent) (h : (c.classes.get q).1 = .ok (some record)) : c.Stored q :=
  ⟨record, hc.classes.row_of_get exact_record h⟩

/-! ## The invariant -/

/-- Every edge starts at a class with a stored record, and every class that another one refers forward to owns a
declaration that the other one refers to. -/
structure Closed (c : Cache) : Prop where
  referencer : ∀ {key : DeclarationKey} {r : SymbolId}, r ∈ c.referencers.values key → c.Stored r
  subclass : ∀ {q s : SymbolId}, s ∈ c.subclasses.values q → c.Stored s
  referring : ∀ {r : SymbolId}, c.referenced.values r ≠ [] → c.Stored r
  other : ∀ {r t : SymbolId}, t ∈ c.referenced.values r → t ≠ r
  witnessed : ∀ {r t : SymbolId}, t ∈ c.referenced.values r →
    ∃ key : DeclarationKey, key.owner = t ∧ r ∈ c.referencers.values key

namespace Closed

theorem fresh (root : String) (capacity : Nat) : (Cache.fresh root capacity).Closed where
  referencer h := absurd h List.not_mem_nil
  subclass h := absurd h List.not_mem_nil
  referring h := absurd rfl h
  other h := absurd h List.not_mem_nil
  witnessed h := absurd h List.not_mem_nil

/-- What changes no index and removes no record keeps the invariant. -/
theorem of_stored (h : c.Closed) (hstored : ∀ {r : SymbolId}, c.Stored r → d.Stored r)
    (hreferencers : d.referencers = c.referencers) (hreferenced : d.referenced = c.referenced)
    (hsubclasses : d.subclasses = c.subclasses) : d.Closed where
  referencer hr := hstored (h.referencer (hreferencers ▸ hr))
  subclass hs := hstored (h.subclass (hsubclasses ▸ hs))
  referring hr := hstored (h.referring (hreferenced ▸ hr))
  other ht := h.other (hreferenced ▸ ht)
  witnessed ht := by
    rw [hreferencers]
    exact h.witnessed (hreferenced ▸ ht)

theorem put (h : c.Closed) (q : SymbolId) (record : ClassRecord) :
    ({ c with classes := c.classes.put q record } : Cache).Closed :=
  h.of_stored (·.put q record) rfl rfl rfl

theorem getClass (h : c.Closed) (q : SymbolId) : (c.after (Cache.getClass q)).Closed := by
  have hafter := after_getClass c q
  exact h.of_stored (·.getClass q) (by rw [hafter]) (by rw [hafter]) (by rw [hafter])

/-- The index pass adds edges of a class with a record. -/
theorem indexed (h : c.Closed) (hq : c.Stored q) (record : ClassRecord) : (c.indexed q record).Closed where
  referencer hr := by
    obtain ⟨-, rfl⟩ | hr := mem_referencers_indexed.1 hr
    · exact hq.indexed _ record
    · exact (h.referencer hr).indexed q record
  subclass hs := by
    obtain ⟨-, rfl⟩ | hs := mem_subclasses_indexed.1 hs
    · exact hq.indexed _ record
    · exact (h.subclass hs).indexed q record
  referring hr := by
    obtain ⟨t, ht⟩ := List.exists_mem_of_ne_nil _ hr
    obtain ⟨rfl, -⟩ | ht := mem_referenced_indexed.1 ht
    · exact hq.indexed _ record
    · exact (h.referring (List.ne_nil_of_mem ht)).indexed q record
  other ht := by
    obtain ⟨rfl, ht, -⟩ | ht := mem_referenced_indexed.1 ht
    · exact ht
    · exact h.other ht
  witnessed ht := by
    obtain ⟨rfl, -, key, hkey, howner⟩ | ht := mem_referenced_indexed.1 ht
    · exact ⟨key, howner, mem_referencers_indexed.2 (.inl ⟨hkey, rfl⟩)⟩
    · obtain ⟨key, howner, hr⟩ := h.witnessed ht
      exact ⟨key, howner, mem_referencers_indexed.2 (.inr hr)⟩

/-- A class is taken out of all sets together with its record. -/
theorem removed (h : c.Closed) (q : SymbolId) (found : Option ClassRecord) : (c.removed q found).Closed where
  referencer hr := by
    obtain ⟨-, hr, hne⟩ := mem_referencers_removed.1 hr
    exact (h.referencer hr).removed hne found
  subclass hs := by
    obtain ⟨-, hs, hne⟩ := mem_subclasses_removed.1 hs
    exact (h.subclass hs).removed hne found
  referring hr := by
    obtain ⟨t, ht⟩ := List.exists_mem_of_ne_nil _ hr
    obtain ⟨hne, ht, -⟩ := mem_referenced_removed.1 ht
    exact (h.referring (List.ne_nil_of_mem ht)).removed hne found
  other ht := h.other (mem_referenced_removed.1 ht).2.1
  witnessed ht := by
    obtain ⟨hr, ht, hne⟩ := mem_referenced_removed.1 ht
    obtain ⟨key, howner, hkey⟩ := h.witnessed ht
    refine ⟨key, howner, mem_referencers_removed.2 ⟨fun hdeclared => hne ?_, hkey, hr⟩⟩
    -- A set that is emptied is one of the class that is removed, and that is not what is referred to.
    rw [← howner, owner_of_mem_declaredKeys hdeclared]

theorem apply (h : c.Closed) (hc : c.Coherent) (hoperation : operation.editsIndex = false) :
    (operation.apply c).Closed := by
  cases operation with
  | getClass q => exact h.getClass q
  | isRemote q =>
    rw [Operation.apply, after_isRemote]
    exact h.of_stored id rfl rfl rfl
  | putClass q record => exact h.put q record
  | importDocument document table =>
    rw [Operation.apply, run_importDocument]
    split
    · exact h.put _ _
    · exact h
  | importRecord q found =>
    cases found with
    | none => exact h
    | some record => exact h.put q record.withoutReferences
  | setPath q path =>
    rw [Operation.apply, after_setPath]
    have hget := h.getClass q
    split
    · rw [after_getClass] at hget
      exact hget.put q _
    · exact hget
  | setRemote q marker => exact h.of_stored id rfl rfl rfl
  | removeClass q =>
    rw [Operation.apply]
    rcases hget : c.perform (Cache.getClass q) with ⟨error | found, d⟩
    · have hd : c.after (Cache.getClass q) = d := congrArg Prod.snd hget
      rw [after, perform_removeClass, hget]
      exact hd ▸ h.getClass q
    · rw [after, perform_removeClass_of_ok hget]
      have hd : c.after (Cache.getClass q) = d := congrArg Prod.snd hget
      exact hd ▸ (h.getClass q).removed q found
  | indexReferences q =>
    rw [Operation.apply, after_indexReferences]
    split
    · rename_i record hget
      exact (h.getClass q).indexed ((hc.stored hget).getClass q) record
    · exact h.getClass q
  | reopen capacity => exact h.of_stored id rfl rfl rfl
  | addReferencer | removeReferencer | addReferenced | addSubclass | removeSubclass => cases hoperation

theorem run (h : c.Closed) (hc : c.Coherent)
    (hoperations : ∀ operation ∈ operations, operation.editsIndex = false) : (c.run operations).Closed := by
  induction operations generalizing c with
  | nil => exact h
  | cons operation operations ih =>
    rw [List.forall_mem_cons] at hoperations
    exact ih (h.apply hc hoperations.1) (hc.apply operation) hoperations.2

end Closed

/-! ## Runs -/

/-- Whoever depends on a class is a referencer of the class or of one of its members. -/
theorem exists_key_of_backDependencies {dependencies : List Dependency}
    (h : c.perform (backDependencies q) = (.ok dependencies, d)) :
    d = c.after (getClass q) ∧
      ∀ dependency ∈ dependencies, ∃ key, dependency.referencer ∈ c.referencers.values key := by
  have hperform := c.perform_backDependencies q
  rw [h] at hperform
  split at hperform
  · rename_i found _ hget
    obtain ⟨listed, hlisted, -, hmem⟩ := exists_backDependencies (c := c) (congrArg Prod.fst hget)
    cases h.symm.trans hlisted
    refine ⟨rfl, fun dependency hdependency => ?_⟩
    exact exists_key_of_used ((hmem dependency).1 hdependency).2.1
  · cases hperform

/-- The invariant holds whatever operations lead from a new cache, unless one of them edits an index by hand. The
dependencies on a class then name classes only that the cache contains. -/
theorem closed_run (root : String) (capacity : Nat) (operations : List Operation)
    (hoperations : ∀ operation ∈ operations, operation.editsIndex = false) :
    ((fresh root capacity).run operations).Closed ∧
      ∀ q dependencies d,
        ((fresh root capacity).run operations).perform (backDependencies q) = (.ok dependencies, d) →
        ∀ dependency ∈ dependencies,
          ((fresh root capacity).run operations).answer (containsClass dependency.referencer) = .ok true ∧
            d.answer (containsClass dependency.referencer) = .ok true := by
  have hclosed := (Closed.fresh root capacity).run (.fresh root capacity) hoperations
  refine ⟨hclosed, fun q dependencies d h dependency hdependency => ?_⟩
  obtain ⟨rfl, hkeys⟩ := exists_key_of_backDependencies h
  obtain ⟨key, hkey⟩ := hkeys dependency hdependency
  have hstored := hclosed.referencer hkey
  exact ⟨hstored.answer_containsClass, (hstored.getClass q).answer_containsClass⟩

/-- A class that refers to another one, to a field of it and to itself. -/
def referringRecord : ClassRecord :=
  { ClassRecord.new 1 0 with super := 2, references := [.type 2, .field 2 5, .type 1] }

/-- The dependency on a class that is not stored, of a class that is, after others were removed. -/
theorem closed_run_removal :
    ∃ d, ((fresh "cache" 8).run [.putClass 1 referringRecord, .putClass 3 referringRecord,
        .indexReferences 1, .indexReferences 3, .removeClass 3]).perform (backDependencies 2) =
          (.ok [⟨1, []⟩], d) ∧
      d.answer (containsClass 1) = .ok true := by
  let operations : List Operation := [.putClass 1 referringRecord, .putClass 3 referringRecord,
    .indexReferences 1, .indexReferences 3, .removeClass 3]
  have hoperations : ∀ operation ∈ operations, operation.editsIndex = false := by
    simp [operations, Operation.editsIndex]
  obtain ⟨-, hcontains⟩ := closed_run "cache" 8 operations hoperations
  have hanswer : ((fresh "cache" 8).run operations).answer (backDependencies 2) = .ok [⟨1, []⟩] := by
    decide
  have hperform := perform_of_answer hanswer
  exact ⟨_, hperform, (hcontains 2 _ _ hperform _ List.mem_cons_self).2⟩

end ClassDeps.Cache
