import ClassDeps.Proofs.Cache.Operations

/-!
# What removing a class leaves

Removing a class takes it out of every set of every index, and empties its own sets in the indices by class. Of the
sets under its members only those of the members that its record declares are emptied: under any other member of
the class the other referencers stay.

## Main definitions

* `declaredKeys` — the keys of a class and of the members that its record declares
* `removed` — the cache without a class

## Main statements

* `perform_removeClass_of_ok` — a removal succeeds if the look-up does
* `values_referencers_removed`, … — the sets of the indices after it
* `removeClass_complete_iff` — when no referencer of the class is left
-/

namespace ClassDeps.Cache

variable {c d : Cache} {q : SymbolId} {found : Option ClassRecord}

/-- The keys of a class: those of the members that its record declares, if it has one, and its own. -/
def declaredKeys (q : SymbolId) (found : Option ClassRecord) : List DeclarationKey :=
  (found.elim [] fun record => (memberKeys q record).map Prod.fst) ++ [.type q]

/-- The cache without a class whose record was looked up. -/
def removed (c : Cache) (q : SymbolId) (found : Option ClassRecord) : Cache :=
  { c with
    classes := if found.isSome then (c.classes.remove q).2 else c.classes
    remote := (c.remote.remove q).2
    referencers := (((declaredKeys q found).foldl (fun s k => (s.remove k).2) c.referencers).purge q).2
    referenced := (((c.referenced.remove q).2).purge q).2
    subclasses := (((c.subclasses.remove q).2).purge q).2 }

/-- A class owns all keys that are emptied with it. -/
theorem owner_of_mem_declaredKeys {key : DeclarationKey} (h : key ∈ declaredKeys q found) : key.owner = q := by
  cases found with
  | none =>
    rw [List.mem_singleton.1 h]
    rfl
  | some record =>
    simp only [declaredKeys, Option.elim_some, memberKeys, List.map_append, List.map_map, List.mem_append,
      List.mem_map, Function.comp_apply, List.mem_singleton] at h
    obtain (⟨_, _, rfl⟩ | ⟨_, _, rfl⟩) | rfl := h <;> rfl

theorem perform_removeClass_of_ok (h : c.perform (getClass q) = (.ok found, d)) :
    c.perform (removeClass q) = (.ok (), d.removed q found) := by
  rw [perform_removeClass, h]
  cases found with
  | none => rfl
  | some record =>
    -- The keys of the fields are emptied before those of the methods, as `memberKeys` lists them.
    have hkeys : (memberKeys q record).map Prod.fst =
        record.fields.map (fun f => Declaration.field q f.name) ++
          record.methods.map fun m => Declaration.method q m.name m.descriptor := by
      simp only [memberKeys, List.map_append, List.map_map]
      rfl
    rw [removed, declaredKeys, Option.elim_some, hkeys, List.foldl_append]
    rfl

theorem exists_of_removeClass (h : c.perform (removeClass q) = (.ok (), d)) :
    ∃ found, c.answer (getClass q) = .ok found ∧ d = (c.after (getClass q)).removed q found := by
  cases hget : c.perform (getClass q) with
  | mk result after =>
    cases result with
    | error error =>
      rw [perform_removeClass, hget] at h
      cases h
    | ok found =>
      rw [perform_removeClass_of_ok hget] at h
      cases h
      exact ⟨found, congrArg Prod.fst hget, by rw [Cache.after, hget]⟩

/-! ## Stores and indices -/

theorem contains_removed (h : c.answer (getClass q) = .ok found) :
    ((c.after (getClass q)).removed q found).classes.contains q = false := by
  rw [after_getClass]
  cases found with
  | none => exact KeyValueStore.contains_of_get_eq_none (answer_getClass_eq_ok.1 h)
  | some record => exact KeyValueStore.contains_remove _ q

theorem isRemote_removed (c : Cache) (q : SymbolId) (found : Option ClassRecord) :
    (c.removed q found).answer (isRemote q) = .ok false := by
  rw [answer, perform_isRemote, removed, KeyValueStore.get_remove]
  rfl

theorem values_referencers_removed (c : Cache) (q : SymbolId) (found : Option ClassRecord)
    (key : DeclarationKey) :
    (c.removed q found).referencers.values key =
      if key ∈ declaredKeys q found then [] else (c.referencers.values key).filter (· ≠ q) := by
  rw [removed, MultiValueStore.values_purge, MultiValueStore.values_foldl_remove]
  by_cases hkey : key ∈ declaredKeys q found
  · rw [if_pos hkey, if_pos hkey]
    rfl
  · rw [if_neg hkey, if_neg hkey]

/-- The sets of an index by class after the class is removed from it, as a key and as a value. -/
theorem values_remove_purge (s : MultiValueStore SymbolId) (q p : SymbolId) :
    ((s.remove q).2.purge q).2.values p = if p = q then [] else (s.values p).filter (· ≠ q) := by
  rw [MultiValueStore.values_purge, MultiValueStore.values_remove]
  by_cases hp : p = q
  · rw [if_pos hp, if_pos hp]
    rfl
  · rw [if_neg hp, if_neg hp]

theorem mem_referencers_removed {r : SymbolId} {key : DeclarationKey} :
    r ∈ (c.removed q found).referencers.values key ↔
      key ∉ declaredKeys q found ∧ r ∈ c.referencers.values key ∧ r ≠ q := by
  rw [values_referencers_removed]
  split <;> simp_all

theorem mem_values_remove_purge {s : MultiValueStore SymbolId} {p r : SymbolId} :
    r ∈ ((s.remove q).2.purge q).2.values p ↔ p ≠ q ∧ r ∈ s.values p ∧ r ≠ q := by
  rw [values_remove_purge]
  split <;> simp_all

theorem mem_referenced_removed {p r : SymbolId} :
    r ∈ (c.removed q found).referenced.values p ↔ p ≠ q ∧ r ∈ c.referenced.values p ∧ r ≠ q :=
  mem_values_remove_purge

theorem mem_subclasses_removed {p r : SymbolId} :
    r ∈ (c.removed q found).subclasses.values p ↔ p ≠ q ∧ r ∈ c.subclasses.values p ∧ r ≠ q :=
  mem_values_remove_purge

theorem not_mem_values_purge {κ : Type} [StoreKey κ] (s : MultiValueStore κ) (k : κ) (q : SymbolId) :
    q ∉ (s.purge q).2.values k := by
  rw [MultiValueStore.values_purge]
  simp

/-! ## Removals -/

/-- What a removal that succeeds leaves, in any cache. No referencer of the class or of one of its members is left
exactly if no class but itself was a referencer of a member that its record does not declare. -/
theorem removeClass_complete_iff (h : c.perform (removeClass q) = (.ok (), d)) :
    ∃ found, c.answer (getClass q) = .ok found ∧
      d.answer (containsClass q) = .ok false ∧ d.answer (isRemote q) = .ok false ∧
      (∀ key, d.answer (referencersOf key) = .ok
        (if key ∈ declaredKeys q found then [] else (c.referencers.values key).filter (· ≠ q))) ∧
      (∀ p, d.answer (referencedClasses p) = .ok
        (if p = q then [] else (c.referenced.values p).filter (· ≠ q))) ∧
      (∀ p, d.answer (subclassesOf p) = .ok
        (if p = q then [] else (c.subclasses.values p).filter (· ≠ q))) ∧
      (∀ key, q ∉ d.referencers.values key) ∧
      (∀ p, q ∉ d.referenced.values p) ∧ (∀ p, q ∉ d.subclasses.values p) ∧
      ((∀ key, key.owner = q → d.referencers.values key = []) ↔
        ∀ key, key.owner = q → key ∉ declaredKeys q found → ∀ r ∈ c.referencers.values key, r = q) := by
  obtain ⟨found, hfound, hd⟩ := exists_of_removeClass h
  have hreferencers (key : DeclarationKey) : d.referencers.values key =
      if key ∈ declaredKeys q found then [] else (c.referencers.values key).filter (· ≠ q) := by
    rw [hd, values_referencers_removed, after_getClass]
  have hreferenced (p : SymbolId) : d.referenced.values p =
      if p = q then [] else (c.referenced.values p).filter (· ≠ q) := by
    rw [hd, removed, values_remove_purge, after_getClass]
  have hsubclasses (p : SymbolId) : d.subclasses.values p =
      if p = q then [] else (c.subclasses.values p).filter (· ≠ q) := by
    rw [hd, removed, values_remove_purge, after_getClass]
  refine ⟨found, hfound, ?_, ?_, fun key => congrArg Except.ok (hreferencers key),
    fun p => congrArg Except.ok (hreferenced p), fun p => congrArg Except.ok (hsubclasses p),
    ?_, ?_, ?_, ?_⟩
  · rw [hd]
    exact congrArg Except.ok (contains_removed hfound)
  · rw [hd]
    exact isRemote_removed _ q found
  · intro key
    rw [hd]
    exact not_mem_values_purge _ key q
  · intro p
    rw [hd]
    exact not_mem_values_purge _ p q
  · intro p
    rw [hd]
    exact not_mem_values_purge _ p q
  · -- A declared key is emptied; of any other one only the class itself is taken out.
    refine forall_congr' fun key => imp_congr_right fun _ => ?_
    rw [hreferencers]
    by_cases hkey : key ∈ declaredKeys q found
    · simp [hkey]
    · simp [hkey, List.filter_eq_nil_iff]

/-- A removal that leaves a referencer of a member of a class without a record. -/
theorem removeClass_leaves_referencer :
    ∃ d, ((fresh "cache" 8).run [.addReferencer (.field 1 2) 3]).perform (removeClass 1) = (.ok (), d) ∧
      d.answer (referencersOf (.field 1 2)) = .ok [3] := by
  let c := (fresh "cache" 8).run [.addReferencer (.field 1 2) 3]
  have hget : c.perform (getClass 1) = (.ok none, c.after (getClass 1)) := rfl
  have hremoved := perform_removeClass_of_ok hget
  obtain ⟨found, hfound, -, -, hreferencers, -⟩ := removeClass_complete_iff hremoved
  cases hfound.symm.trans (congrArg Prod.fst hget)
  refine ⟨_, hremoved, (hreferencers (.field 1 2)).trans ?_⟩
  decide

end ClassDeps.Cache
