import ClassDeps.Proofs.Cache.Aggregation
import ClassDeps.Proofs.Cache.IndexPass
import ClassDeps.Proofs.Cache.Removal

/-!
# What removals leave of other classes

If all records can be read, a removal takes away what is the class's own and nothing else: its row and its marker, the
edges under its keys and those that lead to it. So removing some classes leaves what is of none of them, in whatever
order they are removed and however often: a class that has gone has no record left to name further keys.

## Main definitions

* `Cache.Legible` — all records can be read from their rows
* `Cache.without` — the cache without a class
* `Cache.Without` — all that is of none of some classes

## Main statements

* `Legible.perform_removeClass`, `Legible.without` — removals succeed, and the other records can still be read
* `Legible.without_foldl` — removing several classes
* `removeClass_spares_others` — other classes after a removal, and the order of removals
-/

namespace ClassDeps.Cache

open Json (depthLimit)

variable {c d e : Cache} {x y q r : SymbolId} {xs ys : List SymbolId} {edge : Link} {found : Option ClassRecord}

/-- The record of a class by its row. -/
def stored? (c : Cache) (q : SymbolId) : Option ClassRecord :=
  (c.classes.rows.get? (StoreKey.encode q)).bind Storable.form.ofBytes?

/-- All records can be read from their rows, be they in memory or not. -/
structure Legible (c : Cache) : Prop extends Coherent c where
  readable : ∀ q : SymbolId, ∃ found, c.classes.readRow (StoreKey.encode q) = .ok found

/-- The cache without a class. -/
def without (c : Cache) (x : SymbolId) : Cache :=
  (c.after (getClass x)).removed x (c.stored? x)

/-! ## One class -/

theorem mem_referencer_links_removed :
    edge ∈ (c.removed x found).referencers.links ↔ edge ∈ c.referencers.links ∧ edge.value ≠ x ∧
      ∀ key ∈ declaredKeys x found, edge.key ≠ StoreKey.encode key := by
  rw [removed, MultiValueStore.mem_links_purge, MultiValueStore.mem_links_foldl_remove, and_right_comm,
    and_assoc]

theorem mem_links_remove_purge {s : MultiValueStore SymbolId} :
    edge ∈ ((s.remove x).2.purge x).2.links ↔
      edge ∈ s.links ∧ edge.value ≠ x ∧ edge.key ≠ StoreKey.encode x := by
  rw [MultiValueStore.mem_links_purge, MultiValueStore.mem_links_remove, and_right_comm, and_assoc]

theorem stored?_eq_of_row (h : d.classes.rows.get? (StoreKey.encode q) = c.classes.rows.get? (StoreKey.encode q)) :
    d.stored? q = c.stored? q := by
  rw [stored?, h, stored?]

namespace Legible

theorem fresh (root : String) (capacity : Nat) : (Cache.fresh root capacity).Legible where
  toCoherent := .fresh root capacity
  readable _ := ⟨none, rfl⟩

/-- A record is stored in a row that can be read if it nests no deeper than readers follow. -/
theorem put (h : c.Legible) (x : SymbolId) (record : ClassRecord) (hdepth : record.nesting ≤ depthLimit) :
    Legible { c with classes := c.classes.put x record } where
  toCoherent := ⟨h.classes.put x record, h.remote⟩
  readable q := by
    by_cases hq : StoreKey.encode q = StoreKey.encode x
    · have hrow : (c.classes.put x record).rows.get? (StoreKey.encode q) = some (Storable.form.toBytes record) := by
        rw [KeyValueStore.put, Ordered.Map.get?_insert, if_pos hq]
      have hwrite : (Storable.form.write record).depth ≤ depthLimit := record.depth_write ▸ hdepth
      exact ⟨some record, (KeyValueStore.readRow_of_row exact_record hrow).trans (if_pos hwrite)⟩
    · obtain ⟨found, hread⟩ := h.readable q
      refine ⟨found, KeyValueStore.readRow_congr ?_ hread⟩
      rw [KeyValueStore.put, Ordered.Map.get?_insert, if_neg hq]

theorem readRow_eq (h : c.Legible) (q : SymbolId) : c.classes.readRow (StoreKey.encode q) = .ok (c.stored? q) := by
  obtain ⟨found, hread⟩ := h.readable q
  rw [hread]
  rw [KeyValueStore.readRow] at hread
  rw [stored?]
  split at hread
  · rename_i hrow
    cases hread
    rw [hrow]
    rfl
  · rename_i bytes hrow
    split at hread
    · cases hread
    · rename_i value hvalue
      cases hread
      rw [hrow, Option.bind_some, hvalue]

theorem answer_getClass (h : c.Legible) (q : SymbolId) : c.answer (getClass q) = .ok (c.stored? q) :=
  answer_getClass_eq_ok.2 (h.classes.get_of_readRow exact_record (h.readRow_eq q))

theorem perform_removeClass (h : c.Legible) (x : SymbolId) : c.perform (removeClass x) = (.ok (), c.without x) :=
  perform_removeClass_of_ok (perform_of_answer (h.answer_getClass x))

theorem rows_without (h : c.Legible) (x : SymbolId) (key : Bytes) : (c.without x).classes.rows.get? key =
    if key = StoreKey.encode x then none else c.classes.rows.get? key := by
  have hread := h.readRow_eq x
  rw [without, removed, after_getClass]
  rcases hstored : c.stored? x with _ | record
  · rw [hstored] at hread
    simp only [Option.isSome_none, Bool.false_eq_true, if_false, KeyValueStore.rows_get]
    split
    · rename_i hkey
      rw [hkey, KeyValueStore.eq_none_of_readRow hread]
    · rfl
  · simp only [Option.isSome_some, if_true, KeyValueStore.remove, Ordered.Map.get?_erase, KeyValueStore.rows_get]

theorem remote_without (c : Cache) (x : SymbolId) : (c.without x).remote = (c.remote.remove x).2 := by
  rw [without, removed, after_getClass]

/-- The records of other classes stay, and can be read. -/
theorem stored?_without (h : c.Legible) (x y : SymbolId) :
    (c.without x).stored? y = if y = x then none else c.stored? y := by
  rw [stored?, h.rows_without]
  simp only [StoreKey.encode_eq_iff]
  split
  · rfl
  · rfl

theorem without (h : c.Legible) (x : SymbolId) : (c.without x).Legible where
  toCoherent := by
    have hd := h.toCoherent.apply (.removeClass x)
    rwa [Operation.apply, after, h.perform_removeClass] at hd
  readable q := by
    by_cases hq : q = x
    · refine ⟨none, KeyValueStore.readRow_eq_none ?_⟩
      rw [h.rows_without, if_pos (congrArg _ hq)]
    · refine ⟨c.stored? q, KeyValueStore.readRow_congr ?_ (h.readRow_eq q)⟩
      rw [h.rows_without, if_neg fun hkey => hq (StoreKey.encode_eq_iff.1 hkey)]

end Legible

/-! ## Several classes -/

/-- A cache has all of another one that is of none of some classes: the rows of other classes, and the edges that neither
stand under a key of these classes nor lead to one of them. -/
structure Without (xs : List SymbolId) (c d : Cache) : Prop where
  rows : ∀ key, d.classes.rows.get? key = if ∃ x ∈ xs, key = StoreKey.encode x then none else c.classes.rows.get? key
  remote : ∀ key, d.remote.rows.get? key = if ∃ x ∈ xs, key = StoreKey.encode x then none else c.remote.rows.get? key
  referencers : ∀ edge, edge ∈ d.referencers.links ↔ edge ∈ c.referencers.links ∧ edge.value ∉ xs ∧
    ∀ x ∈ xs, ∀ key ∈ declaredKeys x (c.stored? x), edge.key ≠ StoreKey.encode key
  referenced : ∀ edge, edge ∈ d.referenced.links ↔ edge ∈ c.referenced.links ∧ edge.value ∉ xs ∧
    ∀ x ∈ xs, edge.key ≠ StoreKey.encode x
  subclasses : ∀ edge, edge ∈ d.subclasses.links ↔ edge ∈ c.subclasses.links ∧ edge.value ∉ xs ∧
    ∀ x ∈ xs, edge.key ≠ StoreKey.encode x
  capacity : d.classes.memory.capacity = c.classes.memory.capacity

namespace Without

theorem nil (c : Cache) : Without [] c c where
  rows _ := by simp
  remote _ := by simp
  referencers _ := by simp
  referenced _ := by simp
  subclasses _ := by simp
  capacity := rfl

theorem single (h : c.Legible) (x : SymbolId) : Without [x] c (c.without x) where
  rows key := by simp only [h.rows_without, List.mem_singleton, exists_eq_left]
  remote key := by
    simp only [Legible.remote_without, KeyValueStore.remove, Ordered.Map.get?_erase, List.mem_singleton, exists_eq_left]
  referencers edge := by
    rw [without, mem_referencer_links_removed, after_getClass]
    simp only [List.mem_singleton, forall_eq]
  referenced edge := by
    rw [without, removed, after_getClass, mem_links_remove_purge]
    simp only [List.mem_singleton, forall_eq]
  subclasses edge := by
    rw [without, removed, after_getClass, mem_links_remove_purge]
    simp only [List.mem_singleton, forall_eq]
  capacity := by
    have hget := KeyValueStore.capacity_get c.classes x
    rw [without, removed, after_getClass]
    rcases c.stored? x with _ | record
    · exact hget
    · exact (Lru.capacity_remove ..).trans hget

/-- One class before others. When these are removed the record of the first one has gone, but what its class still owns
without a record has gone with it. -/
theorem cons (hfirst : Without [x] c d) (hrest : Without xs d e) : Without (x :: xs) c e where
  rows key := by
    rw [hrest.rows, hfirst.rows]
    by_cases hkey : key = StoreKey.encode x
    · simp [hkey]
    · simp [hkey]
  remote key := by
    rw [hrest.remote, hfirst.remote]
    by_cases hkey : key = StoreKey.encode x
    · simp [hkey]
    · simp [hkey]
  referencers edge := by
    have hstored (y : SymbolId) (hy : y ≠ x) : d.stored? y = c.stored? y := by
      refine stored?_eq_of_row ?_
      rw [hfirst.rows, if_neg]
      simpa [StoreKey.encode_eq_iff] using hy
    have hgone : d.stored? x = none := by
      rw [stored?, hfirst.rows, if_pos ⟨x, List.mem_singleton_self x, rfl⟩]
      rfl
    have hkeys (hx : ∀ key ∈ declaredKeys x (c.stored? x), edge.key ≠ StoreKey.encode key) (y : SymbolId) :
        (∀ key ∈ declaredKeys y (d.stored? y), edge.key ≠ StoreKey.encode key) ↔
          ∀ key ∈ declaredKeys y (c.stored? y), edge.key ≠ StoreKey.encode key := by
      by_cases hy : y = x
      · rw [hy, hgone]
        refine iff_of_true (fun key hkey => hx key ?_) hx
        rw [List.mem_singleton.1 hkey]
        exact List.mem_append_right _ (List.mem_singleton_self _)
      · rw [hstored y hy]
    rw [hrest.referencers, hfirst.referencers]
    simp only [List.mem_cons, List.not_mem_nil, or_false, forall_eq, not_or, forall_eq_or_imp]
    constructor
    · rintro ⟨⟨hmem, hvalue, hx⟩, hvalues, hrest⟩
      exact ⟨hmem, ⟨hvalue, hvalues⟩, hx, fun y hy => (hkeys hx y).1 (hrest y hy)⟩
    · rintro ⟨hmem, ⟨hvalue, hvalues⟩, hx, hrest⟩
      exact ⟨⟨hmem, hvalue, hx⟩, hvalues, fun y hy => (hkeys hx y).2 (hrest y hy)⟩
  referenced edge := by
    rw [hrest.referenced, hfirst.referenced]
    simp only [List.mem_cons, List.not_mem_nil, or_false, forall_eq, not_or, forall_eq_or_imp]
    tauto
  subclasses edge := by
    rw [hrest.subclasses, hfirst.subclasses]
    simp only [List.mem_cons, List.not_mem_nil, or_false, forall_eq, not_or, forall_eq_or_imp]
    tauto
  capacity := hrest.capacity.trans hfirst.capacity

theorem foldl (h : c.Legible) (xs : List SymbolId) : Without xs c (xs.foldl Cache.without c) := by
  induction xs generalizing c with
  | nil => exact nil c
  | cons x xs ih => exact (single h x).cons (ih (h.without x))

/-- What is left depends on which classes were removed only. -/
theorem alike (hd : Without xs c d) (he : Without ys c e) (h : ∀ q, q ∈ xs ↔ q ∈ ys)
    (hfits : d.classes.memory.Fits) (hfits' : e.classes.memory.Fits) : d.Alike e where
  rows := Ordered.Map.ext_get? fun key => by simp only [hd.rows, he.rows, h]
  remote := Ordered.Map.ext_get? fun key => by simp only [hd.remote, he.remote, h]
  referencers := Ordered.Set.ext_mem fun edge => by simp only [hd.referencers, he.referencers, h]
  referenced := Ordered.Set.ext_mem fun edge => by simp only [hd.referenced, he.referenced, h]
  subclasses := Ordered.Set.ext_mem fun edge => by simp only [hd.subclasses, he.subclasses, h]
  capacity := he.capacity.trans hd.capacity.symm
  fits := hfits
  fits' := hfits'

end Without

theorem Legible.foldl_without (h : c.Legible) (xs : List SymbolId) : (xs.foldl Cache.without c).Legible := by
  induction xs generalizing c with
  | nil => exact h
  | cons x xs ih => exact ih (h.without x)

/-! ## Other classes -/

/-- The sets under the keys of another class lose the class and nothing else. -/
theorem values_referencers_without (c : Cache) (x : SymbolId) (key : DeclarationKey) (hkey : key.owner ≠ x) :
    (c.without x).referencers.values key = (c.referencers.values key).filter (· ≠ x) := by
  rw [without, values_referencers_removed, after_getClass, if_neg]
  exact fun hmem => hkey (owner_of_mem_declaredKeys hmem)

theorem usedMembers_without (c : Cache) (hy : y ≠ x) (found : Option ClassRecord) (r : SymbolId) :
    (c.without x).usedMembers y found r = if r = x then [] else c.usedMembers y found r := by
  have hvalues (key : DeclarationKey) (hkey : key.owner = y) :
      r ∈ (c.without x).referencers.values key ↔ r ∈ c.referencers.values key ∧ r ≠ x := by
    rw [values_referencers_without c x key (hkey ▸ hy), List.mem_filter, decide_eq_true_iff]
  rcases found with _ | record
  · simp [usedMembers]
  · have hfield (f : FieldRecord) := hvalues (.field y f.name) rfl
    have hmethod (m : MethodRecord) := hvalues (.method y m.name m.descriptor) rfl
    simp only [usedMembers, Option.elim_some, hfield, hmethod]
    split
    · rename_i hr
      simp [hr]
    · rename_i hr
      simp [hr]

/-- The dependencies on another class lose the one of the class. -/
theorem Legible.backDependencies_without (h : c.Legible) (hy : y ≠ x) :
    ∃ former, c.answer (backDependencies y) = .ok former ∧
      (c.without x).answer (backDependencies y) = .ok (former.filter (·.referencer ≠ x)) := by
  have hget := (h.without x).answer_getClass y
  rw [h.stored?_without, if_neg hy] at hget
  obtain ⟨former, hformer, hascending, hmem⟩ := exists_backDependencies (h.answer_getClass y)
  obtain ⟨later, hlater, hascending', hmem'⟩ := exists_backDependencies hget
  refine ⟨former, congrArg Prod.fst hformer, (congrArg Prod.fst hlater).trans (congrArg Except.ok ?_)⟩
  refine eq_of_mem_iff_dependency hascending' (hascending.filter _) fun d => ?_
  have htype : d.referencer ∈ (c.without x).referencers.values (.type y) ↔
      d.referencer ∈ c.referencers.values (.type y) ∧ d.referencer ≠ x := by
    rw [values_referencers_without c x (.type y) hy, List.mem_filter, decide_eq_true_iff]
  rw [hmem', List.mem_filter, hmem, usedMembers_without c hy, htype, decide_eq_true_iff]
  by_cases hr : d.referencer = x
  · simp [hr]
  · simp [hr]

/-- Nothing depends on the class any more. -/
theorem Legible.backDependencies_self (h : c.Legible) (x : SymbolId) :
    (c.without x).answer (backDependencies x) = .ok [] := by
  have hget := (h.without x).answer_getClass x
  rw [h.stored?_without, if_pos rfl] at hget
  obtain ⟨later, hlater, -, hmem⟩ := exists_backDependencies hget
  refine (congrArg Prod.fst hlater).trans (congrArg Except.ok (List.eq_nil_iff_forall_not_mem.2 fun d hd => ?_))
  obtain ⟨-, htype | hmembers, -⟩ := (hmem d).1 hd
  · have hnone : (c.without x).referencers.values (.type x) = [] := by
      rw [Cache.without, values_referencers_removed, if_pos]
      exact List.mem_append_right _ (List.mem_singleton_self _)
    rw [hnone] at htype
    cases htype
  · exact hmembers rfl

/-- A removal leaves the record and the marker of every other class; every set under a key of that class loses the
removed one, and so do its dependencies, the others with the same members as before. On the removed class nothing depends.
What is left after some removals is the same for every order of the classes and whether some are removed again. -/
theorem removeClass_spares_others (hc : c.Reachable)
    (hreadable : ∀ q : SymbolId, ∃ found, c.classes.readRow (StoreKey.encode q) = .ok found) :
    (∀ x, ∃ d, c.perform (removeClass x) = (.ok (), d) ∧ d.answer (backDependencies x) = .ok [] ∧
      ∀ y, y ≠ x →
        d.classes.rows.get? (StoreKey.encode y) = c.classes.rows.get? (StoreKey.encode y) ∧
        d.answer (getClass y) = c.answer (getClass y) ∧
        d.remote.rows.get? (StoreKey.encode y) = c.remote.rows.get? (StoreKey.encode y) ∧
        d.answer (isRemote y) = c.answer (isRemote y) ∧
        (∀ key, key.owner = y → d.referencers.values key = (c.referencers.values key).filter (· ≠ x)) ∧
        d.referenced.values y = (c.referenced.values y).filter (· ≠ x) ∧
        d.subclasses.values y = (c.subclasses.values y).filter (· ≠ x) ∧
        ∃ former, c.answer (backDependencies y) = .ok former ∧
          d.answer (backDependencies y) = .ok (former.filter (·.referencer ≠ x))) ∧
    ∀ xs ys : List SymbolId, (∀ q, q ∈ xs ↔ q ∈ ys) → ∃ d e, c.perform (xs.forM removeClass) = (.ok (), d) ∧
      c.perform (ys.forM removeClass) = (.ok (), e) ∧ d.Alike e := by
  have h : c.Legible := ⟨hc.coherent, hreadable⟩
  refine ⟨fun x => ⟨_, h.perform_removeClass x, h.backDependencies_self x, fun y hy => ?_⟩, fun xs ys hsame => ?_⟩
  · have hkey : StoreKey.encode y ≠ StoreKey.encode x := fun hkey => hy (StoreKey.encode_eq_iff.1 hkey)
    refine ⟨?_, ?_, ?_, ?_, fun key howner => ?_, ?_, ?_, h.backDependencies_without hy⟩
    · rw [h.rows_without, if_neg hkey]
    · rw [(h.without x).answer_getClass, h.stored?_without, if_neg hy, h.answer_getClass]
    · rw [Legible.remote_without, KeyValueStore.remove, Ordered.Map.get?_erase, if_neg hkey]
    · rw [answer, answer, perform_isRemote, perform_isRemote, Legible.remote_without,
        KeyValueStore.get_remove_of_ne hkey]
    · exact values_referencers_without c x key (howner ▸ hy)
    · rw [without, removed, values_remove_purge, if_neg hy, after_getClass]
    · rw [without, removed, values_remove_purge, if_neg hy, after_getClass]
  · have hperform (zs : List SymbolId) : c.perform (zs.forM removeClass) = (.ok (), zs.foldl without c) :=
      perform_forM_of Legible (fun c x h => h.perform_removeClass x) (fun c x h => h.without x) zs h
    exact ⟨_, _, hperform xs, hperform ys, (Without.foldl h xs).alike (.foldl h ys) hsame
      (h.foldl_without xs).classes.fits (h.foldl_without ys).classes.fits⟩

/-- A class stays when one of two classes that use its fields is removed. -/
theorem removeClass_spares_overloaded :
    ∃ c d e f : Cache, c.Reachable ∧
      (∀ q : SymbolId, ∃ found, c.classes.readRow (StoreKey.encode q) = .ok found) ∧
      c.perform (removeClass 2) = (.ok (), d) ∧ d.answer (getClass 1) = .ok (some overloaded) ∧
      d.referencers.values (.field 1 5) = [3] ∧
      c.perform ([1, 2, 1].forM removeClass) = (.ok (), e) ∧ c.perform ([2, 1].forM removeClass) = (.ok (), f) ∧
      e.Alike f := by
  let c := (Cache.fresh "cache" 8).run [.putClass 1 overloaded, .putClass 2 (ClassRecord.new 2 0),
    .addReferencer (.field 1 5) 2, .addReferencer (.field 1 5) 3]
  have hc : c.Reachable := Reachable.run (.fresh "cache" 8) _
  have hstored := ((Legible.fresh "cache" 8).put 1 overloaded (by decide)).put 2
    (ClassRecord.new 2 0) (by decide)
  have hreadable : ∀ q : SymbolId, ∃ found, c.classes.readRow (StoreKey.encode q) = .ok found := hstored.readable
  obtain ⟨hothers, horder⟩ := removeClass_spares_others hc hreadable
  obtain ⟨d, hperform, -, hspared⟩ := hothers 2
  obtain ⟨-, hget, -, -, hreferencers, -⟩ := hspared 1 (by decide)
  obtain ⟨e, f, he, hf, halike⟩ := horder [1, 2, 1] [2, 1] (by simp)
  refine ⟨c, d, e, f, hc, hreadable, hperform, hget.trans rfl, ?_, he, hf, halike⟩
  rw [hreferencers (.field 1 5) rfl]
  decide

end ClassDeps.Cache
