import ClassDeps.Proofs.Cache.Imports
import ClassDeps.Proofs.Cache.Readability
import ClassDeps.Proofs.Cache.Removal

/-!
# Importing a class anew

The index pass only adds edges. If a class is removed before it is imported again and indexed, its edges are those
of the new document all the same, whatever edges it had before: the removal takes it out of every set, also out of
those under the members of other classes, and the index pass adds what the new record says.

## Main statements

* `answer_getClass_indexed` — a record that was indexed can be read
* `of_indexReferences` — what the index pass leaves of a record that was just stored
* `recompiled` — the edges and the record of a class that was removed, imported and indexed
-/

namespace ClassDeps.Cache

open Json (depthLimit)

variable {c d e f : Cache} {q : SymbolId} {record : ClassRecord}

/-- A record that could be looked up can be so after it has been indexed. With a capacity of zero it was read from its
row, and without references it nests no deeper. -/
theorem answer_getClass_indexed (hfits : c.classes.memory.Fits) (hholds : c.classes.Holds q (some record))
    (h : c.answer (getClass q) = .ok (some record)) :
    ((c.after (getClass q)).indexed q record).answer (getClass q) = .ok (some record.withoutReferences) := by
  have hclasses : ((c.after (getClass q)).indexed q record).classes =
      (c.classes.get q).2.put q record.withoutReferences := by
    rw [(indexed_eq _ _ _).1, after_getClass]
  have hstored : ((c.after (getClass q)).indexed q record).classes.Holds q (some record.withoutReferences) := by
    rw [hclasses]
    exact .put (KeyValueStore.fits_get hfits q) q record.withoutReferences
  rw [answer_getClass_of_holds hstored, if_pos]
  by_cases hcapacity : c.classes.memory.capacity = 0
  · rw [answer_getClass_of_holds hholds, Lru.contains_eq, hfits hcapacity] at h
    split at h
    · rename_i hreadable
      exact .inl (ClassShape.nesting_withoutReferences_le (hreadable.resolve_right Bool.false_ne_true))
    · cases h
  · rw [hclasses]
    exact .inr (KeyValueStore.memory_contains_put (by rwa [KeyValueStore.capacity_get]) q record.withoutReferences)

/-- If the record of a class that was just stored is indexed, it can be read afterwards. -/
theorem of_indexReferences (hfits : c.classes.memory.Fits)
    (h : ({ c with classes := c.classes.put record.name record } : Cache).perform
      (indexReferences record.name) = (.ok (), d)) :
    d = c.imported record ∧ d.answer (getClass record.name) = .ok (some record.withoutReferences) := by
  let stored : Cache := { c with classes := c.classes.put record.name record }
  have hput : stored.classes.Holds record.name (some record) := .put hfits record.name record
  have hanswer : stored.answer (getClass record.name) = .ok (some record) := by
    have hindexed : stored.answer (indexReferences record.name) = .ok () := congrArg Prod.fst h
    rw [answer_indexReferences, answer_getClass_of_holds hput] at hindexed
    rw [answer_getClass_of_holds hput]
    split at hindexed
    · rename_i hreadable
      exact if_pos hreadable
    · cases hindexed
  have hd : d = c.imported record := by
    rw [perform_indexReferences, perform_of_answer hanswer] at h
    exact (congrArg Prod.snd h).symm
  rw [hd]
  exact ⟨rfl, answer_getClass_indexed (hfits.insert _ record) hput hanswer⟩

/-- A removed class is left in no set of any index. -/
theorem not_mem_of_removeClass (h : c.perform (removeClass q) = (.ok (), d)) :
    (∀ key, q ∉ d.referencers.values key) ∧ (∀ t, t ∉ d.referenced.values q) ∧
      ∀ s, q ∉ d.subclasses.values s := by
  obtain ⟨found, -, rfl⟩ := exists_of_removeClass h
  refine ⟨fun key hkey => ?_, fun t ht => ?_, fun s hs => ?_⟩
  · exact (mem_referencers_removed.1 hkey).2.2 rfl
  · exact (mem_referenced_removed.1 ht).1 rfl
  · exact (mem_subclasses_removed.1 hs).2.2 rfl

/-- The edges and the record of a class that was removed, imported and indexed are those of the new document. -/
theorem recompiled {document : ClassDocument} {table after : SymbolTable} (hc : c.Reachable)
    (hremove : c.perform (removeClass q) = (.ok (), d))
    (himport : (importDocument document table).run d = ((.ok q, after), e))
    (hindex : e.perform (indexReferences q) = (.ok (), f)) :
    ∃ info, document.intern table = (.ok info, after) ∧ info.name = q ∧
      (∀ key, ∃ referencers, f.answer (referencersOf key) = .ok referencers ∧
        (q ∈ referencers ↔ key ∈ info.references)) ∧
      (∃ referenced, f.answer (referencedClasses q) = .ok referenced ∧ referenced.Pairwise (· < ·) ∧
        ∀ t, t ∈ referenced ↔ t ≠ q ∧ ∃ key ∈ info.references, key.owner = t) ∧
      (∀ s, ∃ subclasses, f.answer (subclassesOf s) = .ok subclasses ∧
        (q ∈ subclasses ↔ s ∈ info.supertypes)) ∧
      f.classes.rows.get? (StoreKey.encode q) = some (Storable.form.toBytes info.withoutReferences) ∧
      f.answer (getClass q) = .ok (some info.withoutReferences) := by
  obtain ⟨hreferencers, hreferenced, hsubclasses⟩ := not_mem_of_removeClass hremove
  have hfits : d.classes.memory.Fits := by
    have hd : d = c.after (removeClass q) := (congrArg Prod.snd hremove).symm
    rw [hd]
    exact (hc.coherent.apply (.removeClass q)).classes.fits
  rw [run_importDocument] at himport
  split at himport
  · rename_i info table hintern
    cases himport
    obtain ⟨rfl, hanswer⟩ := of_indexReferences hfits hindex
    refine ⟨info, hintern, rfl, fun key => ⟨_, rfl, ?_⟩, ⟨_, rfl, ?_, fun t => ?_⟩, fun s => ⟨_, rfl, ?_⟩,
      (holds_imported hfits info).row, hanswer⟩
    · rw [mem_referencers_imported]
      simp [hreferencers]
    · exact MultiValueStore.pairwise_values _ _
    · rw [mem_referenced_imported]
      simp [hreferenced]
    · rw [mem_subclasses_imported]
      simp [hsubclasses]
  · cases himport

/-- A class that refers to itself and names its super type twice. -/
def selfReferring : ClassDocument :=
  { ClassDocument.new "A" with
    super := some "B", interfaces := ["B"], references := [.type "C", .field "C" "x", .type "A"] }

/-- Edges of a former version under members of another class are gone, the new ones are there. -/
theorem recompiled_selfReferring :
    ∃ (c d e f : Cache) (after : SymbolTable), c.Reachable ∧ 0 ∈ c.referencers.values (.field 7 8) ∧
      c.perform (removeClass 0) = (.ok (), d) ∧
      (importDocument selfReferring .empty).run d = ((.ok 0, after), e) ∧
      e.perform (indexReferences 0) = (.ok (), f) ∧
      (∃ referencers, f.answer (referencersOf (.field 7 8)) = .ok referencers ∧ 0 ∉ referencers) ∧
      (∃ referencers, f.answer (referencersOf (.type 0)) = .ok referencers ∧ 0 ∈ referencers) ∧
      ∃ subclasses, f.answer (subclassesOf 1) = .ok subclasses ∧ 0 ∈ subclasses := by
  let c := (fresh "cache" 8).run [.putClass 0 (ClassRecord.new 0 0), .addReferencer (.field 7 8) 0]
  have hc : c.Reachable := Reachable.run (.fresh "cache" 8) _
  have hremove := perform_of_answer (show c.answer (removeClass 0) = .ok () by decide)
  let d := c.after (removeClass 0)
  have hwf : selfReferring.WellFormed := {
    names := by decide
    methods := List.forall_mem_nil _
    references := by simp [selfReferring, Declaration.HasSignature] }
  have hintern := selfReferring.describes_intern.run .empty hwf (by decide)
  let after := SymbolTable.empty.extend selfReferring.normal.names
  let info := selfReferring.numbered after
  have hname : info.name = 0 := by decide
  let e : Cache := { d with classes := d.classes.put 0 info }
  have himport : (importDocument selfReferring .empty).run d = ((.ok 0, after), e) := by
    rw [run_importDocument, hintern, ← hname]
    rfl
  have hmemory : e.classes.memory.contains (StoreKey.encode (0 : SymbolId)) :=
    KeyValueStore.memory_contains_put (by decide) 0 info
  have hholds : e.classes.Holds 0 (some info) :=
    .put (hc.coherent.apply (.removeClass 0)).classes.fits 0 info
  have hindex := perform_of_answer (readable_of_holds hholds (.inr hmemory)).2
  obtain ⟨found, hfound, -, hreferencers, -, hsubclasses, -⟩ := recompiled hc hremove himport hindex
  cases hintern.symm.trans hfound
  obtain ⟨former, hformer, hstale⟩ := hreferencers (.field 7 8)
  obtain ⟨own, hown, hself⟩ := hreferencers (.type 0)
  obtain ⟨subclasses, hanswer, hsubclass⟩ := hsubclasses 1
  exact ⟨c, d, e, _, after, hc, by decide, hremove, himport, hindex,
    ⟨former, hformer, hstale.not.2 (by decide)⟩, ⟨own, hown, hself.2 (by decide)⟩,
    subclasses, hanswer, hsubclass.2 (by decide)⟩

end ClassDeps.Cache
