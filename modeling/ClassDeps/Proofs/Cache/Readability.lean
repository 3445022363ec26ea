import ClassDeps.Proofs.Cache.Operations
import ClassDeps.Proofs.Class.Accepted

/-!
# Whether imported classes can be read

A class that was imported is read back as the record of its document, whatever is done to other classes in the
meantime, as long as its stored form nests no deeper than readers follow. Every document that is accepted keeps to
that limit, but its stored form may nest one level deeper. Such a record is answered from memory only: once it has
been pushed out or the cache has been opened again, it is reported as corrupted.

## Main definitions

* `Cache.Readable`, `Cache.Unreadable` — what look-up and index pass answer for a class

## Main statements

* `readable_after_import_iff` — when an imported class can be read
* `unreadable_deepClass` — an accepted document whose record is lost when the cache is opened again
-/

namespace ClassDeps

open Json (depthLimit)

namespace Cache

variable {c : Cache} {q : SymbolId} {record : ClassRecord}

/-- The index pass fails where the look-up does. -/
theorem answer_indexReferences (c : Cache) (q : SymbolId) :
    c.answer (indexReferences q) = (c.answer (getClass q)).map fun _ => () := by
  rw [answer, answer, perform_indexReferences]
  obtain ⟨error | found, d⟩ := c.perform (getClass q)
  · rfl
  · cases found <;> rfl

/-- A class is looked up as a record, and the index pass goes through. -/
def Readable (c : Cache) (q : SymbolId) (record : ClassRecord) : Prop :=
  c.answer (getClass q) = .ok (some record) ∧ c.answer (indexReferences q) = .ok ()

/-- A class cannot be looked up because its record is corrupted, nor does the index pass go through. -/
def Unreadable (c : Cache) (q : SymbolId) : Prop :=
  c.answer (getClass q) = .error (unreadableError (.value c.classes.path)) ∧
    c.answer (indexReferences q) = .error (unreadableError (.value c.classes.path))

theorem Unreadable.not_readable (h : c.Unreadable q) : ¬c.Readable q record := by
  intro hreadable
  cases hreadable.1.symm.trans h.1

theorem readable_of_holds (h : c.classes.Holds q (some record))
    (hrow : record.nesting ≤ depthLimit ∨ c.classes.memory.contains (StoreKey.encode q)) :
    c.Readable q record := by
  have hget := answer_getClass_of_holds h
  rw [if_pos hrow] at hget
  refine ⟨hget, ?_⟩
  rw [answer_indexReferences, hget]
  rfl

theorem unreadable_of_holds (h : c.classes.Holds q (some record)) (hdepth : ¬record.nesting ≤ depthLimit)
    (hmemory : c.classes.memory.contains (StoreKey.encode q) = false) : c.Unreadable q := by
  have hget := answer_getClass_of_holds h
  rw [hmemory, if_neg (by simp [hdepth])] at hget
  refine ⟨hget, ?_⟩
  rw [answer_indexReferences, hget]
  rfl

/-- A record that nests too deep is answered from memory only. -/
theorem ite_readable_of_holds (h : c.classes.Holds q (some record)) (hdepth : ¬record.nesting ≤ depthLimit) :
    if c.classes.memory.contains (StoreKey.encode q) then c.Readable q record else c.Unreadable q := by
  split
  · rename_i hmemory
    exact readable_of_holds h (.inr hmemory)
  · rename_i hmemory
    exact unreadable_of_holds h hdepth (by simpa using hmemory)

/-- After opening a cache again memory holds nothing. -/
theorem unreadable_reopened (h : c.classes.Holds q (some record)) (hdepth : ¬record.nesting ≤ depthLimit)
    (capacity : Nat) : (c.reopened capacity).Unreadable q := by
  have hopened : (c.reopened capacity).classes.Holds q (some record) := h.reopen capacity
  refine unreadable_of_holds hopened hdepth ?_
  rw [Lru.contains_eq]
  rfl

/-! ## Imports -/

/-- An import stores the record of the document, and keeps it in memory if there is room for any. -/
theorem exists_of_importDocument {document : ClassDocument} {table after : SymbolTable} {d : Cache}
    (hfits : c.classes.memory.Fits)
    (himport : (importDocument document table).run c = ((.ok q, after), d)) :
    ∃ record, document.intern table = (.ok record, after) ∧ record.name = q ∧
      d.classes.Holds q (some record) ∧
      (d.classes.memory.capacity ≠ 0 → d.classes.memory.contains (StoreKey.encode q)) := by
  rw [run_importDocument] at himport
  split at himport
  · rename_i record table hintern
    cases himport
    refine ⟨record, hintern, rfl, .put hfits record.name record, fun hcapacity => ?_⟩
    rw [KeyValueStore.put, Lru.capacity_insert] at hcapacity
    exact KeyValueStore.memory_contains_put hcapacity record.name record
  · cases himport

/-- When an imported class can be read, for every accepted document and every cache: `stored` is what the files
held when they were opened, and `former` what was done since. -/
theorem readable_after_import_iff (stored : Cache) (capacity : Nat) (former : List Operation)
    {bytes : Bytes} {document : ClassDocument} {table after : SymbolTable} {c : Cache} {q : SymbolId}
    (hread : Dialect.document.shape.ofBytes? bytes = some document)
    (himport : (importDocument document table).run ((stored.reopened capacity).run former) =
      ((.ok q, after), c)) :
    document.nesting ≤ depthLimit + 1 ∧
      ∃ record, document.intern table = (.ok record, after) ∧ record.name = q ∧
        (c.classes.memory.capacity ≠ 0 → c.Readable q record) ∧
        ((∀ operations, (∀ operation ∈ operations, operation.subject? ≠ some q) →
          (c.run operations).Readable q record) ↔ document.nesting ≤ depthLimit) ∧
        (document.nesting = depthLimit + 1 →
          ∀ operations, (∀ operation ∈ operations, operation.subject? ≠ some q) →
            (if (c.run operations).classes.memory.contains (StoreKey.encode q)
              then (c.run operations).Readable q record else (c.run operations).Unreadable q) ∧
            ∀ room, ((c.run operations).reopened room).Unreadable q) := by
  have hfits : ((stored.reopened capacity).run former).classes.memory.Fits :=
    fits_run (Lru.fits_new capacity) former
  obtain ⟨record, hintern, hname, hholds, hmemory⟩ := exists_of_importDocument hfits himport
  have hdepth : record.nesting ≤ depthLimit ↔ document.nesting ≤ depthLimit := by
    rw [ClassShape.nesting_of_intern hintern]
  -- Whatever happens to other classes, the row stays; only the copy in memory may go.
  have hlater {operations : List Operation}
      (h : ∀ operation ∈ operations, operation.subject? ≠ some q) :
      (c.run operations).classes.Holds q (some record) := holds_run h hholds
  refine ⟨Dialect.nesting_le_of_ofBytes? hread, record, hintern, hname, ?_, ⟨?_, ?_⟩, ?_⟩
  · intro hcapacity
    exact readable_of_holds hholds (.inr (hmemory hcapacity))
  · intro hall
    -- Opening the cache again is one of the operations that are allowed.
    by_contra hdeep
    have hreopened := hall [.reopen 0] (by simp [Operation.subject?])
    exact (unreadable_reopened hholds (hdepth.not.2 hdeep) 0).not_readable hreopened
  · intro hshallow operations h
    exact readable_of_holds (hlater h) (.inl (hdepth.2 hshallow))
  · intro hnesting operations h
    have hdeep : ¬record.nesting ≤ depthLimit := hdepth.not.2 (by omega)
    exact ⟨ite_readable_of_holds (hlater h) hdeep, unreadable_reopened (hlater h) hdeep⟩

/-! ## A record that nests too deep -/

/-- An annotation without elements inside of arrays. -/
def deepConstant : (levels : Nat) → Constant String
  | 0 => .annotationUse "T" []
  | levels + 1 => .array [deepConstant levels]

/-- The annotation inside of arrays in a document, which leaves out the list of its elements. -/
def deepValue : (levels : Nat) → Json
  | 0 => Dialect.alternative "annotation" (.record [("typeName", .ofText "T")])
  | levels + 1 => Dialect.alternative "array" (.array [deepValue levels])

/-- A class with the constant in its only field. -/
def deepClass (levels : Nat) : ClassDocument :=
  { ClassDocument.new "C" with fields := [⟨"f", "I", 0, none, some (deepConstant levels), [], []⟩] }

/-- The document of the class. -/
def deepDocument (levels : Nat) : Json :=
  .record
    [("name", .ofText "C"),
      ("fields", .array [.record
        [("name", .ofText "f"), ("descriptor", .ofText "I"), ("constantValue", deepValue levels)]])]

theorem ofJson?_deepDocument :
    Dialect.document.shape.ofJson? (deepDocument 61) = some (deepClass 61) := by
  decide +kernel

theorem nesting_deepClass : (deepClass 61).nesting = depthLimit + 1 := by
  decide +kernel

theorem exists_intern_deepClass :
    ∃ record after, (deepClass 61).intern .empty = (.ok record, after) ∧ record.name = 0 := by
  have hwellFormed : (deepClass 61).WellFormed := {
    names := by decide +kernel
    methods := List.forall_mem_nil _
    references := List.forall_mem_nil _ }
  have hroom : (SymbolTable.empty.extend (deepClass 61).normal.names).size ≤ SymbolTable.limit := by
    decide +kernel
  have hintern := (deepClass 61).describes_intern.run .empty hwellFormed hroom
  exact ⟨_, _, hintern, by decide +kernel⟩

/-- A document that is accepted and imported, and whose record is corrupted once the cache has been opened
again. -/
theorem unreadable_deepClass :
    ∃ document record after c,
      Dialect.document.shape.ofBytes? (deepDocument 61).toBytes = some document ∧
      (importDocument document .empty).run ((fresh "cache" 8).reopened 8) = ((.ok 0, after), c) ∧
      c.Readable 0 record ∧ (c.reopened 8).Unreadable 0 := by
  have hread : Dialect.document.shape.ofBytes? (deepDocument 61).toBytes = some (deepClass 61) :=
    (Dialect.document.shape.ofBytes?_toBytes (deepDocument 61)).trans ofJson?_deepDocument
  obtain ⟨interned, after, hintern, hname⟩ := exists_intern_deepClass
  let opened := (fresh "cache" 8).reopened 8
  have himport : (importDocument (deepClass 61) .empty).run (opened.run []) =
      ((.ok 0, after), { opened with classes := opened.classes.put 0 interned }) := by
    rw [run_importDocument, hintern, ← hname]
    rfl
  obtain ⟨-, record, -, -, hfirst, -, hdeep⟩ :=
    readable_after_import_iff (fresh "cache" 8) 8 [] hread himport
  have hcapacity : (opened.classes.put 0 interned).memory.capacity ≠ 0 := by
    rw [KeyValueStore.put, Lru.capacity_insert]
    decide
  have hreopened := (hdeep nesting_deepClass [] (List.forall_mem_nil _)).2 8
  exact ⟨deepClass 61, record, after, _, hread, himport, hfirst hcapacity, hreopened⟩

end Cache

end ClassDeps
