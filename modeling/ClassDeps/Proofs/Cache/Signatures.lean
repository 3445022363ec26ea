import ClassDeps.Proofs.Cache.Readability
import ClassDeps.Proofs.Class.Signatures

/-!
# Looking methods up by signature

The methods of an imported class are looked up by their signatures in the cache. What the cache answers is what the
record of the document answers, with the table that interned the document and with every later one, whatever is done
to other classes, after the references of the class were indexed or its path was changed, and after the cache was closed
and opened again.

## Main definitions

* `Operation.KeepsMethods` — the operations that keep the methods of a class
* `SameMethods` — records that such operations may leave

## Main statements

* `exists_holds_run_sameMethods` — the operations keep a record with the same methods
* `answer_read_of_holds` — a look-up in a cache is one in the stored record
* `methods_by_signature_of_import` — the signatures of an imported class, and what is looked up by them
-/

namespace ClassDeps

open Json (depthLimit)
open SymbolTable (limit)

namespace Cache

variable {c d : Cache} {q x : SymbolId} {record : ClassRecord} {document : ClassDocument} {t u v : SymbolTable}

/-! ## Operations that keep methods -/

/-- An operation writes and removes records of other classes only, or it rewrites the record with the same methods. -/
def Operation.KeepsMethods (q : SymbolId) : Operation → Prop
  | .setPath _ _ | .indexReferences _ => True
  | operation => operation.subject? ≠ some q

/-- A record has the methods of another one, and is read back if the other one is. -/
structure SameMethods (record record' : ClassRecord) : Prop where
  methods : record'.methods = record.methods
  nesting : record.nesting ≤ depthLimit → record'.nesting ≤ depthLimit

namespace SameMethods

variable {record' record'' : ClassRecord}

theorem refl (record : ClassRecord) : SameMethods record record :=
  ⟨rfl, id⟩

theorem trans (h : SameMethods record record') (h' : SameMethods record' record'') : SameMethods record record'' :=
  ⟨h'.methods.trans h.methods, fun hdepth => h'.nesting (h.nesting hdepth)⟩

theorem withoutReferences (record : ClassRecord) : SameMethods record record.withoutReferences :=
  ⟨rfl, ClassShape.nesting_withoutReferences_le⟩

theorem path (record : ClassRecord) (path : String) : SameMethods record { record with path } :=
  ⟨rfl, fun hdepth => ClassShape.nesting_path_le hdepth path⟩

theorem findMethodsBySignature_eq (h : SameMethods record record') (signature : String) (symbols : SymbolTable) :
    record'.findMethodsBySignature signature symbols = record.findMethodsBySignature signature symbols :=
  congrArg (List.filter _) h.methods

theorem findMethodBySignature?_eq (h : SameMethods record record') (signature : String) (symbols : SymbolTable) :
    record'.findMethodBySignature? signature symbols = record.findMethodBySignature? signature symbols :=
  congrArg (List.find? _) h.methods

end SameMethods

/-- A look-up finds no other record than the stored one. -/
theorem eq_of_get_of_holds (h : c.classes.Holds q (some record)) {found : ClassRecord}
    (hget : (c.classes.get q).1 = .ok (some found)) : found = record := by
  rw [h.get_fst exact_record] at hget
  split at hget
  · exact (Option.some.inj (Except.ok.inj hget)).symm
  · cases hget

/-- A record that is rewritten after it was looked up. -/
theorem exists_holds_rewritten {change : ClassRecord → ClassRecord} (hchange : ∀ r, SameMethods r (change r))
    (hfits : c.classes.memory.Fits) (h : c.classes.Holds q (some record)) (x : SymbolId) {found : ClassRecord}
    (hget : (c.classes.get x).1 = .ok (some found)) :
    ∃ record', ((c.classes.get x).2.put x (change found)).Holds q (some record') ∧ SameMethods record record' := by
  by_cases hx : q = x
  · subst hx
    obtain rfl := eq_of_get_of_holds h hget
    exact ⟨_, .put (KeyValueStore.fits_get hfits q) q _, hchange found⟩
  · have hkey : StoreKey.encode q ≠ StoreKey.encode x := fun heq => hx (LawfulStoreKey.encode_injective heq)
    exact ⟨record, (h.get exact_record x).put_of_ne hkey _, .refl record⟩

theorem exists_holds_apply_sameMethods (hfits : c.classes.memory.Fits) (h : c.classes.Holds q (some record))
    {operation : Operation} (hkeeps : operation.KeepsMethods q) :
    ∃ record', (operation.apply c).classes.Holds q (some record') ∧ SameMethods record record' := by
  have hother (hsubject : operation.subject? ≠ some q) :
      ∃ record', (operation.apply c).classes.Holds q (some record') ∧ SameMethods record record' :=
    ⟨record, (steps_apply operation c).classes.holds exact_record hsubject h, .refl record⟩
  have hlooked (x : SymbolId) : (c.after (getClass x)).classes.Holds q (some record) := by
    rw [after_getClass]
    exact h.get exact_record x
  cases operation with
  | setPath x path =>
    rw [Operation.apply, after_setPath]
    split
    · rename_i found hget
      exact exists_holds_rewritten (fun r => .path r path) hfits h x hget
    · exact ⟨record, hlooked x, .refl record⟩
  | indexReferences x =>
    rw [Operation.apply, after_indexReferences]
    split
    · rename_i found hget
      rw [((c.after (getClass x)).indexed_eq x found).1, after_getClass]
      exact exists_holds_rewritten .withoutReferences hfits h x hget
    · exact ⟨record, hlooked x, .refl record⟩
  | _ => exact hother hkeeps

/-- After operations that keep the methods of a class its record has the same methods. -/
theorem exists_holds_run_sameMethods (hfits : c.classes.memory.Fits) (h : c.classes.Holds q (some record))
    {operations : List Operation} (hkeeps : ∀ operation ∈ operations, operation.KeepsMethods q) :
    ∃ record', (c.run operations).classes.Holds q (some record') ∧ SameMethods record record' := by
  induction operations generalizing c record with
  | nil => exact ⟨record, h, .refl record⟩
  | cons operation operations ih =>
    rw [List.forall_mem_cons] at hkeeps
    obtain ⟨next, hnext, hsame⟩ := exists_holds_apply_sameMethods hfits h hkeeps.1
    obtain ⟨last, hlast, hlater⟩ := ih (fits_apply operation c hfits) hnext hkeeps.2
    exact ⟨last, hlast, hsame.trans hlater⟩

/-! ## Look-ups -/

/-- A part of a stored record that nests no deeper than readers follow. -/
theorem answer_read_of_holds {α : Type} (h : c.classes.Holds q (some record)) (hdepth : record.nesting ≤ depthLimit)
    (absent : α) (part : ClassRecord → α) : c.answer (read q absent part) = .ok (part record) := by
  have hget := answer_getClass_of_holds h
  rw [if_pos (.inl hdepth)] at hget
  rw [answer, perform_read, hget]
  rfl

/-- Whatever the files held and was done before, an import of a document stores a record whose methods are those of the
document. In the table after the import and in every later one each of them has a signature, which is its name with its
descriptor up to the first closing parenthesis. A look-up gives the methods with a signature in the order of the
document, each as often as it stands there, and the single look-up gives the first of them. So does the cache, as long
as the record is not replaced or removed, provided that it nests no deeper than readers follow. -/
theorem methods_by_signature_of_import (stored : Cache) (capacity : Nat) (former : List Operation)
    (ht : t.Built) (hdocument : document.intern t = (.ok record, u)) (hgrow : u.Interned v) :
    List.Forall₂ (fun m r => m.Reads v r ∧ ∃ signature, Signs m.name m.descriptor signature ∧
        r.signature? u = some signature ∧ r.signature? v = some signature) document.methods record.methods ∧
      (∀ signature,
        record.findMethodsBySignature signature v =
          ((document.methods.zip record.methods).filter fun pair =>
            Signs pair.1.name pair.1.descriptor signature).map Prod.snd ∧
        record.findMethodBySignature? signature v = (record.findMethodsBySignature signature v).head?) ∧
      (∀ pair ∈ document.methods.zip record.methods, ∀ other ∈ document.methods.zip record.methods,
        ∀ parameters rest rest' : String, ')' ∉ parameters.toList →
          pair.1.descriptor = parameters ++ ")" ++ rest → other.1.name = pair.1.name →
          other.1.descriptor = parameters ++ ")" ++ rest' →
          pair.2 ∈ record.findMethodsBySignature (pair.1.name ++ parameters ++ ")") v ∧
            other.2 ∈ record.findMethodsBySignature (pair.1.name ++ parameters ++ ")") v) ∧
      ∃ d, (importDocument document t).run ((stored.reopened capacity).run former) = ((.ok record.name, u), d) ∧
        (document.nesting ≤ depthLimit →
          ∀ operations, (∀ operation ∈ operations, operation.KeepsMethods record.name) → ∀ signature,
            (d.run operations).answer (findMethodsBySignature record.name signature v) =
              .ok (record.findMethodsBySignature signature v) ∧
            (d.run operations).answer (findMethodBySignature? record.name signature v) =
              .ok (record.findMethodBySignature? signature v)) := by
  have hv : v.Built := hgrow.built ((ClassShape.interned_of_intern hdocument).built ht)
  have hfits : ((stored.reopened capacity).run former).classes.memory.Fits := fits_run (Lru.fits_new capacity) former
  refine ⟨ClassShape.signed_of_intern hdocument hgrow.le hv.size_le, fun signature => ⟨?_, ?_⟩, ?_, ?_⟩
  · exact ClassShape.findMethodsBySignature_of_intern hdocument hgrow.le hv.size_le signature
  · exact record.findMethodBySignature?_eq signature v
  · intro pair hpair other hother parameters rest rest' hnone hdescriptor hname hdescriptor'
    refine ⟨ClassShape.mem_findMethodsBySignature_of_intern hdocument hgrow.le hv.size_le hpair hnone hdescriptor, ?_⟩
    rw [← hname]
    exact ClassShape.mem_findMethodsBySignature_of_intern hdocument hgrow.le hv.size_le hother hnone hdescriptor'
  · refine ⟨_, by rw [run_importDocument, hdocument], fun hdepth operations hkeeps signature => ?_⟩
    have hholds := KeyValueStore.Holds.put hfits record.name record
    have hrecord : record.nesting ≤ depthLimit := ClassShape.nesting_of_intern hdocument ▸ hdepth
    obtain ⟨last, hlast, hsame⟩ := exists_holds_run_sameMethods (c := { (stored.reopened capacity).run former with
      classes := ((stored.reopened capacity).run former).classes.put record.name record })
      (Lru.Fits.insert hfits _ _) hholds hkeeps
    rw [← hsame.findMethodsBySignature_eq, ← hsame.findMethodBySignature?_eq]
    exact ⟨answer_read_of_holds hlast (hsame.nesting hrecord) _ _,
      answer_read_of_holds hlast (hsame.nesting hrecord) _ _⟩

/-- A class whose second method is an overload of the first one, its third one a bridge, and whose last one has a
parenthesis in its name. -/
def bridged : ClassDocument :=
  let method (name descriptor : String) : Method String (Option String) :=
    ⟨name, descriptor, 1, none, [], [], [], [], [], none⟩
  { ClassDocument.new "A" with
    methods := [method "m" "(I)V", method "m" "(J)V", method "m" "(I)Ljava/lang/Object;", method "m(" "I)V)"] }

/-- Three of the methods share a signature in a table that has got a further name, after the references were indexed,
the path was changed and the cache was opened again. -/
theorem methods_by_signature_of_import_overloaded :
    ∃ record u number v d, bridged.intern .empty = (.ok record, u) ∧ u.intern "Z" = .ok (number, v) ∧
      (importDocument bridged .empty).run ((fresh "cache" 4).reopened 4) = ((.ok record.name, u), d) ∧
      (d.run [.indexReferences record.name, .setPath record.name "A.class", .reopen 2]).answer
        (findMethodsBySignature record.name "m(I)" v) = .ok (record.findMethodsBySignature "m(I)" v) ∧
      ((record.findMethodsBySignature "m(I)" v).map fun m => v.symbol? m.descriptor) =
        [some "(I)V", some "(I)Ljava/lang/Object;", some "I)V)"] := by
  have hwellFormed : bridged.WellFormed :=
    ⟨by decide, by simp [bridged, signature?], List.forall_mem_nil _⟩
  have hroom : (SymbolTable.empty.extend bridged.normal.names).size ≤ limit := by decide
  have hroom' : ((SymbolTable.empty.extend bridged.normal.names).add "Z").size ≤ limit := by decide
  have hrun := bridged.describes_intern.run .empty hwellFormed hroom
  have hlater := SymbolTable.intern_eq_ok hroom'
  obtain ⟨-, -, -, d, himport, hanswers⟩ := methods_by_signature_of_import (fresh "cache" 4) 4 []
    .empty hrun (.intern .refl hlater)
  have hnesting : bridged.nesting ≤ depthLimit := by decide +kernel
  refine ⟨_, _, _, _, d, hrun, hlater, himport, (hanswers hnesting _ ?_ "m(I)").1, by decide +kernel⟩
  simp [Operation.KeepsMethods, Operation.subject?]

end Cache

end ClassDeps
