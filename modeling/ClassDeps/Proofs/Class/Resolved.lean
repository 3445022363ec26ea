import ClassDeps.Proofs.Class.Interned
import ClassDeps.Proofs.Symbols.Growth

/-!
# Reading records back as documents

A record and the table that it was made with give the document back in normal form, and so does every table that
this one grows to. Names that have to be there are there, and the absent number stands for an absent name.

## Main statements

* `ClassShape.record_of_le` — a record is made of the numbers in every later table
* `ClassShape.resolved_of_intern` — the texts of a record are those of the normal form of its document
* `ClassShape.normal_eq_of_intern` — documents with the same record have the same normal form
-/

namespace ClassDeps

open SymbolTable (limit)

namespace ClassShape

variable {c d : ClassDocument} {t u v w : SymbolTable} {record : ClassRecord}

theorem map_number_map_some (hsize : t.size ≤ limit) (hmem : ∀ name ∈ c.normal.names, name ∈ t.symbols) :
    (c.normal.map t.number t.optionalNumber).map t.symbol? t.symbol? = c.normal.map some id :=
  ClassShape.map_map (fun _ h => SymbolTable.symbol?_number h hsize)
    (fun _ h => SymbolTable.symbol?_optionalNumber hsize h) c.normal hmem

/-- A record is made of the numbers in every table that the one after it grows to. -/
theorem record_of_le (h : c.intern t = (.ok record, u)) (hgrow : u ≤ v) :
    (∀ name ∈ c.normal.names, name ∈ v.symbols) ∧ record = c.normal.map v.number v.optionalNumber := by
  obtain ⟨htable, hrecord⟩ := eq_map_of_intern h
  have hmem : ∀ name ∈ c.normal.names, name ∈ u.symbols := by
    intro name hname
    rw [htable]
    exact SymbolTable.mem_extend.2 (.inr hname)
  refine ⟨fun name hname => SymbolTable.mem_of_le hgrow (hmem name hname), ?_⟩
  rw [map_number_of_le hgrow hmem, hrecord]

theorem map_symbol?_of_le (h : c.intern t = (.ok record, u)) (hgrow : u ≤ v) (hsize : v.size ≤ limit) :
    record.map v.symbol? v.symbol? = c.normal.map some id := by
  obtain ⟨hmem, hrecord⟩ := record_of_le h hgrow
  rw [hrecord]
  exact map_number_map_some hsize hmem

theorem interned_of_intern {result : Except CacheError ClassRecord} (h : c.intern t = (result, u)) :
    t.Interned u := by
  have hrun := grows_intern c t
  rwa [h] at hrun

/-- The texts that the numbers of a record stand for are those of its document in normal form, in the table after
the document and in every table that interning makes of it. -/
theorem resolved_of_intern (ht : t.Built) (h : c.intern t = (.ok record, u)) (hgrow : u.Interned v) :
    record.map v.symbol? v.symbol? = c.normal.map some id :=
  have hv : v.Built := hgrow.built ((interned_of_intern h).built ht)
  map_symbol?_of_le h hgrow.le hv.size_le

theorem map_some_injective : Function.Injective fun c : ClassDocument => c.map some id := by
  have hread : ∀ c : ClassDocument, (c.map some id).map (·.getD "") id = c := by
    intro c
    have hsame : (c.map some id).map (·.getD "") id = c.map id id :=
      ClassShape.map_map (fun _ _ => rfl) (fun _ _ => rfl) c fun _ _ => trivial
    rw [hsame, c.map_id]
  exact Function.LeftInverse.injective hread

/-- Documents that have the same record, one of them interned later than the other, have the same normal form. -/
theorem normal_eq_of_intern (ht : t.Built) (hc : c.intern t = (.ok record, u)) (hgrow : u.Interned v)
    (hd : d.intern v = (.ok record, w)) : c.normal = d.normal := by
  have hlater : u.Interned w := hgrow.trans (interned_of_intern hd)
  have hw : w.Built := hlater.built ((interned_of_intern hc).built ht)
  have hfirst := map_symbol?_of_le hc hlater.le hw.size_le
  have hsecond := map_symbol?_of_le hd (SymbolTable.le_refl w) hw.size_le
  exact map_some_injective (hfirst.symm.trans hsecond)

/-- A class with a root class for its super class, an empty generic signature, and names at all depths. -/
def annotated : ClassDocument :=
  { ClassDocument.new "A" with
    super := some "java/lang/Object"
    interfaces := ["I", "I"]
    genericSignature := some ""
    visible := [⟨"N", [("value", .array [.enumerator "E" "X", .annotationUse "N" [], .float 0x7fc00001])]⟩]
    fields := [⟨"x", "I", 2, some "TX;", some (.int 3), [], [⟨"N", []⟩]⟩]
    methods := [⟨"m", "()V", 1, none, ["X"], [], [], [[⟨"N", []⟩], []], [[]], some (.type "A")⟩]
    references := [.method "A" "m" "()V", .field "B" "x", .type "A"] }

/-- The record has the names of the document after another name was interned, too, but for the super class and the
empty signature. -/
theorem resolved_annotated :
    ∃ record u number v, annotated.intern .empty = (.ok record, u) ∧ u.intern "Z" = .ok (number, v) ∧
      record.map v.symbol? v.symbol? =
        ({ annotated with super := none, genericSignature := none } : ClassDocument).map some id := by
  have hwf : annotated.WellFormed := ⟨by decide, by decide, by simp [annotated, Declaration.HasSignature, signature?]⟩
  have hroom : (SymbolTable.empty.extend annotated.normal.names).size ≤ limit := by decide
  have hroom' : ((SymbolTable.empty.extend annotated.normal.names).add "Z").size ≤ limit := by decide
  have hrun := annotated.describes_intern.run .empty hwf hroom
  have hlater := SymbolTable.intern_eq_ok hroom'
  exact ⟨_, _, _, _, hrun, hlater, resolved_of_intern .empty hrun (.intern .refl hlater)⟩

end ClassShape

end ClassDeps
