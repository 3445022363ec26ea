import ClassDeps.Proofs.Cache.Aggregation
import ClassDeps.Proofs.Cache.Imports
import ClassDeps.Proofs.Class.Named

/-!
# Imports in any order

The dependencies on a class, with their numbers read as names, are a function of the documents that were imported.
The order of the imports decides about the numbers of names, and through them about the order of the answer, but
about nothing else.

## Main statements

* `Indexed.answer_backDependencies` — the dependencies that a cache with some documents answers
* `importAll_perm` — documents can be imported in any order, with the same dependencies
-/

namespace ClassDeps.Cache

open Json (depthLimit)
open SymbolTable (limit)

variable {table : SymbolTable} {documents order : List ClassDocument} {c : Cache} {name : String}

namespace Indexed

variable (h : Indexed table documents c) (hsize : table.size ≤ limit)
  (hmem : ∀ d ∈ documents, ∀ name ∈ d.normal.names, name ∈ table.symbols)
  (hnames : (documents.map (·.name)).Nodup)

/-! ## Records and edges by names -/

section Edges

include h hsize hmem hnames

/-- A document is a referencer of a declaration if it refers to it. -/
theorem number_mem_values {r : ClassDocument} (hr : r ∈ documents) {x : Declaration String}
    (hx : ∀ name ∈ x.names, name ∈ table.symbols) :
    table.number r.name ∈ c.referencers.values (x.map table.number) ↔ x ∈ r.references := by
  rw [h.mem_referencers]
  constructor
  · rintro ⟨d, hd, hkey, hnumber⟩
    -- Equal numbers are equal names, and each name is that of one document only.
    have hname := SymbolTable.number_inj hsize (hmem r hr _ List.mem_cons_self)
      (hmem d hd _ List.mem_cons_self) hnumber
    have hsame : d = r := List.inj_on_of_nodup_map hnames hd hr hname.symm
    obtain ⟨y, hy, heq⟩ := List.mem_map.1 hkey
    have hy' : y ∈ r.references := hsame ▸ hy
    have hynames := mem_names_of_reference (d := r.normal) hy'
    exact Declaration.map_number_inj hsize (fun n hn => hmem r hr n (hynames n hn)) hx heq ▸ hy'
  · intro hreference
    exact ⟨r, hr, List.mem_map_of_mem hreference, rfl⟩

end Edges

/-! ## The dependencies -/

include h hsize hmem in
/-- The record of a class is that of the document with its name, if there is one. -/
theorem answer_getClass (hnesting : ∀ d ∈ documents, d.nesting ≤ depthLimit)
    (hname : name ∈ table.symbols) :
    c.answer (getClass (table.number name)) = .ok ((documents.find? (·.name = name)).map fun d =>
      (d.numbered table).withoutReferences) := by
  cases hfound : documents.find? (·.name = name) with
  | none =>
    have hvacant : c.classes.Holds (table.number name) none := by
      refine h.vacant _ fun d hd heq => ?_
      have hsame := SymbolTable.number_inj hsize (hmem d hd _ List.mem_cons_self) hname heq
      exact List.find?_eq_none.1 hfound d hd (decide_eq_true hsame)
    exact answer_getClass_eq_ok.2 hvacant.get_fst_none
  | some d =>
    have hd := List.mem_of_find?_eq_some hfound
    have hdname : d.name = name := by simpa using List.find?_some hfound
    have hdepth : (d.numbered table).nesting ≤ depthLimit := by
      rw [ClassShape.numbered, ClassShape.nesting_map, ClassShape.nesting_normal]
      exact hnesting d hd
    have hanswer := answer_getClass_of_holds (h.stored d hd)
    rw [if_pos (.inl (ClassShape.nesting_withoutReferences_le hdepth)), hdname] at hanswer
    exact hanswer

include h hsize hmem hnames in
/-- What a document uses of a class by the index is what it refers to. -/
theorem usedMembers_eq {r : ClassDocument} (hr : r ∈ documents) (hname : name ∈ table.symbols) :
    c.usedMembers (table.number name)
        ((documents.find? (·.name = name)).map fun d => (d.numbered table).withoutReferences)
        (table.number r.name) =
      (referencedMembers documents name r).map (Member.map table.number table.optionalNumber) := by
  cases hfound : documents.find? (·.name = name) with
  | none => simp only [usedMembers, referencedMembers, hfound]; rfl
  | some d =>
    have hd := List.mem_of_find?_eq_some hfound
    have hrecord : (d.numbered table).withoutReferences.fields =
          d.normal.fields.map (Field.map table.number table.optionalNumber) ∧
        (d.numbered table).withoutReferences.methods =
          d.normal.methods.map (Method.map table.number table.optionalNumber) := ⟨rfl, rfl⟩
    have hfields : ((d.normal.fields.map (Field.map table.number table.optionalNumber)).filter fun f =>
        table.number r.name ∈ c.referencers.values (.field (table.number name) f.name)) =
        (d.normal.fields.filter fun f => .field name f.name ∈ r.references).map
          (Field.map table.number table.optionalNumber) := by
      rw [List.filter_map]
      refine congrArg _ (List.filter_congr fun f hf => decide_eq_decide.2 ?_)
      refine h.number_mem_values hsize hmem hnames hr (x := .field name f.name) ?_
      have hfname := hmem d hd _ (mem_names_of_field hf f.name List.mem_cons_self)
      simp [Declaration.names, hname, hfname]
    have hmethods : ((d.normal.methods.map (Method.map table.number table.optionalNumber)).filter fun m =>
        table.number r.name ∈ c.referencers.values (.method (table.number name) m.name m.descriptor)) =
        (d.normal.methods.filter fun m => .method name m.name m.descriptor ∈ r.references).map
          (Method.map table.number table.optionalNumber) := by
      rw [List.filter_map]
      refine congrArg _ (List.filter_congr fun m hm => decide_eq_decide.2 ?_)
      refine h.number_mem_values hsize hmem hnames hr (x := .method name m.name m.descriptor) ?_
      have hmnames := mem_names_of_method hm
      have hmname := hmem d hd _ (hmnames m.name List.mem_cons_self)
      have hmdescriptor := hmem d hd _ (hmnames m.descriptor (List.mem_cons_of_mem _ List.mem_cons_self))
      simp [Declaration.names, hname, hmname, hmdescriptor]
    simp only [usedMembers, referencedMembers, hfound, Option.map_some, Option.elim_some,
      List.map_append, List.map_map, hrecord, hfields, hmethods]
    rfl

/-- Whoever is a referencer is the class of a document. -/
theorem exists_of_used (h : Indexed table documents c) {q r : SymbolId} {found : Option ClassRecord}
    (hused : r ∈ c.referencers.values (.type q) ∨ c.usedMembers q found r ≠ []) :
    ∃ d ∈ documents, r = table.number d.name := by
  obtain ⟨key, hkey⟩ := exists_key_of_used hused
  obtain ⟨d, hd, -, hr⟩ := h.mem_referencers.1 hkey
  exact ⟨d, hd, hr⟩

include hsize hmem in
/-- The numbers of the members that a document refers to are read back as their names, and leaving out
repetitions does not depend on the numbers. -/
theorem map_eraseDups_referencedMembers (name : String) (r : ClassDocument) :
    (((referencedMembers documents name r).map
        (Member.map table.number table.optionalNumber)).eraseDups).map
          (Member.map table.resolve table.symbol?) =
      (referencedMembers documents name r).eraseDups := by
  have hread : ∀ x ∈ referencedMembers documents name r,
      (x.map table.number table.optionalNumber).map table.resolve table.symbol? = x := by
    intro x hx
    obtain ⟨d, hd, -, hnames⟩ := exists_of_mem_referencedMembers hx
    exact Member.map_number_map_symbol? hsize fun n hn => hmem d hd n (hnames n hn)
  rw [eraseDups_map, List.map_map]
  · refine (List.map_congr_left fun x hx => ?_).trans (List.map_id _)
    exact hread x (List.mem_eraseDups.1 hx)
  · intro x hx y hy heq
    rw [← hread x hx, heq, hread y hy]

include h hsize hmem hnames in
/-- A class is a referencer of another one by the index if its document says so. -/
theorem used_iff {r : ClassDocument} (hr : r ∈ documents) (hname : name ∈ table.symbols) :
    (table.number r.name ∈ c.referencers.values (.type (table.number name)) ∨
        c.usedMembers (table.number name)
          ((documents.find? (·.name = name)).map fun d => (d.numbered table).withoutReferences)
          (table.number r.name) ≠ []) ↔
      (.type name ∈ r.references ∨ referencedMembers documents name r ≠ []) := by
  have htype : table.number r.name ∈ c.referencers.values (.type (table.number name)) ↔
      .type name ∈ r.references :=
    h.number_mem_values hsize hmem hnames hr (x := .type name) (by simpa [Declaration.names] using hname)
  rw [htype, h.usedMembers_eq hsize hmem hnames hr hname, ne_eq, List.map_eq_nil_iff]

include hsize hmem in
theorem resolve_number_name {r : ClassDocument} (hr : r ∈ documents) :
    table.resolve (table.number r.name) = r.name :=
  SymbolTable.resolve_number (hmem r hr _ List.mem_cons_self) hsize

include hsize hmem in
/-- Dependencies with different referencers have different ones by name. -/
theorem nodup_map_named {dependencies : List Dependency}
    (hascending : dependencies.Pairwise fun a b => a.referencer < b.referencer)
    (hreferencer : ∀ d ∈ dependencies, ∃ r ∈ documents, d.referencer = table.number r.name) :
    (dependencies.map (Dependency.named table)).Nodup := by
  refine List.Nodup.of_map Prod.fst ?_
  rw [List.map_map, List.Nodup, List.pairwise_map]
  refine hascending.imp_of_mem fun {d e} hd he hlt heq => ?_
  obtain ⟨r, hr, hdr⟩ := hreferencer d hd
  obtain ⟨s, hs, hes⟩ := hreferencer e he
  have hsame : table.resolve (table.number r.name) = table.resolve (table.number s.name) := by
    rw [← hdr, ← hes]
    exact heq
  rw [resolve_number_name hsize hmem hr, resolve_number_name hsize hmem hs] at hsame
  rw [hdr, hes, hsame] at hlt
  exact Int32.lt_irrefl hlt

include h hsize hmem hnames in
/-- The dependencies on a class, with their numbers read as names, are those that the documents say. -/
theorem answer_backDependencies (hnesting : ∀ d ∈ documents, d.nesting ≤ depthLimit)
    (hname : name ∈ table.symbols) :
    ∃ dependencies, c.answer (backDependencies (table.number name)) = .ok dependencies ∧
      (dependencies.map (Dependency.named table)).Perm (dependenciesOn documents name) := by
  obtain ⟨dependencies, hperform, hascending, hfinish⟩ :=
    exists_backDependencies (h.answer_getClass hsize hmem hnesting hname)
  have hreferencer : ∀ d ∈ dependencies, ∃ r ∈ documents, d.referencer = table.number r.name :=
    fun d hd => h.exists_of_used ((hfinish d).1 hd).2.1
  refine ⟨dependencies, congrArg Prod.fst hperform, ?_⟩
  -- Neither list has repetitions, so that it is enough that they contain the same.
  refine (List.perm_ext_iff_of_nodup (nodup_map_named hsize hmem hascending hreferencer)
    (nodup_dependenciesOn hnames name)).2 fun y => ?_
  simp only [dependenciesOn, List.mem_map, List.mem_filter, decide_eq_true_eq]
  constructor
  · rintro ⟨d, hd, rfl⟩
    obtain ⟨r, hr, hdr⟩ := hreferencer d hd
    obtain ⟨hne, hused, hmembers⟩ := (hfinish d).1 hd
    rw [hdr] at hne hused hmembers
    refine ⟨r, ⟨hr, fun heq => hne (congrArg table.number heq), ?_⟩, ?_⟩
    · exact (h.used_iff hsize hmem hnames hr hname).1 hused
    · rw [Dependency.named, hdr, resolve_number_name hsize hmem hr, hmembers,
        h.usedMembers_eq hsize hmem hnames hr hname, map_eraseDups_referencedMembers hsize hmem]
  · rintro ⟨r, ⟨hr, hne, hused⟩, rfl⟩
    refine ⟨⟨table.number r.name, (c.usedMembers _ _ (table.number r.name)).eraseDups⟩,
      (hfinish _).2 ⟨fun heq => ?_, ?_, rfl⟩, ?_⟩
    · exact hne (SymbolTable.number_inj hsize (hmem r hr _ List.mem_cons_self) hname heq)
    · exact (h.used_iff hsize hmem hnames hr hname).2 hused
    · rw [Dependency.named, resolve_number_name hsize hmem hr,
        h.usedMembers_eq hsize hmem hnames hr hname, map_eraseDups_referencedMembers hsize hmem]

end Indexed

/-! ## Orders -/

/-- Documents that can be imported in one order can be imported in every order, into any new cache. Then the
dependencies on a class, with their numbers read as names, are a function of the documents. -/
theorem importAll_perm (hnames : (documents.map (·.name)).Nodup)
    (hnesting : ∀ d ∈ documents, d.nesting ≤ depthLimit) {root : String} {capacity : Nat}
    (hrun : importAll documents .empty (fresh root capacity) = .ok (table, c))
    (horder : documents.Perm order) (otherRoot : String) (otherCapacity : Nat) :
    ∃ other d, importAll order .empty (fresh otherRoot otherCapacity) = .ok (other, d) ∧
      ∀ name, match other.id? name with
        | none => dependenciesOn documents name = []
        | some q => ∃ dependencies, d.answer (backDependencies q) = .ok dependencies ∧
          (dependencies.map (Dependency.named other)).Perm (dependenciesOn documents name) := by
  obtain ⟨hwf, htable, hroom⟩ := of_importAll_eq_ok hrun
  obtain ⟨other, hother⟩ : ∃ other, other = SymbolTable.empty.extend (order.flatMap (·.normal.names)) :=
    ⟨_, rfl⟩
  -- The table has the same names in another order, and so the same size: there is room for them again.
  have hsize : other.size ≤ limit := by
    have hsame : other.size = table.size := by
      rw [hother, htable]
      exact SymbolTable.size_extend_eq List.nodup_nil fun x => (horder.flatMap_right _).symm.mem_iff
    rw [hsame]
    exact hroom (Nat.zero_le limit)
  have hmem : ∀ d ∈ order, ∀ name ∈ d.normal.names, name ∈ other.symbols := by
    intro d hd name hname
    rw [hother]
    exact SymbolTable.mem_extend.2 (.inr (List.mem_flatMap.2 ⟨d, hd, hname⟩))
  have hnames' : (order.map (·.name)).Nodup := (horder.map _).nodup_iff.1 hnames
  have hnesting' : ∀ d ∈ order, d.nesting ≤ depthLimit := fun d hd => hnesting d (horder.mem_iff.2 hd)
  have hwf' : ∀ d ∈ order, d.WellFormed := fun d hd => hwf d (horder.mem_iff.2 hd)
  obtain ⟨d, hrun', hindexed⟩ := importAll_fresh_eq_ok hsize hnesting' hwf' hother hnames'
    otherRoot otherCapacity
  refine ⟨other, d, hrun', fun name => ?_⟩
  split
  -- A name without a number occurs in no document.
  · rename_i hnone
    refine dependenciesOn_eq_nil fun r hr hname => ?_
    exact SymbolTable.id?_eq_none_iff.1 hnone (hmem r (horder.mem_iff.1 hr) name hname)
  · rename_i q hsome
    obtain ⟨hname, rfl⟩ := SymbolTable.id?_eq_number hsome
    obtain ⟨dependencies, hanswer, hperm⟩ :=
      hindexed.answer_backDependencies hsize hmem hnames' hnesting' hname
    exact ⟨dependencies, hanswer, hperm.trans (dependenciesOn_perm hnames horder name).symm⟩

/-- A class with two fields of one name. -/
def declaring : ClassDocument :=
  { ClassDocument.new "A" with
    fields := [⟨"x", "I", 0, none, none, [], []⟩, ⟨"x", "J", 0, none, none, [], []⟩] }

/-- A class that refers to the fields, to a field that is not declared, and to itself. -/
def referring : ClassDocument :=
  { ClassDocument.new "B" with references := [.field "A" "y", .field "A" "x", .type "B"] }

/-- A referencer may be imported before the class that it refers to. -/
theorem importAll_referring_first :
    ∃ table d q dependencies,
      importAll [referring, declaring] .empty (fresh "cache" 8) = .ok (table, d) ∧
      table.id? "A" = some q ∧ d.answer (backDependencies q) = .ok dependencies ∧
      dependencies.map (Dependency.named table) = [("B", declaring.fields.map .field)] := by
  have hnames : ([declaring, referring].map (·.name)).Nodup := by decide
  have hnesting : ∀ d ∈ [declaring, referring], d.nesting ≤ depthLimit := by decide +kernel
  have hwf : ∀ d ∈ [declaring, referring], d.WellFormed := by
    intro d hd
    simp only [List.mem_cons, List.not_mem_nil, or_false] at hd
    obtain rfl | rfl := hd
    · exact ⟨by decide, List.forall_mem_nil _, List.forall_mem_nil _⟩
    · exact ⟨by decide, List.forall_mem_nil _, by simp [referring, Declaration.HasSignature]⟩
  obtain ⟨c, hrun, -⟩ := importAll_fresh_eq_ok (by decide) hnesting hwf rfl hnames "cache" 8
  obtain ⟨table, d, hrun', hall⟩ :=
    importAll_perm hnames hnesting hrun (.swap referring declaring []) "cache" 8
  obtain ⟨-, htable, -⟩ := of_importAll_eq_ok hrun'
  have hid : table.id? "A" = some 1 := by
    rw [htable]
    decide
  have hname := hall "A"
  rw [hid] at hname
  obtain ⟨dependencies, hanswer, hperm⟩ := hname
  have hexpected : dependenciesOn [declaring, referring] "A" = [("B", declaring.fields.map .field)] := by
    decide
  rw [hexpected] at hperm
  exact ⟨table, d, 1, dependencies, hrun', hid, hanswer, List.perm_singleton.1 hperm⟩

end ClassDeps.Cache
