import ClassDeps.Proofs.Cache.Operations
import ClassDeps.Proofs.Class.Collector

/-!
# Who depends on a class

The dependencies on a class are read off its record and the index of referencers: one for each referencer of the
class or of one of its members, in ascending order, with the members that it uses. Asking changes nothing that is
stored.

## Main definitions

* `Cache.usedMembers` — the members of a record that a class uses

## Main statements

* `perform_backDependencies` — the dependencies as what a collector finds
* `backDependencies_eq_usedMembers` — who is listed, in which order, and with which members
-/

namespace ClassDeps.Cache

variable {c : Cache} {q : SymbolId} {found : Option ClassRecord}

/-- The members of the record of `q` that the class `r` uses: fields first, in the order of their declaration. -/
def usedMembers (c : Cache) (q : SymbolId) (found : Option ClassRecord) (r : SymbolId) :
    List MemberRecord :=
  found.elim [] fun record =>
    (record.fields.filter fun f => r ∈ c.referencers.values (.field q f.name)).map .field ++
      (record.methods.filter fun m => r ∈ c.referencers.values (.method q m.name m.descriptor)).map
        .method

/-- The members of the record of `q` with their referencers. -/
def uses (c : Cache) (q : SymbolId) (found : Option ClassRecord) : List (List SymbolId × MemberRecord) :=
  (found.elim [] (memberKeys q)).map fun member => (c.referencers.values member.1, member.2)

theorem usedBy_uses (c : Cache) (q : SymbolId) (found : Option ClassRecord) (r : SymbolId) :
    Collector.usedBy r (c.uses q found) = c.usedMembers q found r := by
  cases found with
  | none => rfl
  | some record =>
    simp only [Collector.usedBy, uses, usedMembers, memberKeys, Option.elim_some, List.map_append,
      List.map_map, List.filter_append, List.filter_map]
    rfl

/-- A class uses members of a record if it is a referencer of one of them. -/
theorem usedMembers_ne_nil_iff {r : SymbolId} :
    c.usedMembers q found r ≠ [] ↔ ∃ record ∈ found,
      (∃ f ∈ record.fields, r ∈ c.referencers.values (.field q f.name)) ∨
        ∃ m ∈ record.methods, r ∈ c.referencers.values (.method q m.name m.descriptor) := by
  cases found with
  | none => simp [usedMembers]
  | some record =>
    simp only [usedMembers, Option.elim_some, ne_eq, List.append_eq_nil_iff, List.map_eq_nil_iff,
      List.filter_eq_nil_iff, Option.mem_some_iff, exists_eq_left']
    simp only [decide_eq_true_eq, not_and_or, not_forall, not_not, exists_prop]

/-- Whoever uses a class or members of its record is a referencer of some declaration. -/
theorem exists_key_of_used {r : SymbolId}
    (h : r ∈ c.referencers.values (.type q) ∨ c.usedMembers q found r ≠ []) :
    ∃ key, r ∈ c.referencers.values key := by
  rw [usedMembers_ne_nil_iff] at h
  obtain htype | ⟨record, -, ⟨f, -, hf⟩ | ⟨m, -, hm⟩⟩ := h
  · exact ⟨_, htype⟩
  · exact ⟨_, hf⟩
  · exact ⟨_, hm⟩

/-! ## The two loops -/

theorem perform_referencersOf (c : Cache) (key : DeclarationKey) :
    c.perform (referencersOf key) = (.ok (c.referencers.values key), c) := rfl

theorem perform_collectMembers (c : Cache) (members : List (DeclarationKey × MemberRecord))
    (collector : Collector) :
    c.perform (collectMembers collector members) =
      (.ok (collector.addUses (members.map fun member => (c.referencers.values member.1, member.2))),
        c) := by
  induction members generalizing collector with
  | nil => rfl
  | cons member members ih =>
    rw [collectMembers, perform_bind_of_ok (c.perform_referencersOf member.1), ih]
    rfl

theorem perform_backDependencies (c : Cache) (q : SymbolId) :
    c.perform (backDependencies q) = match c.perform (getClass q) with
      | (.ok found, d) =>
        (.ok (Collector.collect q (c.referencers.values (.type q)) (c.uses q found)).finish, d)
      | (.error error, d) => (.error error, d) := by
  rw [backDependencies, perform_bind_of_ok (c.perform_referencersOf (.type q))]
  match h : c.perform (getClass q) with
  | (.error error, d) => exact perform_bind_of_error h _
  | (.ok none, d) => exact perform_bind_of_ok h _
  | (.ok (some record), d) =>
    -- The look-up stands between the two reads of the index, and does not touch it.
    have hindex : d.referencers = c.referencers := by
      have hafter : c.after (getClass q) = d := congrArg Prod.snd h
      rw [← hafter, after_getClass]
    rw [perform_bind_of_ok h]
    simp only
    rw [perform_bind_of_ok (d.perform_collectMembers _ _), perform_pure, hindex]
    rfl

theorem after_backDependencies (c : Cache) (q : SymbolId) :
    c.after (backDependencies q) = c.after (getClass q) := by
  rw [after, after, perform_backDependencies]
  rcases c.perform (getClass q) with ⟨error | found, d⟩ <;> rfl

/-! ## Dependencies -/

/-- Lists of dependencies in ascending order are equal if they have the same members. -/
theorem eq_of_mem_iff_dependency {dependencies others : List Dependency}
    (h : dependencies.Pairwise fun a b => a.referencer < b.referencer)
    (h' : others.Pairwise fun a b => a.referencer < b.referencer) (hmem : ∀ d, d ∈ dependencies ↔ d ∈ others) :
    dependencies = others := by
  have hnodup {list : List Dependency} (h : list.Pairwise fun a b => a.referencer < b.referencer) : list.Nodup := by
    refine h.imp fun {a b} hlt heq => ?_
    rw [heq] at hlt
    exact Int32.lt_irrefl hlt
  refine ((List.perm_ext_iff_of_nodup (hnodup h) (hnodup h')).2 hmem).eq_of_pairwise ?_ h h'
  intro a b _ _ hab hba
  exact absurd hba (Int32.lt_asymm hab)

/-- The dependencies on a class whose record can be looked up are determined by what they contain. -/
theorem exists_backDependencies (hfound : c.answer (getClass q) = .ok found) :
    ∃ dependencies, c.perform (backDependencies q) = (.ok dependencies, c.after (getClass q)) ∧
      dependencies.Pairwise (fun a b => a.referencer < b.referencer) ∧
      ∀ d, d ∈ dependencies ↔ d.referencer ≠ q ∧
        (d.referencer ∈ c.referencers.values (.type q) ∨ c.usedMembers q found d.referencer ≠ []) ∧
        d.members = (c.usedMembers q found d.referencer).eraseDups := by
  have hperform := c.perform_backDependencies q
  rw [perform_of_answer hfound] at hperform
  refine ⟨_, hperform, Collector.pairwise_finish_collect _ _ _, fun d => ?_⟩
  rw [Collector.mem_finish_collect, usedBy_uses]

/-- What the dependencies on a class are, in every cache that operations lead to, whenever the record of the class
can be looked up. -/
theorem backDependencies_eq_usedMembers (hc : c.Reachable) (hfound : c.answer (getClass q) = .ok found) :
    c.classes.rows.get? (StoreKey.encode q) = found.map Storable.form.toBytes ∧
      ∃ dependencies, c.answer (backDependencies q) = .ok dependencies ∧
        dependencies.Pairwise (fun a b => a.referencer < b.referencer) ∧
        (∀ d ∈ dependencies, d.referencer ≠ q) ∧
        (∀ r, r ≠ q → ((∃ d ∈ dependencies, d.referencer = r) ↔
          r ∈ c.referencers.values (.type q) ∨ ∃ record ∈ found,
            (∃ f ∈ record.fields, r ∈ c.referencers.values (.field q f.name)) ∨
              ∃ m ∈ record.methods, r ∈ c.referencers.values (.method q m.name m.descriptor))) ∧
        (∀ d ∈ dependencies, d.members = (c.usedMembers q found d.referencer).eraseDups) ∧
        (found = none → ∀ d ∈ dependencies, d.members = []) ∧
        (c.after (backDependencies q)).classes.rows = c.classes.rows ∧
        (c.after (backDependencies q)).remote = c.remote ∧
        (c.after (backDependencies q)).referencers = c.referencers ∧
        (c.after (backDependencies q)).referenced = c.referenced ∧
        (c.after (backDependencies q)).subclasses = c.subclasses := by
  obtain ⟨dependencies, hperform, hascending, hmem⟩ := exists_backDependencies hfound
  have hafter : c.after (backDependencies q) = { c with classes := (c.classes.get q).2 } := by
    rw [← after_getClass]
    exact congrArg Prod.snd hperform
  have hmembers : ∀ d ∈ dependencies, d.members = (c.usedMembers q found d.referencer).eraseDups :=
    fun d hd => ((hmem d).1 hd).2.2
  refine ⟨?_, dependencies, congrArg Prod.fst hperform, hascending, fun d hd => ((hmem d).1 hd).1, ?_,
    hmembers, ?_, ?_⟩
  · exact hc.coherent.classes.row_of_get exact_record (answer_getClass_eq_ok.1 hfound)
  · intro r hr
    rw [← usedMembers_ne_nil_iff]
    constructor
    · rintro ⟨d, hd, rfl⟩
      exact ((hmem d).1 hd).2.1
    · intro hused
      exact ⟨⟨r, (c.usedMembers q found r).eraseDups⟩, (hmem _).2 ⟨hr, hused, rfl⟩, rfl⟩
  · rintro rfl d hd
    exact hmembers d hd
  · rw [hafter]
    exact ⟨c.classes.rows_get q, rfl, rfl, rfl, rfl⟩

/-- A class that declares two fields of the same name. -/
def overloaded : ClassRecord :=
  { ClassRecord.new 1 0 with fields := [FieldRecord.new 5 6 0, FieldRecord.new 5 7 0] }

/-- A referencer of a field name uses all fields of that name, and a class does not depend on itself. -/
theorem backDependencies_overloaded :
    ∃ (c : Cache) (dependencies : List Dependency), c.Reachable ∧ c.answer (getClass 1) = .ok (some overloaded) ∧
      c.answer (backDependencies 1) = .ok dependencies ∧ (∀ d ∈ dependencies, d.referencer ≠ 1) ∧
      ∃ d ∈ dependencies, d.referencer = 3 ∧ d.members = overloaded.fields.map .field := by
  let c := (fresh "cache" 8).run
    [.putClass 1 overloaded, .addReferencer (.type 1) 1, .addReferencer (.field 1 5) 3]
  have hc : c.Reachable := Reachable.run (.fresh "cache" 8) _
  have hfound : c.answer (getClass 1) = .ok (some overloaded) := rfl
  obtain ⟨-, dependencies, hanswer, -, hself, hreferencers, hmembers, -⟩ :=
    backDependencies_eq_usedMembers hc hfound
  have hused : (3 : SymbolId) ∈ c.referencers.values (.field 1 5) := by decide
  have hfield : FieldRecord.new 5 6 0 ∈ overloaded.fields := List.mem_cons_self
  obtain ⟨d, hd, hr⟩ := (hreferencers 3 (by decide)).2 (.inr ⟨overloaded, rfl, .inl ⟨_, hfield, hused⟩⟩)
  refine ⟨c, dependencies, hc, hfound, hanswer, hself, d, hd, hr, ?_⟩
  rw [hmembers d hd, hr]
  decide

end ClassDeps.Cache
