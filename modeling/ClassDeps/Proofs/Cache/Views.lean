import ClassDeps.Proofs.Cache.ClassNames
import ClassDeps.Proofs.Cache.Removals
import Mathlib.Logic.Function.Basic

/-!
# What a cache can be asked

A view of a cache is what it knows: a record and a marker for some classes, and which edges there are. Every question
that can be asked about a cache is a query, and what a cache answers is determined by its view alone, wherever records
are kept. A query depends on few items of a view.

## Main definitions

* `Cache.View`, `Cache.view` — records, markers and edges, and those of a cache
* `Cache.Query` — what a cache can be asked
* `View.Says` — the answer that a view gives
* `Cache.Item`, `Query.Reads` — parts of a view, and those that a query depends on
* `Cache.Shows` — a cache stores what a view has

## Main statements

* `Reachable.shows_view` — a reachable cache whose records can be read stores its view
* `Shows.answers` — queries are answered as the view says
* `View.Says.unique`, `View.SameBut.says_iff` — a view gives one answer, which depends on the items that are read
-/

namespace ClassDeps.Cache

open Json (depthLimit)

/-- What is known of classes and of who refers to what. -/
structure View where
  record : SymbolId → Option ClassRecord
  marker : SymbolId → Option Bool
  /-- Whether a declaration has a class as a referencer. -/
  referencer : DeclarationKey × SymbolId → Bool
  /-- Whether a class refers to another one. -/
  referenced : SymbolId × SymbolId → Bool
  /-- Whether a class has another one as a subclass. -/
  subclass : SymbolId × SymbolId → Bool

/-- What the stores of a cache hold. -/
def view (c : Cache) : View where
  record := c.stored?
  marker q := (c.remote.rows.get? (StoreKey.encode q)).bind Storable.form.ofBytes?
  referencer edge := decide (edge.2 ∈ c.referencers.values edge.1)
  referenced edge := decide (edge.2 ∈ c.referenced.values edge.1)
  subclass edge := decide (edge.2 ∈ c.subclasses.values edge.1)

/-- The questions that can be asked about a cache. What is asked about a record is a part of it. -/
inductive Query : Type → Type 1 where
  | record (q : SymbolId) : Query (Option ClassRecord)
  | part {α : Type} (q : SymbolId) (absent : α) (part : ClassRecord → α) : Query α
  | contains (q : SymbolId) : Query Bool
  | names : Query (List SymbolId)
  | count : Query Nat
  | marker (q : SymbolId) : Query Bool
  | referencers (key : DeclarationKey) : Query (List SymbolId)
  | isReferenced (key : DeclarationKey) (referencer : SymbolId) : Query Bool
  | referenced (q : SymbolId) : Query (List SymbolId)
  | subclasses (q : SymbolId) : Query (List SymbolId)
  | dependencies (q : SymbolId) : Query (List Dependency)

/-- A part of a view that can change on its own. -/
inductive Item where
  | record (q : SymbolId)
  | marker (q : SymbolId)
  | referencer (key : DeclarationKey) (referencer : SymbolId)
  | referenced (q referenced : SymbolId)
  | subclass (q subclass : SymbolId)

variable {α : Type} {c d : Cache} {v w : View} {item : Item}

/-- A list has what a test accepts, once and in ascending order. -/
structure Lists (listed : List SymbolId) (test : SymbolId → Bool) : Prop where
  ascending : listed.Pairwise (· < ·)
  mem_iff : ∀ r, r ∈ listed ↔ test r = true

namespace View

/-- The classes that have a record. -/
def Stored (v : View) (q : SymbolId) : Prop :=
  (v.record q).isSome

/-- The members of the record of `q` that `r` uses: fields first, in the order of their declaration. -/
def usedMembers (v : View) (q r : SymbolId) : List MemberRecord :=
  (v.record q).elim [] fun record =>
    (record.fields.filter fun f => v.referencer (.field q f.name, r)).map .field ++
      (record.methods.filter fun m => v.referencer (.method q m.name m.descriptor, r)).map .method

/-- What a view says when it is asked. -/
def Says (v : View) : {α : Type} → Query α → α → Prop
  | _, .record q, found => found = v.record q
  | _, .part q absent part, answer => answer = ((v.record q).map part).getD absent
  | _, .contains q, answer => answer = (v.record q).isSome
  | _, .names, names => names.Pairwise (fun a b => a.toUInt32 < b.toUInt32) ∧ ∀ q, q ∈ names ↔ v.Stored q
  | _, .count, n => ∃ names : List SymbolId, names.Nodup ∧ names.length = n ∧ ∀ q, q ∈ names ↔ v.Stored q
  | _, .marker q, answer => answer = (v.marker q).getD false
  | _, .referencers key, listed => Lists listed fun r => v.referencer (key, r)
  | _, .isReferenced key r, answer => answer = v.referencer (key, r)
  | _, .referenced q, listed => Lists listed fun t => v.referenced (q, t)
  | _, .subclasses q, listed => Lists listed fun s => v.subclass (q, s)
  | _, .dependencies q, dependencies =>
    dependencies.Pairwise (fun a b => a.referencer < b.referencer) ∧
      ∀ d, d ∈ dependencies ↔ d.referencer ≠ q ∧
        (v.referencer (.type q, d.referencer) = true ∨ v.usedMembers q d.referencer ≠ []) ∧
        d.members = (v.usedMembers q d.referencer).eraseDups

/-- Views that differ in one item at most. -/
structure SameBut (item : Item) (v w : View) : Prop where
  record : ∀ q, item ≠ .record q → w.record q = v.record q
  marker : ∀ q, item ≠ .marker q → w.marker q = v.marker q
  referencer : ∀ key r, item ≠ .referencer key r → w.referencer (key, r) = v.referencer (key, r)
  referenced : ∀ q t, item ≠ .referenced q t → w.referenced (q, t) = v.referenced (q, t)
  subclass : ∀ q s, item ≠ .subclass q s → w.subclass (q, s) = v.subclass (q, s)

end View

namespace Query

/-- The operation that asks. -/
def op : {α : Type} → Query α → Op α
  | _, .record q => getClass q
  | _, .part q absent take => read q absent take
  | _, .contains q => containsClass q
  | _, .names => classNames
  | _, .count => do return (← stats).1
  | _, .marker q => isRemote q
  | _, .referencers key => referencersOf key
  | _, .isReferenced key referencer => Cache.isReferenced key referencer
  | _, .referenced q => referencedClasses q
  | _, .subclasses q => subclassesOf q
  | _, .dependencies q => backDependencies q

/-- The items that the answer depends on. -/
def Reads : {α : Type} → Query α → Item → Prop
  | _, .record q, item | _, .part q _ _, item | _, .contains q, item => item = .record q
  | _, .names, item | _, .count, item => ∃ q, item = .record q
  | _, .marker q, item => item = .marker q
  | _, .referencers key, item => ∃ r, item = .referencer key r
  | _, .isReferenced key referencer, item => item = .referencer key referencer
  | _, .referenced q, item => ∃ t, item = .referenced q t
  | _, .subclasses q, item => ∃ s, item = .subclass q s
  | _, .dependencies q, item => item = .record q ∨ ∃ key r, key.owner = q ∧ item = .referencer key r

/-- The class whose record is read. -/
def subject? : {α : Type} → Query α → Option SymbolId
  | _, .record q => some q
  | _, .part q _ _ => some q
  | _, .dependencies q => some q
  | _, _ => none

/-- The record that is read, if any, nests no deeper than readers follow. -/
def Readable (query : Query α) (v : View) : Prop :=
  ∀ q ∈ query.subject?, ∀ record ∈ v.record q, record.nesting ≤ depthLimit

end Query

/-- A cache answers as a view says. -/
def Answers (c : Cache) (v : View) (query : Query α) : Prop :=
  ∃ answer, c.answer query.op = .ok answer ∧ v.Says query answer

/-! ## Views -/

theorem eq_of_lists {listed others : List SymbolId} {test : SymbolId → Bool} (h : Lists listed test)
    (h' : Lists others test) : listed = others := by
  have hnodup {xs : List SymbolId} (hxs : xs.Pairwise (· < ·)) : xs.Nodup := hxs.imp fun hlt => Int32.ne_of_lt hlt
  refine ((List.perm_ext_iff_of_nodup (hnodup h.ascending) (hnodup h'.ascending)).2 fun r =>
    (h.mem_iff r).trans (h'.mem_iff r).symm).eq_of_pairwise ?_ h.ascending h'.ascending
  exact fun _ _ _ _ hlt hgt => absurd hgt (Int32.lt_asymm hlt)

theorem nodup_of_unsigned {names : List SymbolId} (h : names.Pairwise fun a b => a.toUInt32 < b.toUInt32) :
    names.Nodup := by
  refine h.imp fun {a b} hlt heq => ?_
  rw [heq] at hlt
  exact UInt32.lt_irrefl _ hlt

/-- A view says one thing. -/
theorem View.Says.unique {query : Query α} {a b : α} (ha : v.Says query a) (hb : v.Says query b) : a = b := by
  cases query with
  | record | part | contains | marker | isReferenced => exact ha.trans hb.symm
  | names =>
    obtain ⟨hascending, hmem⟩ := ha
    obtain ⟨hascending', hmem'⟩ := hb
    refine ((List.perm_ext_iff_of_nodup (nodup_of_unsigned hascending) (nodup_of_unsigned hascending')).2 fun q =>
      (hmem q).trans (hmem' q).symm).eq_of_pairwise ?_ hascending hascending'
    exact fun _ _ _ _ hlt hgt => absurd hgt (UInt32.lt_asymm hlt)
  | count =>
    obtain ⟨names, hnodup, rfl, hmem⟩ := ha
    obtain ⟨names', hnodup', rfl, hmem'⟩ := hb
    exact ((List.perm_ext_iff_of_nodup hnodup hnodup').2 fun q => (hmem q).trans (hmem' q).symm).length_eq
  | referencers | referenced | subclasses => exact eq_of_lists ha hb
  | dependencies =>
    exact eq_of_mem_iff_dependency ha.1 hb.1 fun d => (ha.2 d).trans (hb.2 d).symm

namespace View.SameBut

/-- A query that does not read the item has the same answer in both views. -/
theorem says_iff (h : v.SameBut item w) {query : Query α} (hreads : ¬query.Reads item) (answer : α) :
    w.Says query answer ↔ v.Says query answer := by
  cases query with
  | record q | part q | contains q => simp only [View.Says, h.record q hreads]
  | names | count =>
    have hrecord (q : SymbolId) : w.record q = v.record q := h.record q fun heq => hreads ⟨q, heq⟩
    simp only [View.Says, View.Stored, hrecord]
  | marker q => simp only [View.Says, h.marker q hreads]
  | isReferenced key r => simp only [View.Says, h.referencer key r hreads]
  | referencers key =>
    have hrow (r : SymbolId) : w.referencer (key, r) = v.referencer (key, r) :=
      h.referencer key r fun heq => hreads ⟨r, heq⟩
    simp only [View.Says, hrow]
  | referenced q =>
    have hrow (t : SymbolId) : w.referenced (q, t) = v.referenced (q, t) :=
      h.referenced q t fun heq => hreads ⟨t, heq⟩
    simp only [View.Says, hrow]
  | subclasses q =>
    have hrow (s : SymbolId) : w.subclass (q, s) = v.subclass (q, s) := h.subclass q s fun heq => hreads ⟨s, heq⟩
    simp only [View.Says, hrow]
  | dependencies q =>
    obtain ⟨hrecord, hedges⟩ := not_or.1 hreads
    have hrow (key : DeclarationKey) (hkey : key.owner = q) (r : SymbolId) :
        w.referencer (key, r) = v.referencer (key, r) :=
      h.referencer key r fun heq => hedges ⟨key, r, hkey, heq⟩
    have htype (r : SymbolId) := hrow (.type q) rfl r
    have hfield (name r : SymbolId) := hrow (.field q name) rfl r
    have hmethod (name descriptor r : SymbolId) := hrow (.method q name descriptor) rfl r
    simp only [View.Says, View.usedMembers, h.record q hrecord, htype, hfield, hmethod]

theorem readable_iff (h : v.SameBut item w) {query : Query α} (hreads : ¬query.Reads item) :
    query.Readable w ↔ query.Readable v := by
  cases query with
  | record q | part q =>
    simp only [Query.Readable, Query.subject?, Option.mem_some_iff, forall_eq', h.record q hreads]
  | dependencies q =>
    simp only [Query.Readable, Query.subject?, Option.mem_some_iff, forall_eq', h.record q (not_or.1 hreads).1]
  | _ => exact iff_of_true nofun nofun

end View.SameBut

/-! ## Stores -/

/-- A cache stores what a view has, and memory holds nothing else. -/
structure Shows (c : Cache) (v : View) : Prop extends Coherent c where
  keyed : KeyValueStore.Keyed SymbolId c.classes.rows
  record : ∀ q : SymbolId, c.classes.rows.get? (StoreKey.encode q) = (v.record q).map Storable.form.toBytes
  marker : ∀ q : SymbolId, c.remote.rows.get? (StoreKey.encode q) = (v.marker q).map Storable.form.toBytes
  referencer : ∀ key r, v.referencer (key, r) = true ↔ r ∈ c.referencers.values key
  referenced : ∀ q t, v.referenced (q, t) = true ↔ t ∈ c.referenced.values q
  subclass : ∀ q s, v.subclass (q, s) = true ↔ s ∈ c.subclasses.values q

theorem depth_marker_le (marker : Bool) : (Storable.form.write marker).depth ≤ depthLimit :=
  Nat.zero_le _

/-- A reachable cache whose records can be read stores its view. -/
theorem Reachable.shows_view (h : c.Reachable)
    (hreadable : ∀ q : SymbolId, ∃ found, c.classes.readRow (StoreKey.encode q) = .ok found) : c.Shows c.view where
  toCoherent := h.coherent
  keyed := h.keyed
  record q := by
    have hlegible : c.Legible := ⟨h.coherent, hreadable⟩
    exact h.coherent.classes.row_of_get exact_record (answer_getClass_eq_ok.1 (hlegible.answer_getClass q))
  marker q := by
    change _ = ((c.remote.rows.get? (StoreKey.encode q)).bind Storable.form.ofBytes?).map Storable.form.toBytes
    cases hrow : c.remote.rows.get? (StoreKey.encode q) with
    | none => rfl
    | some bytes =>
      obtain ⟨marker, rfl⟩ := h.coherent.remote.written hrow
      rw [Option.bind_some, exact_marker.ofBytes?_toBytes, if_pos (depth_marker_le marker)]
      rfl
  referencer _ _ := decide_eq_true_iff
  referenced _ _ := decide_eq_true_iff
  subclass _ _ := decide_eq_true_iff

theorem Legible.readable_view (h : c.Legible) (query : Query α) : query.Readable c.view := by
  intro q _ record hrecord
  have hrow := h.classes.row_of_readRow exact_record ((h.readRow_eq q).trans (congrArg _ hrecord))
  have hread := (KeyValueStore.readRow_of_row exact_record hrow).symm.trans (h.readRow_eq q)
  by_contra hdepth
  have hwrite : ¬(Storable.form.write record).depth ≤ depthLimit := record.depth_write ▸ hdepth
  rw [if_neg hwrite] at hread
  cases hread

namespace Shows

theorem answer_getClass (h : c.Shows v) {q : SymbolId} (hreadable : ∀ record ∈ v.record q, record.nesting ≤ depthLimit) :
    c.answer (getClass q) = .ok (v.record q) := by
  refine answer_getClass_eq_ok.2 (h.classes.get_of_readRow exact_record ?_)
  have hrow := h.record q
  cases hrecord : v.record q with
  | none =>
    rw [hrecord] at hrow
    exact KeyValueStore.readRow_eq_none hrow
  | some record =>
    rw [hrecord] at hrow
    have hwrite : (Storable.form.write record).depth ≤ depthLimit := record.depth_write ▸ hreadable record hrecord
    exact (KeyValueStore.readRow_of_row exact_record hrow).trans (if_pos hwrite)

theorem answer_isRemote (h : c.Shows v) (q : SymbolId) : c.answer (isRemote q) = .ok ((v.marker q).getD false) := by
  have hget : (c.remote.get q).1 = .ok (v.marker q) := by
    refine h.remote.get_of_readRow exact_marker ?_
    have hrow := h.marker q
    cases hmarker : v.marker q with
    | none =>
      rw [hmarker] at hrow
      exact KeyValueStore.readRow_eq_none hrow
    | some marker =>
      rw [hmarker] at hrow
      exact (KeyValueStore.readRow_of_row exact_marker hrow).trans (if_pos (depth_marker_le marker))
  rw [answer, perform_isRemote, hget]
  rfl

/-- The stored classes in the order of their keys. -/
theorem exists_names (h : c.Shows v) : ∃ names : List SymbolId, c.classes.keys = .ok names ∧
    c.classes.size = names.length ∧ v.Says .names names := by
  have hdecode (q : SymbolId) : StoreKey.decode (StoreKey.encode q) = .ok q :=
    (canonical_int32.decode_eq_ok_iff _ q).2 rfl
  obtain ⟨names, hencode, hnames, hascending, hmem⟩ := h.keyed.exists_keys hdecode
  refine ⟨names, hnames, ?_, ?_, fun q => ?_⟩
  · have hlength := congrArg List.length hencode
    rw [List.length_map, Ordered.Map.keys, List.length_map] at hlength
    exact hlength.symm
  · refine hascending.imp fun {a b} hlt => ?_
    have hcompare := Bytes.compare_ofInt32_append a b [] []
    rw [List.append_nil, List.append_nil, List.compare_nil_nil, Ordering.then_eq] at hcompare
    exact Std.compare_eq_lt.1 (hcompare.symm.trans hlt)
  · rw [hmem, Ordered.Map.contains, h.record, Option.isSome_map, View.Stored]

theorem usedMembers_eq (h : c.Shows v) (q r : SymbolId) : c.usedMembers q (v.record q) r = v.usedMembers q r := by
  have hdecide (key : DeclarationKey) : decide (r ∈ c.referencers.values key) = v.referencer (key, r) :=
    Bool.eq_iff_iff.2 (decide_eq_true_iff.trans (h.referencer key r).symm)
  simp only [Cache.usedMembers, View.usedMembers, hdecide]

/-- A cache answers as its view says. -/
theorem answers (h : c.Shows v) (query : Query α) (hreadable : query.Readable v) : c.Answers v query := by
  cases query with
  | record q => exact ⟨_, h.answer_getClass (hreadable q rfl), rfl⟩
  | part q absent part =>
    refine ⟨_, ?_, rfl⟩
    rw [Query.op, answer, perform_read, h.answer_getClass (hreadable q rfl)]
    rfl
  | contains q =>
    refine ⟨c.classes.contains q, rfl, ?_⟩
    rw [h.contains_eq, Ordered.Map.contains, h.record, Option.isSome_map, View.Says]
  | names =>
    obtain ⟨names, hkeys, -, hnames⟩ := h.exists_names
    refine ⟨names, ?_, hnames⟩
    rw [Query.op, answer, perform_classNames, hkeys]
    rfl
  | count =>
    obtain ⟨names, -, hsize, hascending, hmem⟩ := h.exists_names
    exact ⟨c.classes.size, rfl, names, nodup_of_unsigned hascending, hsize.symm, hmem⟩
  | marker q => exact ⟨_, h.answer_isRemote q, rfl⟩
  | referencers key =>
    exact ⟨c.referencers.values key, rfl, c.referencers.pairwise_values key, fun r => (h.referencer key r).symm⟩
  | isReferenced key r =>
    refine ⟨(c.referencers.values key).contains r, rfl, ?_⟩
    exact Bool.eq_iff_iff.2 (List.contains_iff_mem.trans (h.referencer key r).symm)
  | referenced q =>
    exact ⟨c.referenced.values q, rfl, c.referenced.pairwise_values q, fun t => (h.referenced q t).symm⟩
  | subclasses q =>
    exact ⟨c.subclasses.values q, rfl, c.subclasses.pairwise_values q, fun s => (h.subclass q s).symm⟩
  | dependencies q =>
    obtain ⟨dependencies, hperform, hascending, hmem⟩ :=
      exists_backDependencies (h.answer_getClass (hreadable q rfl))
    refine ⟨dependencies, congrArg Prod.fst hperform, hascending, fun d => ?_⟩
    rw [hmem, h.usedMembers_eq, h.referencer]

/-- A query that does not read the item in which two views differ is answered in the same way. -/
theorem answer_eq (hc : c.Shows v) (hd : d.Shows w) (h : v.SameBut item w) (query : Query α)
    (hreadable : query.Readable v) (hreads : ¬query.Reads item) : d.answer query.op = c.answer query.op := by
  obtain ⟨former, hformer, hsays⟩ := hc.answers query hreadable
  obtain ⟨later, hlater, hsays'⟩ := hd.answers query ((h.readable_iff hreads).2 hreadable)
  rw [hformer, hlater, ((h.says_iff hreads later).1 hsays').unique hsays]

end Shows

end ClassDeps.Cache
