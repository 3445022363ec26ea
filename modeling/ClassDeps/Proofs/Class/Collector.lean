import ClassDeps.Class.Dependency
import Mathlib.Data.List.Induction

/-!
# What a collector finds

A collector has one dependency for each referencer that was added to it, except for the owner. The members of a
dependency are those for which its referencer was added, in the order of the additions, each once.

## Main definitions

* `Collector.Addition`, `addAll` — what is added to a collector, in any order
* `Collector.membersFor` — the members that a referencer was added for
* `Collector.collect`, `usedBy` — the referencers of the class and of some of its members

## Main statements

* `Dependency.map_fields`, `map_methods` — the two kinds of members
* `Collector.get?_addAll` — the dependency of a referencer, after any additions
* `Collector.pairwise_finish_addAll`, `mem_finish_addAll` — the dependencies that are listed
* `Collector.finish_addAll` — what is listed after any additions
* `Collector.mem_finish_collect` — what is listed for a class and its members
-/

namespace ClassDeps

variable {r : SymbolId}

/-! ## Members of a dependency -/

/-- An item at the end is a repetition, or it stays at the end. -/
theorem eraseDups_concat {α : Type} [DecidableEq α] (xs : List α) (x : α) :
    (xs ++ [x]).eraseDups = if x ∈ xs then xs.eraseDups else xs.eraseDups ++ [x] := by
  rw [List.eraseDups_append]
  by_cases hx : x ∈ xs
  · simp [hx, List.removeAll]
  · simp [hx, List.removeAll, List.eraseDups_cons]

namespace Dependency

theorem attach_attach (d : Dependency) (member : MemberRecord) :
    (d.attach member).attach member = d.attach member := by
  unfold attach
  by_cases hmem : member ∈ d.members
  · simp [hmem]
  · simp [hmem]

/-- Of equal members the first one is kept. -/
theorem attach_eraseDups (r : SymbolId) (members : List MemberRecord) (member : MemberRecord) :
    attach ⟨r, members.eraseDups⟩ member = ⟨r, (members ++ [member]).eraseDups⟩ := by
  rw [eraseDups_concat, attach]
  by_cases hmem : member ∈ members
  · simp [hmem]
  · simp [hmem]

/-- The fields are the members that are fields. -/
theorem map_fields (d : Dependency) : d.fields.map .field = d.members.filter (· matches .field _) := by
  rw [fields, List.map_filterMap, ← List.filterMap_eq_filter]
  congr 1
  funext member
  cases member <;> rfl

/-- The methods are the other members. -/
theorem map_methods (d : Dependency) : d.methods.map .method = d.members.filter (!· matches .field _) := by
  rw [methods, List.map_filterMap, ← List.filterMap_eq_filter]
  congr 1
  funext member
  cases member <;> rfl

end Dependency

namespace Collector

/-! ## Single additions -/

theorem get?_update (c : Collector) (r : SymbolId) (change : Dependency → Dependency) (a : SymbolId) :
    (c.update r change).found.get? a =
      if a = r ∧ a ≠ c.owner then some (change ((c.found.get? a).getD (.new a)))
      else c.found.get? a := by
  unfold update
  by_cases hr : r = c.owner
  · rw [if_pos hr, if_neg]
    rintro ⟨rfl, hne⟩
    exact hne hr
  · rw [if_neg hr, Ordered.Map.get?_insert]
    by_cases ha : a = r
    · rw [if_pos ha, if_pos ⟨ha, ha ▸ hr⟩, ha]
    · rw [if_neg ha, if_neg (ha ·.1)]

theorem owner_update (c : Collector) (r : SymbolId) (change : Dependency → Dependency) :
    (c.update r change).owner = c.owner := by
  unfold update
  split <;> rfl

/-! ## Lists of referencers -/

theorem owner_foldl_update (change : Dependency → Dependency) (referencers : List SymbolId)
    (c : Collector) : (referencers.foldl (fun c r => c.update r change) c).owner = c.owner := by
  induction referencers generalizing c with
  | nil => rfl
  | cons r referencers ih => exact (ih (c.update r change)).trans (c.owner_update r change)

/-- A change that can be made twice is made to the dependencies of all referencers of a list. -/
theorem get?_foldl_update {change : Dependency → Dependency} (hchange : ∀ d, change (change d) = change d)
    (referencers : List SymbolId) (c : Collector) (a : SymbolId) :
    (referencers.foldl (fun c r => c.update r change) c).found.get? a =
      if a ∈ referencers ∧ a ≠ c.owner then some (change ((c.found.get? a).getD (.new a)))
      else c.found.get? a := by
  induction referencers generalizing c with
  | nil => simp
  | cons r referencers ih =>
    rw [List.foldl_cons, ih, owner_update, get?_update]
    by_cases howner : a = c.owner
    · simp [howner]
    · by_cases hr : a = r
      · simp [hr, hr ▸ howner, hchange]
      · simp [hr, howner]

/-! ## Additions in any order -/

/-- What is added to a collector: referencers of the class as such, or of one of its members. -/
inductive Addition where
  | ofClass (referencers : List SymbolId)
  | ofMember (member : MemberRecord) (referencers : List SymbolId)

namespace Addition

def referencers : Addition → List SymbolId
  | ofClass referencers => referencers
  | ofMember _ referencers => referencers

/-- The member that is attached to the dependencies of the referencers. -/
def member? : Addition → Option MemberRecord
  | ofClass _ => none
  | ofMember member _ => some member

/-- What happens to the dependencies of the referencers. -/
def change (addition : Addition) (d : Dependency) : Dependency :=
  addition.member?.elim d d.attach

theorem change_change (addition : Addition) (d : Dependency) :
    addition.change (addition.change d) = addition.change d := by
  cases addition with
  | ofClass referencers => rfl
  | ofMember member referencers => exact d.attach_attach member

end Addition

def add (c : Collector) : Addition → Collector
  | .ofClass referencers => c.addReferencers referencers
  | .ofMember member referencers => c.addMemberReferencers member referencers

def addAll (c : Collector) (additions : List Addition) : Collector :=
  additions.foldl add c

/-- The members of the additions that mention a referencer. -/
def membersFor (r : SymbolId) (additions : List Addition) : List MemberRecord :=
  (additions.filter (r ∈ ·.referencers)).filterMap Addition.member?

variable {owner : SymbolId} {additions : List Addition}

theorem add_eq (c : Collector) (addition : Addition) :
    c.add addition = addition.referencers.foldl (fun c r => c.update r addition.change) c := by
  cases addition <;> rfl

theorem get?_add (c : Collector) (addition : Addition) (a : SymbolId) :
    (c.add addition).found.get? a =
      if a ∈ addition.referencers ∧ a ≠ c.owner then some (addition.change ((c.found.get? a).getD (.new a)))
      else c.found.get? a := by
  rw [add_eq]
  exact get?_foldl_update addition.change_change addition.referencers c a

theorem owner_addAll (c : Collector) (additions : List Addition) : (c.addAll additions).owner = c.owner := by
  induction additions generalizing c with
  | nil => rfl
  | cons addition additions ih =>
    have howner : (c.add addition).owner = c.owner := by
      rw [add_eq, owner_foldl_update]
    exact (ih (c.add addition)).trans howner

theorem membersFor_concat_of_notMem {addition : Addition} (hr : r ∉ addition.referencers)
    (additions : List Addition) : membersFor r (additions ++ [addition]) = membersFor r additions := by
  simp only [membersFor, List.filter_append, List.filter_cons, List.filter_nil, decide_eq_true_eq, if_neg hr,
    List.append_nil]

/-- An addition that mentions a referencer turns its dependency on the members before into that on all members. -/
theorem change_membersFor {addition : Addition} (hr : r ∈ addition.referencers)
    (additions : List Addition) :
    addition.change ⟨r, (membersFor r additions).eraseDups⟩ =
      ⟨r, (membersFor r (additions ++ [addition])).eraseDups⟩ := by
  have hconcat : membersFor r (additions ++ [addition]) =
      membersFor r additions ++ [addition].filterMap Addition.member? := by
    simp only [membersFor, List.filter_append, List.filterMap_append, List.filter_cons, List.filter_nil,
      decide_eq_true_eq, if_pos hr]
  rw [hconcat]
  cases addition with
  | ofClass referencers =>
    rw [List.filterMap_cons_none rfl, List.filterMap_nil, List.append_nil]
    rfl
  | ofMember member referencers => exact Dependency.attach_eraseDups r (membersFor r additions) member

theorem membersFor_of_unmentioned (h : r ∉ additions.flatMap Addition.referencers) :
    membersFor r additions = [] := by
  have hnone : additions.filter (r ∈ ·.referencers) = [] :=
    List.filter_eq_nil_iff.2 fun addition hmem hr =>
      h (List.mem_flatMap.2 ⟨addition, hmem, of_decide_eq_true hr⟩)
  rw [membersFor, hnone, List.filterMap_nil]

/-- A collector knows who was added and which members it was added for, in whatever order that was. -/
theorem get?_addAll (owner : SymbolId) (additions : List Addition) (r : SymbolId) :
    ((new owner).addAll additions).found.get? r =
      if r ≠ owner ∧ r ∈ additions.flatMap Addition.referencers then
        some ⟨r, (membersFor r additions).eraseDups⟩
      else none := by
  -- From the end, since the members of the last addition come last.
  induction additions using List.reverseRecOn with
  | nil => simp [addAll, new]
  | append_singleton additions addition ih =>
    have hconcat : (new owner).addAll (additions ++ [addition]) = ((new owner).addAll additions).add addition :=
      List.foldl_append
    have howner : ((new owner).addAll additions).owner = owner := owner_addAll (new owner) additions
    have hmentioned : r ∈ (additions ++ [addition]).flatMap Addition.referencers ↔
        r ∈ additions.flatMap Addition.referencers ∨ r ∈ addition.referencers := by
      rw [List.flatMap_append, List.mem_append, List.flatMap_singleton]
    rw [hconcat, get?_add, howner]
    by_cases hr : r = owner
    · rw [if_neg (absurd hr ·.2), ih, if_neg (absurd hr ·.1), if_neg (absurd hr ·.1)]
    · by_cases hmem : r ∈ addition.referencers
      · -- Who is mentioned for the first time has no members yet.
        have hbefore : (((new owner).addAll additions).found.get? r).getD (.new r) =
            ⟨r, (membersFor r additions).eraseDups⟩ := by
          rw [ih]
          split
          · rfl
          · rename_i hfirst
            rw [membersFor_of_unmentioned fun h => hfirst ⟨hr, h⟩]
            rfl
        rw [if_pos ⟨hmem, hr⟩, if_pos ⟨hr, hmentioned.2 (.inr hmem)⟩, hbefore, change_membersFor hmem]
      · rw [if_neg (absurd ·.1 hmem), ih, membersFor_concat_of_notMem hmem]
        simp only [hmentioned, or_iff_left hmem]

/-! ## The list of dependencies -/

/-- The row of a dependency stands under its referencer. -/
theorem mem_rows_addAll {a : SymbolId} {d : Dependency} :
    (a, d) ∈ ((new owner).addAll additions).found.rows ↔
      (a ≠ owner ∧ a ∈ additions.flatMap Addition.referencers) ∧
        d = ⟨a, (membersFor a additions).eraseDups⟩ := by
  rw [Ordered.Map.mem_rows, get?_addAll]
  split
  · rename_i h
    rw [Option.some.injEq, eq_comm]
    exact (and_iff_right h).symm
  · rename_i h
    exact iff_of_false nofun fun hd => h hd.1

theorem mem_finish_addAll {d : Dependency} :
    d ∈ ((new owner).addAll additions).finish ↔
      d.referencer ≠ owner ∧ d.referencer ∈ additions.flatMap Addition.referencers ∧
        d.members = (membersFor d.referencer additions).eraseDups := by
  rw [finish, Ordered.Map.values, List.mem_map]
  constructor
  · rintro ⟨⟨a, _⟩, hrow, rfl⟩
    obtain ⟨⟨hne, hmentioned⟩, rfl⟩ := mem_rows_addAll.1 hrow
    exact ⟨hne, hmentioned, rfl⟩
  · rintro ⟨hne, hmentioned, hmembers⟩
    refine ⟨(d.referencer, d), mem_rows_addAll.2 ⟨⟨hne, hmentioned⟩, ?_⟩, rfl⟩
    rw [← hmembers]

/-- The dependencies are listed in strictly ascending order of their referencers. -/
theorem pairwise_finish_addAll (owner : SymbolId) (additions : List Addition) :
    ((new owner).addAll additions).finish.Pairwise fun a b => a.referencer < b.referencer := by
  rw [finish, Ordered.Map.values, List.pairwise_map]
  refine ((new owner).addAll additions).found.ascending.imp_of_mem fun {a b} ha hb hlt => ?_
  obtain ⟨-, ha⟩ := mem_rows_addAll.1 ha
  obtain ⟨-, hb⟩ := mem_rows_addAll.1 hb
  rw [ha, hb]
  exact compareOfLessAndEq_eq_lt.1 hlt

/-- After any additions there is one dependency for each referencer that was mentioned, except for the owner, in
ascending order. Its members are those of the additions that mention it, each where it comes first. The members of a
dependency are its fields and its methods, both in their order. -/
theorem finish_addAll (owner : SymbolId) (additions : List Addition) :
    ((new owner).addAll additions).finish.Pairwise (fun a b => a.referencer < b.referencer) ∧
      (∀ r, (∃ d ∈ ((new owner).addAll additions).finish, d.referencer = r) ↔
        r ≠ owner ∧ r ∈ additions.flatMap Addition.referencers) ∧
      (∀ d ∈ ((new owner).addAll additions).finish, d.members = (membersFor d.referencer additions).eraseDups) ∧
      ∀ d : Dependency,
        (d.fields.map Member.field).Sublist d.members ∧
          (d.methods.map Member.method).Sublist d.members ∧
          (d.fields.map Member.field ++ d.methods.map Member.method).Perm d.members := by
  refine ⟨pairwise_finish_addAll owner additions, fun r => ⟨?_, fun ⟨hne, hmentioned⟩ => ?_⟩,
    fun d hd => (mem_finish_addAll.1 hd).2.2, fun d => ?_⟩
  · rintro ⟨d, hd, rfl⟩
    obtain ⟨hne, hmentioned, -⟩ := mem_finish_addAll.1 hd
    exact ⟨hne, hmentioned⟩
  · exact ⟨⟨r, (membersFor r additions).eraseDups⟩, mem_finish_addAll.2 ⟨hne, hmentioned, rfl⟩, rfl⟩
  · rw [d.map_fields, d.map_methods]
    exact ⟨List.filter_sublist, List.filter_sublist, List.filter_append_perm _ _⟩

/-- Repetitions and the owner do not show, and each referencer stands where its order puts it. -/
example : ((new 1).addAll [.ofMember (.field (FieldRecord.new 5 6 0)) [3, 1, 2, 3], .ofClass [4, 3]]).finish =
    [⟨2, [.field (FieldRecord.new 5 6 0)]⟩, ⟨3, [.field (FieldRecord.new 5 6 0)]⟩, ⟨4, []⟩] := by decide

/-! ## All referencers of a class -/

/-- The members that a referencer uses, of those that are given with their referencers. -/
def usedBy (r : SymbolId) (uses : List (List SymbolId × MemberRecord)) : List MemberRecord :=
  (uses.filter fun use => r ∈ use.1).map Prod.snd

/-- Adds the referencers of members. -/
def addUses (c : Collector) (uses : List (List SymbolId × MemberRecord)) : Collector :=
  uses.foldl (fun c use => c.addMemberReferencers use.2 use.1) c

/-- The dependencies on a class that has some referencers itself and members with referencers. -/
def collect (owner : SymbolId) (referencers : List SymbolId) (uses : List (List SymbolId × MemberRecord)) :
    Collector :=
  ((new owner).addReferencers referencers).addUses uses

variable {referencers : List SymbolId} {uses : List (List SymbolId × MemberRecord)}

/-- The referencers of the class are added first, and then those of its members. -/
theorem collect_eq_addAll (owner : SymbolId) (referencers : List SymbolId)
    (uses : List (List SymbolId × MemberRecord)) :
    collect owner referencers uses =
      (new owner).addAll (.ofClass referencers :: uses.map fun use => .ofMember use.2 use.1) := by
  rw [collect, addUses, addAll, List.foldl_cons, List.foldl_map]
  rfl

theorem membersFor_uses (r : SymbolId) (referencers : List SymbolId) (uses : List (List SymbolId × MemberRecord)) :
    membersFor r (.ofClass referencers :: uses.map fun use => .ofMember use.2 use.1) = usedBy r uses := by
  have hclass (rest : List Addition) : membersFor r (.ofClass referencers :: rest) = membersFor r rest := by
    rw [membersFor, List.filter_cons]
    split
    · rw [List.filterMap_cons_none rfl, membersFor]
    · rfl
  rw [hclass, membersFor, usedBy, List.filter_map, List.filterMap_map, ← List.filterMap_eq_map]
  rfl

theorem usedBy_ne_nil_iff : usedBy r uses ≠ [] ↔ ∃ use ∈ uses, r ∈ use.1 := by
  simp only [usedBy, ne_eq, List.map_eq_nil_iff, List.filter_eq_nil_iff, decide_eq_true_eq, not_forall, not_not,
    exists_prop]

theorem mem_finish_collect {d : Dependency} :
    d ∈ (collect owner referencers uses).finish ↔
      d.referencer ≠ owner ∧ (d.referencer ∈ referencers ∨ usedBy d.referencer uses ≠ []) ∧
        d.members = (usedBy d.referencer uses).eraseDups := by
  rw [collect_eq_addAll, mem_finish_addAll, membersFor_uses, List.flatMap_cons, List.mem_append, List.flatMap_map,
    List.mem_flatMap, usedBy_ne_nil_iff]
  rfl

theorem pairwise_finish_collect (owner : SymbolId) (referencers : List SymbolId)
    (uses : List (List SymbolId × MemberRecord)) :
    (collect owner referencers uses).finish.Pairwise fun a b => a.referencer < b.referencer := by
  rw [collect_eq_addAll]
  exact pairwise_finish_addAll owner _

end Collector

end ClassDeps
