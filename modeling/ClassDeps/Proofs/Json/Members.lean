import ClassDeps.Proofs.Json.Intact
import Mathlib.Data.List.Nodup

/-!
# What readers find in objects

A reader looks for members by name and for the name of an alternative. Both depend on the values that an object gives
for a name, and not on where they stand.

## Main definitions

* `valuesOf` — the values that the members of an object give for a name

## Main statements

* `nodup_iff_valuesOf` — names differ if each has one value only
* `members?_record_eq` — the members that a reader finds in an object
* `adjacent?_record`, `tagged?_record` — alternatives that objects name
* `adjacent?_eq_none`, `tagged?_eq_none` — objects that do not name one
-/

namespace ClassDeps.Json

/-- The values that the members of an object give for a name. -/
def valuesOf (members : List (String × Json)) (name : String) : List Json :=
  (members.filter fun member => member.1 = name).map Prod.snd

/-! ## Members by name -/

/-- Members of an object are told apart from those of another one. -/
theorem record_inj {members others : List (String × Json)} : record members = record others ↔ members = others := by
  have hinj : ∀ m n : String × Json, (Bytes.ofText m.1, m.2) = (Bytes.ofText n.1, n.2) → m = n := by
    intro m n heq
    rw [Prod.mk.injEq] at heq
    exact Prod.ext (Bytes.ofText_injective heq.1) heq.2
  rw [record, record, object.injEq]
  exact (List.map_injective_iff.2 fun m n => hinj m n).eq_iff

theorem valuesOf_cons (member : String × Json) (members : List (String × Json)) (name : String) :
    valuesOf (member :: members) name =
      if member.1 = name then member.2 :: valuesOf members name else valuesOf members name := by
  simp only [valuesOf, List.filter_cons, decide_eq_true_eq]
  split <;> rfl

theorem mem_valuesOf {members : List (String × Json)} {name : String} {j : Json} :
    j ∈ valuesOf members name ↔ (name, j) ∈ members := by
  simp only [valuesOf, List.mem_map, List.mem_filter, decide_eq_true_eq]
  constructor
  · rintro ⟨member, ⟨hmem, rfl⟩, rfl⟩
    exact hmem
  · exact fun hmem => ⟨_, ⟨hmem, rfl⟩, rfl⟩

theorem lookup_eq_head? (members : List (String × Json)) (name : String) :
    members.lookup name = (valuesOf members name).head? := by
  induction members with
  | nil => rfl
  | cons member members ih =>
    rw [Ordered.lookup_cons, valuesOf_cons, ih]
    by_cases heq : member.1 = name
    · rw [if_pos heq.symm, if_pos heq, List.head?_cons]
    · rw [if_neg fun h => heq h.symm, if_neg heq]

/-- A name keeps its values among the members that pass a test if all members of that name do. -/
theorem valuesOf_filter {members : List (String × Json)} {name : String} {p : String × Json → Bool}
    (h : ∀ j, p (name, j)) : valuesOf (members.filter p) name = valuesOf members name := by
  rw [valuesOf, valuesOf, List.filter_filter]
  refine congrArg _ (List.filter_congr fun member _ => ?_)
  obtain ⟨other, j⟩ := member
  by_cases heq : other = name
  · rw [heq, h j, Bool.and_true]
  · rw [decide_eq_false heq, Bool.false_and]

theorem length_valuesOf (members : List (String × Json)) (name : String) :
    (valuesOf members name).length = (members.filter fun member => member.1 = name).length :=
  List.length_map _

theorem valuesOf_without_self (members : List (String × Json)) (name : String) :
    valuesOf (members.filter fun member => member.1 ≠ name) name = [] := by
  refine List.eq_nil_iff_forall_not_mem.2 fun j hj => ?_
  simpa using (List.mem_filter.1 (mem_valuesOf.1 hj)).2

/-- Names differ if each of them has one value only. -/
theorem nodup_iff_valuesOf {members : List (String × Json)} :
    (members.map Prod.fst).Nodup ↔ ∀ name, (valuesOf members name).length ≤ 1 := by
  have hcount (name : String) : (valuesOf members name).length = (members.map Prod.fst).count name := by
    rw [valuesOf, List.length_map, List.count_eq_countP, List.countP_map, List.countP_eq_length_filter]
    refine congrArg _ (List.filter_congr fun member _ => ?_)
    exact (beq_eq_decide member.1 name).symm
  rw [List.nodup_iff_count_le_one]
  exact forall_congr' fun name => by rw [hcount]

/-- Members of one name are those that give its values. -/
theorem eq_of_valuesOf_eq_singleton {members : List (String × Json)} {name : String} {j : Json}
    (hnames : ∀ member ∈ members, member.1 = name) (h : valuesOf members name = [j]) : members = [(name, j)] := by
  have hfilter : members.filter (fun member => member.1 = name) = members :=
    List.filter_eq_self.2 fun member hmem => decide_eq_true (hnames member hmem)
  rw [valuesOf, hfilter, List.map_eq_singleton_iff] at h
  obtain ⟨member, rfl, rfl⟩ := h
  rw [← hnames member List.mem_cons_self]

/-- After a member of one of two names comes one of the other name. -/
theorem eq_of_valuesOf_cons {member : String × Json} {members : List (String × Json)} {name other : String}
    {j k : Json} (hmember : member.1 = name) (hne : name ≠ other)
    (hnames : ∀ m ∈ members, m.1 = name ∨ m.1 = other) (hname : valuesOf (member :: members) name = [j])
    (hother : valuesOf (member :: members) other = [k]) : member :: members = [(name, j), (other, k)] := by
  rw [valuesOf_cons, if_pos hmember, List.cons.injEq] at hname
  rw [valuesOf_cons, if_neg fun heq => hne (hmember.symm.trans heq)] at hother
  have hrest : ∀ m ∈ members, m.1 = other := by
    intro m hmem
    refine (hnames m hmem).resolve_left fun heq => ?_
    have hvalue : m.2 ∈ valuesOf members name := mem_valuesOf.2 (heq ▸ hmem)
    exact absurd hvalue (hname.2 ▸ List.not_mem_nil)
  rw [eq_of_valuesOf_eq_singleton hrest hother, ← hmember, ← hname.1]

/-- Two members of different names are in one of two orders. -/
theorem eq_or_eq_of_valuesOf {members : List (String × Json)} {name other : String} {j k : Json}
    (hne : name ≠ other) (hnames : ∀ member ∈ members, member.1 = name ∨ member.1 = other)
    (hname : valuesOf members name = [j]) (hother : valuesOf members other = [k]) :
    members = [(name, j), (other, k)] ∨ members = [(other, k), (name, j)] := by
  cases members with
  | nil => exact absurd hname (List.cons_ne_nil j []).symm
  | cons member members =>
    rw [List.forall_mem_cons] at hnames
    obtain ⟨hmember | hmember, hrest⟩ := hnames
    · exact .inl (eq_of_valuesOf_cons hmember hne hrest hname hother)
    · exact .inr (eq_of_valuesOf_cons hmember hne.symm (fun m hmem => (hrest m hmem).symm) hother hname)

/-! ## Known members -/

theorem members?_record_eq (names : List String) (members : List (String × Json)) :
    members? names (record members) =
      let known := members.filter fun member => names.contains member.1
      if (known.map Prod.fst).Nodup then some known else none := by
  simp only [members?, record, named?_record, Option.bind_eq_bind, Option.bind_some, guard]
  split <;> rfl

/-! ## Names of alternatives -/

/-- Only an object with one type and one value names its alternative. -/
theorem adjacent?_eq_none {names : List String} {source : Source} {limit : Nat} {members : List (String × Json)}
    (h : (valuesOf members "type").length ≠ 1 ∨ (valuesOf members "value").length ≠ 1) :
    adjacent? names source (limit + 1) (record members) = none := by
  let known := members.filter fun member => member.1 = "type" || member.1 = "value"
  have htype : valuesOf known "type" = valuesOf members "type" := valuesOf_filter fun j => rfl
  have hvalue : valuesOf known "value" = valuesOf members "value" := valuesOf_filter fun j => rfl
  rw [← htype, ← hvalue] at h
  simp only [adjacent?, record, named?_record, Option.bind_eq_bind, Option.bind_some]
  split
  · rename_i type value heq
    change known = _ at heq
    simp [heq, valuesOf] at h
  · rename_i value type heq
    change known = _ at heq
    simp [heq, valuesOf] at h
  · rfl

/-- An object with one type and one value names its alternative. If the value stands in front, it is kept. -/
theorem adjacent?_record (names : List String) (source : Source) (limit : Nat) {members : List (String × Json)}
    {type : String} {value : Json} (htype : valuesOf members "type" = [.ofText type])
    (hvalue : valuesOf members "value" = [value]) :
    adjacent? names source (limit + 1) (record members) = some (type, source, value) ∨
      adjacent? names source (limit + 1) (record members) =
        if value.sound limit then some (type, .kept, value) else none := by
  let known := members.filter fun member => member.1 = "type" || member.1 = "value"
  have hnames : ∀ member ∈ known, member.1 = "type" ∨ member.1 = "value" := by
    intro member hmem
    simpa using (List.mem_filter.1 hmem).2
  have htypes : valuesOf known "type" = [.ofText type] := (valuesOf_filter fun j => rfl).trans htype
  have hvalues : valuesOf known "value" = [value] := (valuesOf_filter fun j => rfl).trans hvalue
  simp only [adjacent?, record, named?_record, Option.bind_eq_bind, Option.bind_some]
  obtain hknown | hknown := eq_or_eq_of_valuesOf (by decide) hnames htypes hvalues
  · left
    simp only [known] at hknown
    simp only [hknown, variant?_ofText, Option.bind_some, Option.pure_def]
  · right
    simp only [known] at hknown
    simp only [hknown, variant?_ofText, Option.bind_some, Option.pure_def, guard]
    split <;> rfl

theorem partition_record (members : List (String × Json)) (name : String) :
    (members.map fun member => (Bytes.ofText member.1, member.2)).partition
        (fun member => member.1 = Bytes.ofText name) =
      ((members.filter fun member => member.1 = name).map fun member => (Bytes.ofText member.1, member.2),
        (members.filter fun member => member.1 ≠ name).map fun member => (Bytes.ofText member.1, member.2)) := by
  have hname (member : String × Json) : Bytes.ofText member.1 = Bytes.ofText name ↔ member.1 = name :=
    ⟨fun heq => Bytes.ofText_injective heq, congrArg _⟩
  rw [List.partition_eq_filter_filter, List.filter_map, List.filter_map]
  simp only [Function.comp_def, hname, decide_not]

/-- An object names its kind once, or it is not read. -/
theorem tagged?_eq_none {names : List String} {source : Source} {limit : Nat} {members : List (String × Json)}
    (h : (valuesOf members "kind").length ≠ 1) : tagged? names source (limit + 1) (record members) = none := by
  rw [length_valuesOf] at h
  simp only [tagged?, record, partition_record, Option.bind_eq_bind]
  generalize members.filter (fun member => member.1 = "kind") = kinds at h
  obtain _ | ⟨kind, _ | ⟨other, kinds⟩⟩ := kinds
  · exact Option.bind_fun_none _
  · simp at h
  · exact Option.bind_fun_none _

/-- An object that names its kind once is kept without it. -/
theorem tagged?_record {names : List String} {source : Source} {limit : Nat} {members : List (String × Json)}
    {kind : String} (h : valuesOf members "kind" = [.ofText kind]) :
    tagged? names source (limit + 1) (record members) =
      if (record members).sound (limit + 1) then some (kind, record (members.filter fun member => member.1 ≠ "kind"))
      else none := by
  obtain ⟨⟨name, j⟩, hkinds, rfl⟩ := List.map_eq_singleton_iff.1 h
  have hsound : (record members).sound (limit + 1) =
      soundMembers limit (members.map fun member => (Bytes.ofText member.1, member.2)) := by
    simp [record, sound]
  rw [hsound]
  simp only [tagged?, record, partition_record, hkinds, List.map_cons, List.map_nil, name?_ofText,
    Option.bind_eq_bind, Option.bind_some, Option.pure_def, guard]
  split <;> rfl

/-- An object with its kind in front is kept as its other members. -/
theorem tagged?_record_cons (names : List String) (source : Source) (limit : Nat) (kind : String)
    {members : List (String × Json)} (hkind : ∀ member ∈ members, member.1 ≠ "kind") :
    tagged? names source (limit + 1) (record (("kind", .ofText kind) :: members)) =
      if ∀ member ∈ members, member.2.sound limit then some (kind, record members) else none := by
  have hnone : valuesOf members "kind" = [] :=
    List.eq_nil_iff_forall_not_mem.2 fun j hj => hkind _ (mem_valuesOf.1 hj) rfl
  have hvalues : valuesOf (("kind", .ofText kind) :: members) "kind" = [.ofText kind] := by
    rw [valuesOf_cons, if_pos rfl, hnone]
  have hothers : (("kind", .ofText kind) :: members).filter (fun member => member.1 ≠ "kind") = members := by
    rw [List.filter_cons_of_neg (by simp), List.filter_eq_self]
    exact fun member hmem => decide_eq_true (hkind member hmem)
  have hsound : (record (("kind", .ofText kind) :: members)).sound (limit + 1) ↔
      ∀ member ∈ members, member.2.sound limit := by
    rw [sound_record_succ, List.forall_mem_cons]
    exact and_iff_right (by simp [sound_iff])
  rw [tagged?_record hvalues, hothers, if_congr hsound rfl rfl]

end ClassDeps.Json
