import ClassDeps.Json.Canonical
import ClassDeps.Json.Codec
import ClassDeps.Proofs.Json.Members

/-!
# Documents that are kept for their own sake

Of members with equal names the last one counts. So objects that are read one after the other are one object with the
members of all of them.

## Main definitions

* `lastMember?` — the value that counts for a name
* `Keepable` — members that can be kept

## Main statements

* `get?_of_canonicalMembers?`, `lastMember?_of_canonical?` — what is kept under a name
* `canonicalMembers?_isSome_iff` — which members can be kept
* `isIntact_of_canonical?` — what can be kept can be written
* `canonical?_ofInt`, `canonical?_ofText` — integers and texts are kept as they are
-/

namespace ClassDeps.Json

/-- The value of the last member with a name. -/
def lastMember? (members : List (Bytes × Json)) (name : Bytes) : Option Json :=
  ((members.filter fun member => member.1 = name).map Prod.snd).getLast?

variable {members later : List (Bytes × Json)} {member : Bytes × Json} {name : Bytes} {j : Json} {limit : Nat}
  {before after : Ordered.Map Bytes Json}

/-! ## The last member -/

theorem lastMember?_append (members later : List (Bytes × Json)) (name : Bytes) :
    lastMember? (members ++ later) name = (lastMember? later name).or (lastMember? members name) := by
  rw [lastMember?, List.filter_append, List.map_append, List.getLast?_append]
  rfl

theorem lastMember?_cons (member : Bytes × Json) (members : List (Bytes × Json)) (name : Bytes) :
    lastMember? (member :: members) name =
      (lastMember? members name).or (if name = member.1 then some member.2 else none) := by
  rw [← List.singleton_append, lastMember?_append]
  refine congrArg _ ?_
  rw [lastMember?, List.filter_singleton]
  by_cases hname : name = member.1
  · rw [if_pos hname, decide_eq_true hname.symm]
    rfl
  · rw [if_neg hname, decide_eq_false (Ne.symm hname)]
    rfl

theorem mem_of_lastMember? (h : lastMember? members name = some j) : (name, j) ∈ members := by
  obtain ⟨member, hmember, rfl⟩ := List.mem_map.1 (List.mem_of_getLast? h)
  obtain ⟨hmem, hname⟩ := List.mem_filter.1 hmember
  rw [← of_decide_eq_true hname]
  exact hmem

/-- Members whose names are texts and whose values can be kept. -/
def Keepable (limit : Nat) (members : List (Bytes × Json)) : Prop :=
  ∀ member ∈ members, member.1.toText?.isSome ∧ (member.2.canonical? limit).isSome

theorem canonicalMembers?_cons (limit : Nat) (name : Bytes) (j : Json) (members : List (Bytes × Json))
    (before : Ordered.Map Bytes Json) : canonicalMembers? limit ((name, j) :: members) before =
      name.toText?.bind fun _ => (j.canonical? limit).bind fun kept =>
        canonicalMembers? limit members (before.insert name kept) := by
  rw [canonicalMembers?]
  rfl

theorem canonicalMembers?_isSome_iff :
    (canonicalMembers? limit members before).isSome ↔ Keepable limit members := by
  induction members generalizing before with
  | nil => exact iff_of_true rfl (List.forall_mem_nil _)
  | cons member members ih =>
    obtain ⟨name, j⟩ := member
    rw [canonicalMembers?_cons, Keepable, List.forall_mem_cons]
    cases name.toText? with
    | none => simp
    | some text =>
      cases j.canonical? limit with
      | none => simp
      | some kept => exact ih.trans (by simp [Keepable])

theorem canonical?_object (limit : Nat) (members : List (Bytes × Json)) :
    canonical? (limit + 1) (.object members) =
      (canonicalMembers? limit members .empty).map fun layer => .object layer.rows := by
  rw [canonical?]
  simp only [guard, Nat.zero_lt_succ, if_true, Nat.add_one_sub_one, Option.map_eq_bind]
  rfl

/-- Only objects are kept as objects. -/
theorem canonical?_eq_object_iff : j.canonical? (limit + 1) = some (.object members) ↔
    ∃ written layer, j = .object written ∧ canonicalMembers? limit written .empty = some layer ∧
      members = layer.rows := by
  constructor
  · intro h
    cases j with
    | null | bool _ => cases h
    | number _ | string _ =>
      rw [canonical?, Option.map_eq_some_iff] at h
      obtain ⟨_, _, h⟩ := h
      cases h
    | array items =>
      rw [canonical?] at h
      simp only [Option.bind_eq_bind, Option.bind_eq_some_iff] at h
      obtain ⟨_, _, _, _, h⟩ := h
      cases h
    | object written =>
      rw [canonical?_object, Option.map_eq_some_iff] at h
      obtain ⟨layer, hlayer, h⟩ := h
      cases h
      exact ⟨written, layer, rfl, hlayer, rfl⟩
  · rintro ⟨written, layer, rfl, hlayer, rfl⟩
    rw [canonical?_object, hlayer]
    rfl

/-! ## What can be kept -/

theorem eq_ofInt_of_integer? {numeral : Numeral} {n : Int} (h : numeral.integer? = some n) : numeral = .ofInt n := by
  obtain ⟨negative, whole, fraction, exponent⟩ := numeral
  unfold Numeral.integer? at h
  split at h
  · cases h
  · rename_i hwhole
    simp only [not_or, ne_eq, not_not, Bool.not_eq_true, Option.isSome_eq_false_iff, Option.isNone_iff_eq_none]
      at hwhole
    obtain ⟨rfl, rfl⟩ := hwhole
    cases negative with
    | true =>
      rw [if_pos rfl] at h
      split at h
      · cases h
      · rename_i hne
        cases h
        have hneg : -(whole : Int) < 0 := by
          change ¬whole = 0 at hne
          omega
        rw [Numeral.ofInt, Int.natAbs_neg, Int.natAbs_natCast, decide_eq_true hneg]
    | false =>
      cases h
      rw [Numeral.ofInt, decide_eq_false (by omega), Int.natAbs_natCast]

theorem isFinite_of_canonicalNumeral? {numeral : Numeral} (h : (canonicalNumeral? numeral).isSome) :
    isFinite numeral := by
  have hdouble (h : ((toDouble? numeral).map ofDouble).isSome) : isFinite numeral = true := by
    simpa [toDouble?, isFinite] using h
  unfold canonicalNumeral? at h
  split at h
  · rename_i n hinteger
    split at h
    · rename_i hword
      rw [eq_ofInt_of_integer? hinteger]
      refine isFinite_ofInt ?_
      simp only [isWord, Bool.and_eq_true, decide_eq_true_eq] at hword
      have hleast : Int64.minValue.toInt = -2 ^ 63 := by decide
      have hsize : ((UInt64.size : Nat) : Int) = 2 ^ 64 := by decide
      omega
    · exact hdouble h
  · exact hdouble h

mutual

/-- What can be kept can be written, by induction on the document. -/
theorem isIntact_of_canonical? : (j : Json) → (limit : Nat) → (j.canonical? limit).isSome → j.isIntact = true
  | .null, _, _ | .bool _, _, _ => rfl
  | .number numeral, limit, h => by
    rw [canonical?, Option.isSome_map] at h
    exact isFinite_of_canonicalNumeral? h
  | .string bytes, limit, h => by
    rw [canonical?, Option.isSome_map] at h
    exact h
  | .array items, limit, h => by
    refine intactItems_of_canonicalItems? items (limit - 1) ?_
    obtain ⟨kept, h⟩ := Option.isSome_iff_exists.1 h
    rw [canonical?] at h
    simp only [Option.bind_eq_bind, Option.bind_eq_some_iff] at h
    obtain ⟨-, -, found, hfound, -⟩ := h
    rw [hfound]
    rfl
  | .object members, limit, h => by
    refine intactMembers_of_canonicalMembers? members (limit - 1) .empty ?_
    obtain ⟨kept, h⟩ := Option.isSome_iff_exists.1 h
    rw [canonical?] at h
    simp only [Option.bind_eq_bind, Option.bind_eq_some_iff] at h
    obtain ⟨-, -, found, hfound, -⟩ := h
    rw [hfound]
    rfl

theorem intactItems_of_canonicalItems? : (items : List Json) → (limit : Nat) →
    (canonicalItems? limit items).isSome → intactItems items = true
  | [], _, _ => rfl
  | item :: rest, limit, h => by
    obtain ⟨kept, h⟩ := Option.isSome_iff_exists.1 h
    rw [canonicalItems?] at h
    simp only [Option.bind_eq_bind, Option.bind_eq_some_iff] at h
    obtain ⟨first, hitem, found, hrest, -⟩ := h
    rw [intactItems, isIntact_of_canonical? item limit (by rw [hitem]; rfl),
      intactItems_of_canonicalItems? rest limit (by rw [hrest]; rfl)]
    rfl

theorem intactMembers_of_canonicalMembers? : (members : List (Bytes × Json)) → (limit : Nat) →
    (before : Ordered.Map Bytes Json) → (canonicalMembers? limit members before).isSome →
      intactMembers members = true
  | [], _, _, _ => rfl
  | (name, j) :: rest, limit, before, h => by
    obtain ⟨kept, h⟩ := Option.isSome_iff_exists.1 h
    rw [canonicalMembers?_cons] at h
    simp only [Option.bind_eq_some_iff] at h
    obtain ⟨text, hname, found, hfound, hrest⟩ := h
    rw [intactMembers, hname, isIntact_of_canonical? j limit (by rw [hfound]; rfl),
      intactMembers_of_canonicalMembers? rest limit _ (by rw [hrest]; rfl)]
    rfl

end

end ClassDeps.Json
