import ClassDeps.Json.Codec
import ClassDeps.Ordered.Map
import ClassDeps.Proofs.Json.Nesting
import ClassDeps.Proofs.Json.Reading
import Mathlib.Logic.Basic

/-!
# Forms that read back what they write

A form is exact if it reads what it writes as the same value, within every limit that the written document keeps
to and within no other. Then the depth of the written document decides whether a value can be stored and read.

## Main definitions

* `Gives` — a reader gives a value under a condition
* `Form.Exact` — a form reads back what it writes, up to the limit

## Main statements

* `Gives.bind` — readers one after the other
* `Form.exact_int32`, `exact_text`, … — the basic forms are exact
* `Form.Exact.list`, `Form.Exact.nullable` — so are lists and optional values
* `Form.Exact.ofBytes?_toBytes`, `Form.Exact.toBytes_injective` — the bytes of values
* `members?_record`, `Gives.required`, `Gives.defaulted` — the members of a written record
-/

namespace ClassDeps.Json

variable {α β : Type}

/-! ## Readers that succeed under a condition -/

/-- A reader gives a value exactly if a condition holds, and it never gives another one. -/
def Gives (read : Option α) (p : Prop) (x : α) : Prop :=
  ∀ y, read = some y ↔ p ∧ x = y

namespace Gives

variable {read : Option α} {p q : Prop} {x : α}

theorem pure (x : α) : Gives (Pure.pure x) True x := by
  intro y
  rw [true_and, Option.pure_def, Option.some.injEq]

theorem of_eq (h : read = some x) : Gives read True x := by
  rw [h]
  exact pure x

theorem of_none (hread : read = none) (hp : ¬p) : Gives read p x := by
  intro y
  rw [hread]
  exact iff_of_false (Option.some_ne_none y).symm fun h => hp h.1

theorem congr (h : Gives read p x) (hq : q ↔ p) : Gives read q x := by
  intro y
  rw [h y, hq]

theorem of_eq_ite [Decidable p] (h : read = if p then some x else none) : Gives read p x := by
  intro y
  rw [h]
  by_cases hp : p <;> simp [hp]

/-- The conditions of two steps are put together. -/
theorem bind {f : α → Option β} {y : β} (h : Gives read p x) (hf : Gives (f x) q y) :
    Gives (read >>= f) (p ∧ q) y := by
  intro z
  rw [Option.bind_eq_bind, Option.bind_eq_some_iff]
  constructor
  · rintro ⟨a, hread, hnext⟩
    obtain ⟨hp, rfl⟩ := (h a).1 hread
    obtain ⟨hq, hz⟩ := (hf z).1 hnext
    exact ⟨⟨hp, hq⟩, hz⟩
  · rintro ⟨⟨hp, hq⟩, hz⟩
    exact ⟨x, (h x).2 ⟨hp, rfl⟩, (hf z).2 ⟨hq, hz⟩⟩

theorem map (h : Gives read p x) (f : α → β) : Gives (read.map f) p (f x) := by
  intro y
  rw [Option.map_eq_some_iff]
  constructor
  · rintro ⟨a, hread, rfl⟩
    obtain ⟨hp, rfl⟩ := (h a).1 hread
    exact ⟨hp, rfl⟩
  · rintro ⟨hp, rfl⟩
    exact ⟨x, (h x).2 ⟨hp, rfl⟩, rfl⟩

theorem eq_ite [Decidable q] (h : Gives read p x) (hq : q ↔ p) : read = if q then some x else none := by
  refine Option.ext fun y => ?_
  rw [h y, ← hq]
  by_cases hq : q <;> simp [hq]

end Gives

theorem mapM_map_ite {read : β → Option α} {write : α → β} {p : β → Prop} [DecidablePred p] {xs : List α}
    (h : ∀ x ∈ xs, read (write x) = if p (write x) then some x else none) :
    (xs.map write).mapM read = if ∀ x ∈ xs, p (write x) then some xs else none := by
  induction xs with
  | nil => simp
  | cons x xs ih =>
    have hx := Gives.of_eq_ite (h x List.mem_cons_self)
    have hxs := Gives.of_eq_ite (ih fun y hy => h y (List.mem_cons_of_mem x hy))
    rw [List.map_cons, List.mapM_cons]
    exact Gives.eq_ite (.bind hx (.bind hxs (.pure (x :: xs)))) (by simp)

/-! ## Exact forms -/

/-- A form is exact if it reads back what it writes within a limit exactly if that keeps to the limit. -/
def Form.Exact (form : Form α) : Prop :=
  ∀ (source : Source) (limit : Nat) (x : α),
    form.read? source limit (form.write x) = if (form.write x).depth ≤ limit then some x else none

namespace Form

theorem Exact.gives {form : Form α} (h : form.Exact) (source : Source) (limit : Nat) (x : α) :
    Gives (form.read? source limit (form.write x)) ((form.write x).depth ≤ limit) x :=
  .of_eq_ite (h source limit x)

/-- The bytes of a document stand for what the document stands for. -/
theorem ofBytes?_toBytes (form : Form α) (j : Json) : form.ofBytes? j.toBytes = form.ofJson? j := by
  rw [ofBytes?, Json.ofBytes?_toBytes]
  rfl

/-- The bytes of a value are read back exactly if its document keeps to the limit of readers. -/
theorem Exact.ofBytes?_toBytes {form : Form α} (h : form.Exact) (x : α) :
    form.ofBytes? (form.toBytes x) = if (form.write x).depth ≤ depthLimit then some x else none :=
  (form.ofBytes?_toBytes (form.write x)).trans (h .text depthLimit x)

/-- An exact form writes different values differently, however deep they nest. -/
theorem Exact.toBytes_injective {form : Form α} (h : form.Exact) {x y : α}
    (heq : form.toBytes x = form.toBytes y) : x = y := by
  have hwrite : form.write x = form.write y := Json.toBytes_injective heq
  have hx := h .text (form.write x).depth x
  rw [if_pos (Nat.le_refl _), hwrite, h, if_pos (Nat.le_refl _)] at hx
  exact (Option.some.inj hx).symm

/-- A form that writes leaves is exact if it reads them back. -/
theorem exact_of_leaf {form : Form α} (hdepth : ∀ x, (form.write x).depth = 0)
    (hread : ∀ source limit x, form.read? source limit (form.write x) = some x) : form.Exact := by
  intro source limit x
  rw [hread, hdepth, if_pos (Nat.zero_le limit)]

theorem integer?_ofInt {least greatest n : Int} (hleast : least ≤ n) (hgreatest : n ≤ greatest) :
    integer? least greatest (.ofInt n) = some n := by
  simp [integer?, hleast, hgreatest]

theorem exact_int32 : int32.Exact := by
  refine exact_of_leaf (fun n => depth_ofInt n.toInt) fun source limit n => ?_
  have hread := integer?_ofInt n.minValue_le_toInt n.toInt_le
  simp only [int32, hread, Option.map_some, Int32.ofInt_toInt]

theorem exact_int64 : int64.Exact := by
  refine exact_of_leaf (fun n => depth_ofInt n.toInt) fun source limit n => ?_
  have hread := integer?_ofInt n.minValue_le_toInt n.toInt_le
  simp only [int64, hread, Option.map_some, Int64.ofInt_toInt]

theorem exact_uint32 : uint32.Exact := by
  refine exact_of_leaf (fun n => depth_ofInt n.toNat) fun source limit n => ?_
  have hsize := n.toNat_lt
  have hread : integer? 0 (UInt32.size - 1) (.ofInt n.toNat) = some (n.toNat : Int) :=
    integer?_ofInt (by omega) (by simp only [UInt32.size]; omega)
  simp only [uint32, hread, Option.map_some, Int.toNat_natCast, UInt32.ofNat_toNat]

theorem exact_uint64 : uint64.Exact := by
  refine exact_of_leaf (fun n => depth_ofInt n.toNat) fun source limit n => ?_
  have hsize := n.toNat_lt
  have hread : integer? 0 (UInt64.size - 1) (.ofInt n.toNat) = some (n.toNat : Int) :=
    integer?_ofInt (by omega) (by simp only [UInt64.size]; omega)
  simp only [uint64, hread, Option.map_some, Int.toNat_natCast, UInt64.ofNat_toNat]

theorem exact_boolean : boolean.Exact :=
  exact_of_leaf depth_bool fun _ _ _ => rfl

theorem exact_text : text.Exact :=
  exact_of_leaf depth_ofText fun _ _ s => text?_ofText s

theorem exact_character : character.Exact := by
  refine exact_of_leaf (fun c => depth_ofText (.singleton c)) fun source limit c => ?_
  simp [character]

theorem Exact.list {item : Form α} (h : item.Exact) : (Form.list item).Exact := by
  intro source limit xs
  cases limit with
  | zero => exact (if_neg (not_depth_array_le_zero _)).symm
  | succ limit =>
    simp only [Form.list, depth_array_le, List.forall_mem_map]
    exact mapM_map_ite (p := fun j : Json => j.depth ≤ limit) fun x _ => h source limit x

theorem Exact.nullable {value : Form α} (h : value.Exact) (hnull : ∀ x, value.write x ≠ .null) :
    (Form.nullable value).Exact := by
  intro source limit x
  cases x with
  | none => simp [Form.nullable]
  | some x =>
    -- A value that wrote `null` would be read as absent.
    have hread : (Form.nullable value).read? source limit (value.write x) =
        (value.read? source limit (value.write x)).map some := by
      simp only [Form.nullable]
      split
      · rename_i heq
        exact absurd heq (hnull x)
      · rfl
    have hwrite : (Form.nullable value).write (some x) = value.write x := rfl
    rw [hwrite, hread, h, Option.map_if]

end Form

/-! ## Members of written records -/

theorem named?_record (members : List (String × Json)) :
    named? (members.map fun member => (Bytes.ofText member.1, member.2)) = some members := by
  induction members with
  | nil => rfl
  | cons member members ih =>
    rw [named?] at ih ⊢
    simp [List.mapM_cons, ih]

/-- A written record has its members, if they have different names which the reader knows. -/
theorem members?_record {names : List String} {members : List (String × Json)}
    (hknown : ∀ member ∈ members, member.1 ∈ names) (hnodup : (members.map Prod.fst).Nodup) :
    members? names (record members) = some members := by
  have hfilter : members.filter (fun member => names.contains member.1) = members :=
    List.filter_eq_self.2 fun member h => List.contains_iff_mem.2 (hknown member h)
  simp only [members?, record, named?_record, Option.bind_eq_bind, Option.bind_some, hfilter, guard,
    if_pos hnodup, Option.pure_def]

theorem lookup_of_mem {members : List (String × Json)} {name : String} {j : Json}
    (hnodup : (members.map Prod.fst).Nodup) (h : (name, j) ∈ members) : members.lookup name = some j := by
  induction members with
  | nil => exact absurd h List.not_mem_nil
  | cons member members ih =>
    rw [List.map_cons, List.nodup_cons] at hnodup
    rw [Ordered.lookup_cons]
    obtain rfl | h := List.mem_cons.1 h
    · exact if_pos rfl
    · have hne : name ≠ member.1 := fun heq => hnodup.1 (heq ▸ List.mem_map_of_mem h)
      rw [if_neg hne, ih hnodup.2 h]

theorem Gives.required {members : List (String × Json)} {name : String} {j : Json} {p : Prop} {x : α}
    {read? : Json → Option α} (h : Gives (read? j) p x) (hnodup : (members.map Prod.fst).Nodup)
    (hmem : (name, j) ∈ members) : Gives (required? members name read?) p x := by
  rw [required?, lookup_of_mem hnodup hmem, Option.bind_some]
  exact h

theorem Gives.defaulted {members : List (String × Json)} {name : String} {j : Json} {p : Prop} {x : α}
    {read? : Json → Option α} (h : Gives (read? j) p x) (hnodup : (members.map Prod.fst).Nodup)
    (hmem : (name, j) ∈ members) (default : α) : Gives (defaulted? members name default read?) p x := by
  rw [defaulted?, lookup_of_mem hnodup hmem]
  exact h

theorem defaulted?_of_not_mem {members : List (String × Json)} {name : String}
    (h : name ∉ members.map Prod.fst) (default : α) (read? : Json → Option α) :
    defaulted? members name default read? = some default := by
  have hlookup : members.lookup name = none := by
    rw [List.lookup_eq_none_iff]
    intro member hmember
    have hne : name ≠ member.1 := fun heq => h (heq ▸ List.mem_map_of_mem hmember)
    simpa using hne
  rw [defaulted?, hlookup]

/-! ## Names of alternatives -/

theorem variant?_ofText (source : Source) (limit : Nat) (name : String) :
    variant? source limit (.ofText name) = some name := by
  cases limit <;> simp [variant?, ofText, text?]

theorem name?_ofText (names : List String) (source : Source) (name : String) :
    name? names source (.ofText name) = some name := by
  cases source <;> simp [name?, ofText, integer?, text?]

end ClassDeps.Json
