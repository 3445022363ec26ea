import ClassDeps.Proofs.Decimal.Range
import ClassDeps.Proofs.Json.Exact
import Mathlib.Tactic.Tauto

/-!
# Documents that can be kept

A document is kept before it is read where the name of an alternative is not known yet. That looks at all of it:
strings must be texts, numbers must be in range, and arrays and objects must nest within the limit. What the forms
write has texts and numbers in range only, so that its depth alone decides whether it can be kept.

## Main definitions

* `Json.isIntact` — all strings are texts and all numbers are in range
* `Form.Intact` — a form that writes such documents

## Main statements

* `Json.sound_iff` — a document can be kept if it is intact and nests within the limit
* `Json.sound_record_succ` — an object can be kept if its members can within one level less
* `Form.intact_int64`, `Form.Intact.list`, … — forms that write intact documents
-/

namespace ClassDeps.Json

mutual

/-- All strings and names are texts, and all numbers are in range. -/
def isIntact : Json → Bool
  | .null | .bool _ => true
  | .number numeral => isFinite numeral
  | .string bytes => bytes.toText?.isSome
  | .array items => intactItems items
  | .object members => intactMembers members

def intactItems : List Json → Bool
  | [] => true
  | item :: rest => item.isIntact && intactItems rest

def intactMembers : List (Bytes × Json) → Bool
  | [] => true
  | (name, value) :: rest => name.toText?.isSome && value.isIntact && intactMembers rest

end

mutual

/-- By induction on the document; a level of it is one of the limit. -/
theorem sound_iff : (j : Json) → (limit : Nat) →
    (j.sound limit = true ↔ j.isIntact = true ∧ j.depth ≤ limit)
  | .null, limit | .bool _, limit | .number _, limit | .string _, limit => by
    simp [sound, isIntact, depth]
  | .array items, 0 => by simp [sound, depth]
  | .object members, 0 => by simp [sound, depth]
  | .array items, limit + 1 => by
    rw [isIntact, depth, Nat.add_le_add_iff_right, ← soundItems_iff items limit]
    simp [sound]
  | .object members, limit + 1 => by
    rw [isIntact, depth, Nat.add_le_add_iff_right, ← soundMembers_iff_intact members limit]
    simp [sound]

theorem soundItems_iff : (items : List Json) → (limit : Nat) →
    (soundItems limit items = true ↔ intactItems items = true ∧ itemsDepth items ≤ limit)
  | [], limit => by simp [soundItems, intactItems, itemsDepth]
  | item :: rest, limit => by
    simp only [soundItems, intactItems, itemsDepth, Bool.and_eq_true, Nat.max_le, sound_iff item limit,
      soundItems_iff rest limit]
    tauto

theorem soundMembers_iff_intact : (members : List (Bytes × Json)) → (limit : Nat) →
    (soundMembers limit members = true ↔ intactMembers members = true ∧ membersDepth members ≤ limit)
  | [], limit => by simp [soundMembers, intactMembers, membersDepth]
  | (name, value) :: rest, limit => by
    simp only [soundMembers, intactMembers, membersDepth, Bool.and_eq_true, Nat.max_le, sound_iff value limit,
      soundMembers_iff_intact rest limit]
    tauto

end

theorem intactItems_iff {items : List Json} : intactItems items = true ↔ ∀ item ∈ items, item.isIntact := by
  induction items with
  | nil => simp [intactItems]
  | cons item rest ih => rw [intactItems, Bool.and_eq_true, ih, List.forall_mem_cons]

theorem intactMembers_iff {members : List (Bytes × Json)} :
    intactMembers members = true ↔ ∀ member ∈ members, member.1.toText?.isSome ∧ member.2.isIntact := by
  induction members with
  | nil => simp [intactMembers]
  | cons member rest ih => rw [intactMembers, Bool.and_eq_true, Bool.and_eq_true, ih, List.forall_mem_cons]

@[simp] theorem isIntact_array {items : List Json} :
    isIntact (.array items) = true ↔ ∀ item ∈ items, item.isIntact := by
  rw [isIntact, intactItems_iff]

/-- The names of a record are texts anyway. -/
@[simp] theorem isIntact_record {members : List (String × Json)} :
    (record members).isIntact = true ↔ ∀ member ∈ members, member.2.isIntact := by
  rw [record, isIntact, intactMembers_iff, List.forall_mem_map]
  simp

@[simp] theorem isIntact_ofText (s : String) : (ofText s).isIntact = true := by
  simp [ofText, isIntact]

theorem isIntact_ofInt {n : Int} (h : n.natAbs < 2 ^ 64) : (ofInt n).isIntact = true :=
  isFinite_ofInt h

theorem sound_array_succ {items : List Json} {limit : Nat} :
    sound (limit + 1) (.array items) = true ↔ ∀ item ∈ items, item.sound limit := by
  simp only [sound_iff, isIntact_array, depth_array_le, forall_and]

theorem not_sound_array_zero (items : List Json) : ¬ sound 0 (.array items) = true :=
  fun h => not_depth_array_le_zero items ((sound_iff _ _).1 h).2

theorem sound_record_succ {members : List (String × Json)} {limit : Nat} :
    (record members).sound (limit + 1) = true ↔ ∀ member ∈ members, member.2.sound limit := by
  simp only [sound_iff, isIntact_record, depth_record_le, forall_and]

theorem not_sound_record_zero (members : List (String × Json)) : ¬ (record members).sound 0 = true :=
  fun h => not_depth_record_le_zero members ((sound_iff _ _).1 h).2

namespace Form

variable {α : Type}

/-- A form that writes texts and numbers in range only. -/
def Intact (form : Form α) : Prop :=
  ∀ x, (form.write x).isIntact = true

theorem intact_int32 : int32.Intact := by
  intro n
  have hle := n.le_toInt
  have hlt := n.toInt_lt
  exact isIntact_ofInt (by omega)

theorem intact_int64 : int64.Intact := by
  intro n
  have hle := n.le_toInt
  have hlt := n.toInt_lt
  exact isIntact_ofInt (by omega)

theorem intact_uint32 : uint32.Intact := by
  intro n
  have hlt := n.toNat_lt
  exact isIntact_ofInt (by omega)

theorem intact_uint64 : uint64.Intact := by
  intro n
  have hlt := n.toNat_lt
  exact isIntact_ofInt (by omega)

theorem intact_boolean : boolean.Intact :=
  fun _ => rfl

theorem intact_text : text.Intact :=
  isIntact_ofText

theorem intact_character : character.Intact :=
  fun c => isIntact_ofText (.singleton c)

theorem Intact.list {item : Form α} (h : item.Intact) : (Form.list item).Intact := by
  intro xs
  rw [Form.list, isIntact_array, List.forall_mem_map]
  exact fun x _ => h x

theorem Intact.nullable {value : Form α} (h : value.Intact) : (Form.nullable value).Intact := by
  intro x
  cases x with
  | none => rfl
  | some x => exact h x

end Form

end ClassDeps.Json
