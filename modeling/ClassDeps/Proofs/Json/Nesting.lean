import ClassDeps.Json.Form

/-!
# How deep documents nest

Readers accept a document only if its arrays and objects nest within a limit. The depth of a document is the
least limit that suffices for it.

## Main definitions

* `Json.depth` — how many arrays and objects stand inside each other

## Main statements

* `depth_array_le`, `depth_object_le`, `depth_record_le` — a limit for a document is one more than a limit for
  what it holds
-/

namespace ClassDeps.Json

mutual

/-- How many arrays and objects stand inside each other. -/
def depth : Json → Nat
  | .array items => itemsDepth items + 1
  | .object members => membersDepth members + 1
  | _ => 0

/-- The depth of the deepest item. -/
def itemsDepth : List Json → Nat
  | [] => 0
  | item :: rest => max item.depth (itemsDepth rest)

/-- The depth of the deepest member. -/
def membersDepth : List (Bytes × Json) → Nat
  | [] => 0
  | (_, value) :: rest => max value.depth (membersDepth rest)

end

@[simp] theorem depth_null : depth .null = 0 := rfl

@[simp] theorem depth_bool (b : Bool) : depth (.bool b) = 0 := rfl

@[simp] theorem depth_string (bytes : Bytes) : depth (.string bytes) = 0 := rfl

@[simp] theorem depth_ofText (s : String) : (ofText s).depth = 0 := rfl

@[simp] theorem depth_ofInt (n : Int) : (ofInt n).depth = 0 := rfl

theorem itemsDepth_le {items : List Json} {limit : Nat} :
    itemsDepth items ≤ limit ↔ ∀ item ∈ items, item.depth ≤ limit := by
  induction items with
  | nil => simp [itemsDepth]
  | cons item rest ih => rw [itemsDepth, Nat.max_le, ih, List.forall_mem_cons]

theorem membersDepth_le {members : List (Bytes × Json)} {limit : Nat} :
    membersDepth members ≤ limit ↔ ∀ member ∈ members, member.2.depth ≤ limit := by
  induction members with
  | nil => simp [membersDepth]
  | cons member rest ih => rw [membersDepth, Nat.max_le, ih, List.forall_mem_cons]

@[simp] theorem depth_array_le {items : List Json} {limit : Nat} :
    depth (.array items) ≤ limit + 1 ↔ ∀ item ∈ items, item.depth ≤ limit := by
  rw [depth, Nat.add_le_add_iff_right, itemsDepth_le]

@[simp] theorem depth_object_le {members : List (Bytes × Json)} {limit : Nat} :
    depth (.object members) ≤ limit + 1 ↔ ∀ member ∈ members, member.2.depth ≤ limit := by
  rw [depth, Nat.add_le_add_iff_right, membersDepth_le]

@[simp] theorem depth_record_le {members : List (String × Json)} {limit : Nat} :
    (record members).depth ≤ limit + 1 ↔ ∀ member ∈ members, member.2.depth ≤ limit := by
  rw [record, depth_object_le, List.forall_mem_map]

theorem not_depth_array_le_zero (items : List Json) : ¬ depth (.array items) ≤ 0 := by
  simp [depth]

theorem not_depth_object_le_zero (members : List (Bytes × Json)) :
    ¬ depth (.object members) ≤ 0 := by
  simp [depth]

theorem not_depth_record_le_zero (members : List (String × Json)) :
    ¬ (record members).depth ≤ 0 :=
  not_depth_object_le_zero _

end ClassDeps.Json
