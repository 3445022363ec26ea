import ClassDeps.Proofs.Json.Intact

/-!
# Layouts of written documents

A layout is a written document together with what its reader makes of members that are missing: whether they have a
default, and whether their value is that default. The reader of an object knows all members of its layout and no
others.

## Main definitions

* `Presence` — what it means that a member is missing
* `Layout`, `Slot` — a document with the presence of its members
* `Layout.toJson` — the document that is written
* `Layout.isDistinct` — all members of an object have different names
* `listSlot`, `optionalSlot`, `alternativeLayout` — members with usual defaults, and objects that name their alternative

## Main statements

* `toJson_list`, `slotsToJson_listSlot`, … — what is written by forms
* `isDistinct_list`, `isDistinct_alternativeLayout`, … — layouts that are made of others
-/

namespace ClassDeps.Json

/-- What it means that a member of a written object is missing. -/
inductive Presence where
  /-- It has no default: without it, the object cannot be read. -/
  | needed
  /-- It has a default, and its value is another one. -/
  | telling
  /-- It has a default, and that is its value. -/
  | idle
  /-- It has a default, which is written by leaving the member out. -/
  | unwritten
  deriving DecidableEq

/-- The presence of a member that has a default: whether its value is the default decides. -/
def Presence.ofDefault (p : Prop) [Decidable p] : Presence :=
  if p then idle else telling

/-- A document with the presence of all members of its objects. The members of an object are all that its reader
knows, in the order in which they are written. -/
inductive Layout where
  | leaf (j : Json)
  | list (items : List Layout)
  | record (slots : List (String × Presence × Layout))

/-- A member that a reader knows: its name, its presence and the layout of its value. -/
abbrev Slot := String × Presence × Layout

namespace Layout

mutual

/-- The document that is written. -/
def toJson : Layout → Json
  | leaf j => j
  | list items => .array (itemsToJson items)
  | record slots => .record (slotsToJson slots)

def itemsToJson : List Layout → List Json
  | [] => []
  | item :: rest => item.toJson :: itemsToJson rest

def slotsToJson : List Slot → List (String × Json)
  | [] => []
  | (name, presence, layout) :: rest =>
    if presence = .unwritten then slotsToJson rest else (name, layout.toJson) :: slotsToJson rest

end

mutual

/-- All members of an object have different names. -/
def isDistinct : Layout → Bool
  | leaf _ => true
  | list items => areDistinct items
  | record slots => (slots.map Prod.fst).Nodup && slotsDistinct slots

def areDistinct : List Layout → Bool
  | [] => true
  | item :: rest => item.isDistinct && areDistinct rest

def slotsDistinct : List Slot → Bool
  | [] => true
  | (_, _, layout) :: rest => layout.isDistinct && slotsDistinct rest

end

end Layout

variable {α : Type}

/-- The slot of a list that is empty by default. -/
def listSlot (name : String) (layout : α → Layout) (xs : List α) : Slot :=
  (name, .ofDefault (xs = []), .list (xs.map layout))

/-- The slot of a value that may be absent. -/
def optionalSlot (name : String) (layout : α → Layout) (value : Option α) : Slot :=
  (name, value.elim (.unwritten, .leaf .null) fun x => (.telling, layout x))

/-- The layout of an alternative with content. -/
def alternativeLayout (type : String) (content : Layout) : Layout :=
  .record [("type", .needed, .leaf (.ofText type)), ("value", .needed, content)]

/-! ## What is written -/

theorem Presence.ofDefault_ne_unwritten (p : Prop) [Decidable p] : Presence.ofDefault p ≠ .unwritten := by
  rw [ofDefault]
  split <;> decide

namespace Layout

theorem forall_mem_slotsToJson_cons {name : String} {presence : Presence} {layout : Layout}
    {slots : List Slot} {p : Json → Prop} :
    (∀ member ∈ slotsToJson ((name, presence, layout) :: slots), p member.2) ↔
      (presence ≠ .unwritten → p layout.toJson) ∧ ∀ member ∈ slotsToJson slots, p member.2 := by
  rw [slotsToJson]
  split
  · rename_i hunwritten
    exact (and_iff_right fun hwritten => absurd hunwritten hwritten).symm
  · rename_i hwritten
    rw [List.forall_mem_cons, forall_prop_of_true hwritten]

theorem slotsToJson_needed (name : String) (layout : Layout) (slots : List Slot) :
    slotsToJson ((name, .needed, layout) :: slots) = (name, layout.toJson) :: slotsToJson slots :=
  if_neg (by decide)

theorem slotsToJson_ofDefault (name : String) (p : Prop) [Decidable p] (layout : Layout)
    (slots : List Slot) :
    slotsToJson ((name, .ofDefault p, layout) :: slots) = (name, layout.toJson) :: slotsToJson slots :=
  if_neg (Presence.ofDefault_ne_unwritten p)

theorem itemsToJson_eq (items : List Layout) : itemsToJson items = items.map toJson := by
  induction items with
  | nil => rfl
  | cons item rest ih => rw [itemsToJson, ih, List.map_cons]

theorem toJson_list {form : Form α} {layout : α → Layout} (h : ∀ x, (layout x).toJson = form.write x)
    (xs : List α) : (Layout.list (xs.map layout)).toJson = (Form.list form).write xs := by
  have hitems : toJson ∘ layout = form.write := funext h
  rw [toJson, itemsToJson_eq, List.map_map, hitems, Form.list]

theorem slotsToJson_listSlot {form : Form α} {layout : α → Layout} (h : ∀ x, (layout x).toJson = form.write x)
    (name : String) (xs : List α) (slots : List Slot) :
    slotsToJson (listSlot name layout xs :: slots) = (name, (Form.list form).write xs) :: slotsToJson slots := by
  rw [listSlot, slotsToJson_ofDefault, toJson_list h]

/-! ## Different names -/

theorem areDistinct_iff {items : List Layout} : areDistinct items = true ↔ ∀ item ∈ items, item.isDistinct := by
  induction items with
  | nil => simp [areDistinct]
  | cons item rest ih => rw [areDistinct, Bool.and_eq_true, ih, List.forall_mem_cons]

theorem slotsDistinct_iff {slots : List Slot} :
    slotsDistinct slots = true ↔ ∀ slot ∈ slots, slot.2.2.isDistinct := by
  induction slots with
  | nil => simp [slotsDistinct]
  | cons slot rest ih => rw [slotsDistinct, Bool.and_eq_true, ih, List.forall_mem_cons]

theorem isDistinct_record {slots : List Slot} :
    (Layout.record slots).isDistinct = true ↔
      (slots.map Prod.fst).Nodup ∧ ∀ slot ∈ slots, slot.2.2.isDistinct := by
  rw [isDistinct, Bool.and_eq_true, decide_eq_true_eq, slotsDistinct_iff]

theorem isDistinct_list {layout : α → Layout} {xs : List α} (h : ∀ x ∈ xs, (layout x).isDistinct) :
    (Layout.list (xs.map layout)).isDistinct = true := by
  rw [isDistinct, areDistinct_iff, List.forall_mem_map]
  exact h

theorem isDistinct_alternativeLayout {type : String} {content : Layout} (h : content.isDistinct) :
    (alternativeLayout type content).isDistinct = true := by
  simp [alternativeLayout, isDistinct, slotsDistinct, h]

end Layout

end ClassDeps.Json
