/-!
# Finite sets in ascending order

A finite set kept as the strictly ascending list of its elements.

## Main definitions

* `Ordered.Set` — elements in ascending order
* `Ordered.Set.insert`, `erase`, `filter` — updates

## Main statements

* `mem_insert`, `mem_erase`, `mem_filter` — what an update does to the elements
* `ext_mem` — sets with the same elements are equal
-/

namespace ClassDeps.Ordered

variable {α : Type} [Ord α]

/-- Puts `x` at its place, unless it is there. -/
def insertElement (x : α) : List α → List α
  | [] => [x]
  | y :: rest =>
    match compare x y with
    | .lt => x :: y :: rest
    | .eq => y :: rest
    | .gt => y :: insertElement x rest

theorem mem_of_mem_insertElement {x a : α} {elements : List α} (h : a ∈ insertElement x elements) :
    a = x ∨ a ∈ elements := by
  induction elements with
  | nil => simpa [insertElement] using h
  | cons y rest ih =>
    unfold insertElement at h
    split at h <;> grind

theorem mem_insertElement [Std.LawfulEqOrd α] {x a : α} {elements : List α} :
    a ∈ insertElement x elements ↔ a = x ∨ a ∈ elements := by
  refine ⟨mem_of_mem_insertElement, fun h => ?_⟩
  induction elements with
  | nil => simpa [insertElement] using h
  | cons y rest ih =>
    unfold insertElement
    split <;> rename_i hc
    · simpa using h
    · have : x = y := Std.LawfulEqCmp.eq_of_compare hc
      grind
    · grind

theorem ascending_insertElement [Std.TransOrd α] (x : α) {elements : List α}
    (h : elements.Pairwise fun a b => compare a b = .lt) :
    (insertElement x elements).Pairwise fun a b => compare a b = .lt := by
  induction elements with
  | nil => simp [insertElement]
  | cons y rest ih =>
    obtain ⟨hy, hrest⟩ := List.pairwise_cons.1 h
    unfold insertElement
    split <;> rename_i hc
    · refine List.Pairwise.cons (fun a ha => ?_) h
      rcases List.mem_cons.1 ha with rfl | ha
      · exact hc
      · exact Std.TransCmp.lt_trans hc (hy a ha)
    · exact h
    · refine List.Pairwise.cons (fun a ha => ?_) (ih hrest)
      rcases mem_of_mem_insertElement ha with rfl | ha
      · exact Std.OrientedCmp.gt_iff_lt.1 hc
      · exact hy a ha

/-- A finite set, its elements in strictly ascending order. -/
structure Set (α : Type) [Ord α] where
  /-- The elements, each once. -/
  elements : List α
  ascending : elements.Pairwise fun a b => compare a b = .lt

namespace Set

/-- The set without elements. -/
def empty : Set α :=
  ⟨[], List.Pairwise.nil⟩

instance : Inhabited (Set α) := ⟨empty⟩

/-- The set with `x` added. -/
def insert [Std.TransOrd α] (s : Set α) (x : α) : Set α :=
  ⟨insertElement x s.elements, ascending_insertElement x s.ascending⟩

/-- The elements that pass the test. -/
def filter (s : Set α) (keep : α → Bool) : Set α :=
  ⟨s.elements.filter keep, s.ascending.filter _⟩

/-- The set without `x`. -/
def erase [DecidableEq α] (s : Set α) (x : α) : Set α :=
  s.filter (· != x)

def size (s : Set α) : Nat :=
  s.elements.length

/-! ## Elements -/

instance : Membership α (Set α) := ⟨fun s x => x ∈ s.elements⟩

theorem mem_elements {s : Set α} {x : α} : x ∈ s.elements ↔ x ∈ s := Iff.rfl

@[simp] theorem not_mem_empty (x : α) : x ∉ (empty : Set α) :=
  List.not_mem_nil

theorem mem_insert [Std.TransOrd α] [Std.LawfulEqOrd α] {s : Set α} {x a : α} :
    a ∈ s.insert x ↔ a = x ∨ a ∈ s :=
  mem_insertElement

theorem mem_filter {s : Set α} {keep : α → Bool} {x : α} :
    x ∈ s.filter keep ↔ x ∈ s ∧ keep x :=
  List.mem_filter

theorem mem_erase [DecidableEq α] {s : Set α} {x a : α} : a ∈ s.erase x ↔ a ∈ s ∧ a ≠ x := by
  simp [erase, mem_filter]

theorem nodup [Std.ReflOrd α] (s : Set α) : s.elements.Nodup :=
  s.ascending.imp fun hlt e => by simp [e, Std.ReflCmp.compare_self] at hlt

/-- Sets with the same elements are equal. -/
theorem ext_mem [Std.TransOrd α] {s t : Set α} (h : ∀ x, x ∈ s ↔ x ∈ t) : s = t := by
  have elements : s.elements = t.elements := by
    refine ((List.perm_ext_iff_of_nodup s.nodup t.nodup).2 h).eq_of_pairwise ?_ s.ascending
      t.ascending
    intro a b _ _ hab hba
    simpa [Std.ReflCmp.compare_self] using Std.TransCmp.lt_trans hab hba
  cases s; cases t; cases elements; rfl

end Set

end ClassDeps.Ordered
