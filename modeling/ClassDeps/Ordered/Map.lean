/-!
# Finite maps in key order

A finite map from keys to values, kept as the list of its rows in strictly ascending key order. A map
has exactly one such list, so two maps with the same rows are equal, and listing a map in key order is
reading the list.

## Main definitions

* `Ordered.Map` — rows in ascending key order
* `Ordered.Map.get?`, `insert`, `erase`, `filter` — look-up and updates

## Main statements

* `get?_insert`, `get?_erase`, `get?_filter` — what an update does to look-up
* `mem_rows`, `mem_keys` — rows and keys by look-up
* `ext_get?` — maps with the same look-up are equal
-/

namespace ClassDeps.Ordered

variable {κ ν : Type} [Ord κ]

/-- Rows `(key, value)` stand in strictly ascending order of their keys. -/
def Ascending (rows : List (κ × ν)) : Prop :=
  rows.Pairwise fun a b => compare a.1 b.1 = .lt

/-- Puts the row `(k, v)` at its place, in the stead of a row with the same key. -/
def insertRow (k : κ) (v : ν) : List (κ × ν) → List (κ × ν)
  | [] => [(k, v)]
  | row :: rest =>
    match compare k row.1 with
    | .lt => (k, v) :: row :: rest
    | .eq => (k, v) :: rest
    | .gt => row :: insertRow k v rest

theorem mem_insertRow {k : κ} {v : ν} {rows : List (κ × ν)} {a : κ × ν}
    (h : a ∈ insertRow k v rows) : a = (k, v) ∨ a ∈ rows := by
  induction rows with
  | nil => simpa [insertRow] using h
  | cons row rest ih =>
    unfold insertRow at h
    split at h <;> grind

theorem ascending_insertRow [Std.TransOrd κ] [Std.LawfulEqOrd κ] (k : κ) (v : ν)
    {rows : List (κ × ν)} (h : Ascending rows) : Ascending (insertRow k v rows) := by
  induction rows with
  | nil => simp [insertRow, Ascending]
  | cons row rest ih =>
    obtain ⟨hrow, hrest⟩ := List.pairwise_cons.1 h
    unfold insertRow
    split <;> rename_i hc
    · refine List.Pairwise.cons (fun a ha => ?_) h
      rcases List.mem_cons.1 ha with rfl | ha
      · exact hc
      · exact Std.TransCmp.lt_trans hc (hrow a ha)
    · have : k = row.1 := Std.LawfulEqCmp.eq_of_compare hc
      exact List.Pairwise.cons (fun a ha => this ▸ hrow a ha) hrest
    · refine List.Pairwise.cons (fun a ha => ?_) (ih hrest)
      rcases mem_insertRow ha with rfl | ha
      · exact Std.OrientedCmp.gt_iff_lt.1 hc
      · exact hrow a ha

/-- A row with a key after all others comes last. -/
theorem insertRow_of_lt [Std.OrientedOrd κ] {k : κ} {v : ν} {rows : List (κ × ν)}
    (h : ∀ row ∈ rows, compare row.1 k = .lt) : insertRow k v rows = rows ++ [(k, v)] := by
  induction rows with
  | nil => rfl
  | cons row rest ih =>
    rw [List.forall_mem_cons] at h
    have hgt : compare k row.1 = .gt := Std.OrientedCmp.gt_iff_lt.2 h.1
    rw [insertRow, hgt, ih h.2]
    rfl

omit [Ord κ] in
theorem lookup_cons [DecidableEq κ] (a : κ) (row : κ × ν) (rest : List (κ × ν)) :
    (row :: rest).lookup a = if a = row.1 then some row.2 else rest.lookup a := by
  obtain ⟨k, v⟩ := row
  rw [List.lookup_cons]
  by_cases h : a = k <;> simp [h, beq_false_of_ne]

theorem lookup_insertRow [Std.LawfulEqOrd κ] [DecidableEq κ] (k a : κ) (v : ν)
    (rows : List (κ × ν)) :
    (insertRow k v rows).lookup a = if a = k then some v else rows.lookup a := by
  induction rows with
  | nil => simp [insertRow, lookup_cons]
  | cons row rest ih =>
    unfold insertRow
    split <;> rename_i hc
    · simp [lookup_cons]
    · have hk : k = row.1 := Std.LawfulEqCmp.eq_of_compare hc
      by_cases h : a = k <;> simp [lookup_cons, ← hk, h]
    · have hk : k ≠ row.1 := fun e => by simp [e, Std.ReflCmp.compare_self] at hc
      by_cases h : a = row.1 <;> simp [lookup_cons, ih, h, Ne.symm hk]

/-- A row is found under its key, because every key stands in one row only. -/
theorem Ascending.lookup_eq_some [Std.ReflOrd κ] [DecidableEq κ] {rows : List (κ × ν)}
    (h : Ascending rows) {k : κ} {v : ν} : rows.lookup k = some v ↔ (k, v) ∈ rows := by
  induction rows with
  | nil => simp
  | cons row rest ih =>
    obtain ⟨hrow, hrest⟩ := List.pairwise_cons.1 h
    by_cases hk : k = row.1
    · have hnot : (k, v) ∉ rest := fun hm => by
        have := hrow _ hm
        simp [hk, Std.ReflCmp.compare_self] at this
      simp [lookup_cons, hk, Prod.ext_iff, eq_comm, hk ▸ hnot]
    · simp [lookup_cons, hk, Prod.ext_iff, ih hrest]

theorem Ascending.nodup [Std.ReflOrd κ] {rows : List (κ × ν)} (h : Ascending rows) : rows.Nodup :=
  h.imp fun hlt e => by simp [e, Std.ReflCmp.compare_self] at hlt

/-- Rows in ascending order are determined by what they contain. -/
theorem Ascending.eq_of_mem_iff [Std.TransOrd κ] {rows others : List (κ × ν)}
    (h : Ascending rows) (h' : Ascending others) (same : ∀ row, row ∈ rows ↔ row ∈ others) :
    rows = others := by
  refine ((List.perm_ext_iff_of_nodup h.nodup h'.nodup).2 same).eq_of_pairwise ?_ h h'
  intro a b _ _ hab hba
  simpa [Std.ReflCmp.compare_self] using Std.TransCmp.lt_trans hab hba

/-- A finite map with its rows in ascending key order. -/
structure Map (κ ν : Type) [Ord κ] where
  /-- The rows, each key once. -/
  rows : List (κ × ν)
  ascending : Ascending rows

namespace Map

/-- The map without rows. -/
def empty : Map κ ν :=
  ⟨[], List.Pairwise.nil⟩

instance : Inhabited (Map κ ν) := ⟨empty⟩

/-- The value under `k`. -/
def get? [DecidableEq κ] (m : Map κ ν) (k : κ) : Option ν :=
  m.rows.lookup k

/-- Whether there is a row with key `k`. -/
def contains [DecidableEq κ] (m : Map κ ν) (k : κ) : Bool :=
  (m.get? k).isSome

/-- The map with `v` under `k`, whatever was there. -/
def insert [Std.TransOrd κ] [Std.LawfulEqOrd κ] (m : Map κ ν) (k : κ) (v : ν) : Map κ ν :=
  ⟨insertRow k v m.rows, ascending_insertRow k v m.ascending⟩

/-- The rows that pass the test. -/
def filter (m : Map κ ν) (keep : κ → ν → Bool) : Map κ ν :=
  ⟨m.rows.filter fun row => keep row.1 row.2, m.ascending.filter _⟩

/-- The map without a row under `k`. -/
def erase [DecidableEq κ] (m : Map κ ν) (k : κ) : Map κ ν :=
  m.filter fun key _ => key != k

/-- The keys in ascending order. -/
def keys (m : Map κ ν) : List κ :=
  m.rows.map Prod.fst

/-- The values in the order of their keys. -/
def values (m : Map κ ν) : List ν :=
  m.rows.map Prod.snd

def size (m : Map κ ν) : Nat :=
  m.rows.length

/-! ## Look-up -/

@[simp] theorem get?_empty [DecidableEq κ] (k : κ) : (empty : Map κ ν).get? k = none := rfl

section LookUp

variable [Std.LawfulEqOrd κ] [DecidableEq κ]

theorem get?_insert [Std.TransOrd κ] (m : Map κ ν) (k a : κ) (v : ν) :
    (m.insert k v).get? a = if a = k then some v else m.get? a :=
  lookup_insertRow k a v m.rows

theorem mem_rows {m : Map κ ν} {k : κ} {v : ν} : (k, v) ∈ m.rows ↔ m.get? k = some v :=
  m.ascending.lookup_eq_some.symm

theorem get?_filter (m : Map κ ν) (keep : κ → ν → Bool) (k : κ) :
    (m.filter keep).get? k = (m.get? k).filter (keep k) := by
  refine Option.ext fun v => ?_
  rw [← mem_rows, Option.filter_eq_some_iff, ← mem_rows, filter, List.mem_filter]

theorem get?_erase (m : Map κ ν) (k a : κ) :
    (m.erase k).get? a = if a = k then none else m.get? a := by
  rw [erase, get?_filter]
  by_cases h : a = k
  · simp [h]
  · cases m.get? a <;> simp [h]

theorem mem_keys {m : Map κ ν} {k : κ} : k ∈ m.keys ↔ m.contains k := by
  simp [keys, contains, Option.isSome_iff_exists, ← mem_rows]

/-- Maps with the same look-up are equal. -/
theorem ext_get? [Std.TransOrd κ] {m n : Map κ ν} (h : ∀ k, m.get? k = n.get? k) : m = n := by
  have rows : m.rows = n.rows :=
    m.ascending.eq_of_mem_iff n.ascending fun row => by rw [mem_rows, mem_rows, h]
  cases m; cases n; cases rows; rfl

/-- Inserting a row that is there changes nothing. -/
theorem insert_eq_self [Std.TransOrd κ] {m : Map κ ν} {k : κ} {v : ν} (h : m.get? k = some v) : m.insert k v = m := by
  refine ext_get? fun a => ?_
  rw [get?_insert]
  split
  · rename_i heq
    rw [heq, h]
  · rfl

/-- Of two values that are inserted under a key the second one stays. -/
theorem insert_insert [Std.TransOrd κ] (m : Map κ ν) (k : κ) (v w : ν) : (m.insert k v).insert k w = m.insert k w := by
  refine ext_get? fun a => ?_
  simp only [get?_insert]
  split
  · rfl
  · rfl

end LookUp

end Map

end ClassDeps.Ordered
