import ClassDeps.Symbols.Table
import Mathlib.Data.List.Nodup

/-!
# Numbers of names

A table that grows keeps the numbers of the names that it has, and every name that it has can be read off its
number again. What interning a list of names does to a table is to add those that are new at the end.

## Main definitions

* `SymbolTable.number`, `optionalNumber` — the number of a name
* `SymbolTable.extend` — the table with the names of a list added

## Main statements

* `SymbolTable.intern_eq_ok`, `eq_add_of_intern` — interning succeeds if there is room, and what it gives
* `SymbolTable.number_of_le` — a table that grows keeps its numbers
* `SymbolTable.symbol?_number`, `resolve_number` — a number is read back as its name
-/

namespace ClassDeps.SymbolTable

/-- The number of a name that is in the table, and the number of what is absent for any other name. -/
def number (t : SymbolTable) (name : String) : SymbolId :=
  (t.id? name).getD .absent

/-- The number of a name that may be absent. -/
def optionalNumber (t : SymbolTable) (name : Option String) : SymbolId :=
  name.elim .absent t.number

/-- The table with a name added at the end if it is new. -/
def add (t : SymbolTable) (name : String) : SymbolTable :=
  if name ∈ t.symbols then t else ⟨t.symbols ++ [name], true⟩

/-- The table with the names of a list added in their order. -/
def extend (t : SymbolTable) (names : List String) : SymbolTable :=
  names.foldl add t

/-- A table has grown to another one if that continues its list of names. -/
instance : LE SymbolTable := ⟨fun t u => t.symbols <+: u.symbols⟩

variable {t u v : SymbolTable} {name : String} {names : List String}

/-! ## Growth -/

theorem le_refl (t : SymbolTable) : t ≤ t :=
  List.prefix_refl t.symbols

theorem le_trans (h : t ≤ u) (h' : u ≤ v) : t ≤ v :=
  List.IsPrefix.trans h h'

theorem mem_of_le (h : t ≤ u) (hmem : name ∈ t.symbols) : name ∈ u.symbols :=
  List.IsPrefix.subset h hmem

theorem size_le_of_le (h : t ≤ u) : t.size ≤ u.size :=
  List.IsPrefix.length_le h

theorem le_add (t : SymbolTable) (name : String) : t ≤ t.add name := by
  unfold add
  split
  · exact le_refl t
  · exact List.prefix_append t.symbols [name]

@[simp] theorem extend_nil (t : SymbolTable) : t.extend [] = t := rfl

@[simp] theorem extend_cons (t : SymbolTable) (name : String) (names : List String) :
    t.extend (name :: names) = (t.add name).extend names := rfl

theorem extend_append (t : SymbolTable) (names others : List String) :
    t.extend (names ++ others) = (t.extend names).extend others :=
  List.foldl_append

/-- New names that are pairwise different are all added. -/
theorem symbols_extend (h : (t.symbols ++ names).Nodup) : (t.extend names).symbols = t.symbols ++ names := by
  induction names generalizing t with
  | nil => exact (List.append_nil _).symm
  | cons name names ih =>
    have hnew : name ∉ t.symbols := fun hmem => (List.nodup_append.1 h).2.2 _ hmem _ List.mem_cons_self rfl
    have hadd : (t.add name).symbols = t.symbols ++ [name] := by rw [add, if_neg hnew]
    rw [extend_cons, ih (by rwa [hadd, List.append_assoc, List.singleton_append]), hadd, List.append_assoc,
      List.singleton_append]

theorem le_extend (t : SymbolTable) (names : List String) : t ≤ t.extend names := by
  induction names generalizing t with
  | nil => exact le_refl t
  | cons name names ih => exact le_trans (le_add t name) (ih (t.add name))

theorem mem_add {other : String} : other ∈ (t.add name).symbols ↔ other ∈ t.symbols ∨ other = name := by
  unfold add
  split
  · rename_i hmem
    exact ⟨.inl, fun h => h.elim id fun heq => heq ▸ hmem⟩
  · simp

theorem mem_extend {other : String} :
    other ∈ (t.extend names).symbols ↔ other ∈ t.symbols ∨ other ∈ names := by
  induction names generalizing t with
  | nil => simp
  | cons name names ih => rw [extend_cons, ih, mem_add, List.mem_cons, or_assoc]

theorem nodup_add (h : t.symbols.Nodup) (name : String) : (t.add name).symbols.Nodup := by
  unfold add
  split
  · exact h
  · rename_i hnew
    exact List.concat_eq_append ▸ h.concat hnew

theorem nodup_extend (h : t.symbols.Nodup) (names : List String) : (t.extend names).symbols.Nodup := by
  induction names generalizing t with
  | nil => exact h
  | cons name names ih => exact ih (nodup_add h name)

/-- A table gets the new ones of some names, each of them once. -/
theorem exists_added (t : SymbolTable) (names : List String) :
    ∃ added, (t.extend names).symbols = t.symbols ++ added ∧ added.Nodup ∧
      ∀ name, name ∈ added ↔ name ∈ names ∧ name ∉ t.symbols := by
  induction names generalizing t with
  | nil => exact ⟨[], (List.append_nil _).symm, List.nodup_nil, by simp⟩
  | cons first names ih =>
    obtain ⟨added, hsymbols, hnodup, hmem⟩ := ih (t.add first)
    by_cases hold : first ∈ t.symbols
    · have hadd : t.add first = t := if_pos hold
      rw [hadd] at hsymbols hmem
      refine ⟨added, by rw [extend_cons, hadd, hsymbols], hnodup, fun name => ?_⟩
      rw [hmem, List.mem_cons]
      exact ⟨fun h => ⟨.inr h.1, h.2⟩, fun h => ⟨h.1.resolve_left fun heq => h.2 (heq ▸ hold), h.2⟩⟩
    · have hadd : (t.add first).symbols = t.symbols ++ [first] := by rw [add, if_neg hold]
      have hnot : first ∉ added := fun h => ((hmem first).1 h).2 (mem_add.2 (.inr rfl))
      refine ⟨first :: added, by rw [extend_cons, hsymbols, hadd, List.append_assoc, List.singleton_append],
        hnodup.cons hnot, fun name => ?_⟩
      rw [List.mem_cons, List.mem_cons, hmem, mem_add, not_or]
      constructor
      · rintro (rfl | ⟨hname, hnew, -⟩)
        · exact ⟨.inl rfl, hold⟩
        · exact ⟨.inr hname, hnew⟩
      · rintro ⟨hname, hnew⟩
        by_cases heq : name = first
        · exact .inl heq
        · exact .inr ⟨hname.resolve_left heq, hnew, heq⟩

/-- How many names a table gets does not depend on the order of the names. -/
theorem size_extend_eq {others : List String} (h : t.symbols.Nodup) (hsame : ∀ x, x ∈ names ↔ x ∈ others) :
    (t.extend names).size = (t.extend others).size := by
  refine List.Perm.length_eq ((List.perm_ext_iff_of_nodup (nodup_extend h names) (nodup_extend h others)).2 ?_)
  intro x
  rw [mem_extend, mem_extend, hsame]

/-! ## Numbers -/

theorem id?_of_mem (hmem : name ∈ t.symbols) : t.id? name = some (.ofNat (t.symbols.idxOf name)) := by
  obtain ⟨index, hindex⟩ := Option.isSome_iff_exists.1 (List.isSome_idxOf?.2 hmem)
  rw [id?, List.idxOf_eq_getD_idxOf?, hindex, Option.map_some, Option.getD_some]

theorem id?_eq_none_iff : t.id? name = none ↔ name ∉ t.symbols := by
  simp [id?]

theorem number_of_mem (hmem : name ∈ t.symbols) : t.number name = .ofNat (t.symbols.idxOf name) := by
  rw [number, id?_of_mem hmem, Option.getD_some]

theorem id?_eq_some_number (hmem : name ∈ t.symbols) : t.id? name = some (t.number name) := by
  rw [number, id?_of_mem hmem, Option.getD_some]

/-- A table that grows keeps its numbers. -/
theorem number_of_le (h : t ≤ u) (hmem : name ∈ t.symbols) : u.number name = t.number name := by
  obtain ⟨others, hothers⟩ := h
  rw [number_of_mem hmem, number_of_mem (mem_of_le ⟨others, hothers⟩ hmem), ← hothers,
    List.idxOf_append_of_mem hmem]

theorem toInt_ofNat_of_lt {n : Nat} (h : n < limit) : (Int32.ofNat n).toInt = n := by
  have hlimit : limit = 2 ^ 31 := rfl
  exact Int32.toInt_ofNat_of_lt (by omega)

/-- The number of a name is where it stands. -/
theorem toInt_number (hmem : name ∈ t.symbols) (hsize : t.size ≤ limit) :
    (t.number name).toInt = t.symbols.idxOf name := by
  rw [number_of_mem hmem]
  exact toInt_ofNat_of_lt (Nat.lt_of_lt_of_le (List.idxOf_lt_length_of_mem hmem) hsize)

/-- A number is read back as its name. -/
theorem symbol?_number (hmem : name ∈ t.symbols) (hsize : t.size ≤ limit) :
    t.symbol? (t.number name) = some name := by
  have hindex := List.idxOf_lt_length_of_mem hmem
  have hvalue := toInt_number hmem hsize
  have hnonneg : 0 ≤ t.number name := by
    rw [Int32.le_iff_toInt_le, hvalue]
    exact Int.natCast_nonneg _
  rw [symbol?, if_pos hnonneg, hvalue, Int.toNat_natCast]
  simp [hindex]

theorem symbol?_absent (t : SymbolTable) : t.symbol? .absent = none := by
  rfl

theorem resolve_number (hmem : name ∈ t.symbols) (hsize : t.size ≤ limit) :
    t.resolve (t.number name) = name := by
  have hread := symbol?_number hmem hsize
  -- The number of what is absent resolves to a text of its own.
  have hne : t.number name ≠ .absent := by
    intro heq
    rw [heq, symbol?_absent] at hread
    cases hread
  rw [resolve, if_neg hne, hread, Option.getD_some]

theorem symbol?_optionalNumber (hsize : t.size ≤ limit) {name : Option String}
    (hmem : ∀ n ∈ name.toList, n ∈ t.symbols) : t.symbol? (t.optionalNumber name) = name := by
  cases name with
  | none => exact t.symbol?_absent
  | some name => exact symbol?_number (hmem name List.mem_cons_self) hsize

/-- Names with the same number are the same. -/
theorem number_inj {other : String} (hsize : t.size ≤ limit) (hmem : name ∈ t.symbols)
    (hother : other ∈ t.symbols) (h : t.number name = t.number other) : name = other := by
  have hread := symbol?_number hmem hsize
  rw [h, symbol?_number hother hsize] at hread
  exact (Option.some.inj hread).symm

/-- A table that grows keeps the names of numbers. -/
theorem symbol?_of_le {id : SymbolId} (h : t ≤ u) (hname : t.symbol? id = some name) : u.symbol? id = some name := by
  unfold symbol? at hname ⊢
  split at hname
  · rename_i hpositive
    obtain ⟨hlt, hget⟩ := List.getElem?_eq_some_iff.1 hname
    rw [if_pos hpositive, List.prefix_iff_getElem?.1 h _ hlt, hget]
  · cases hname

theorem mem_of_symbol? {id : SymbolId} (h : t.symbol? id = some name) : name ∈ t.symbols := by
  unfold symbol? at h
  split at h
  · exact List.mem_of_getElem? h
  · cases h

/-- Each name has one number only. -/
theorem symbol?_inj {id other : SymbolId} (hnodup : t.symbols.Nodup) (h : t.symbol? id = some name)
    (hother : t.symbol? other = some name) : id = other := by
  unfold symbol? at h hother
  split at h
  · rename_i hid
    split at hother
    · rename_i hid'
      obtain ⟨hlt, -⟩ := List.getElem?_eq_some_iff.1 h
      have hindex := (List.getElem?_inj hlt hnodup).1 (h.trans hother.symm)
      rw [Int32.le_iff_toInt_le] at hid hid'
      have hzero : (0 : Int32).toInt = 0 := rfl
      exact Int32.toInt_inj.1 (by omega)
    · cases hother
  · cases h

/-! ## Interning -/

/-- Interning succeeds if there is room for the name. -/
theorem intern_eq_ok (hroom : (t.add name).size ≤ limit) :
    t.intern name = .ok ((t.add name).number name, t.add name) := by
  by_cases hmem : name ∈ t.symbols
  · have hadd : t.add name = t := if_pos hmem
    rw [intern, id?_eq_some_number hmem, hadd]
  -- A new name gets the number of names before it, which is where it stands afterwards.
  · have hadd : t.add name = ⟨t.symbols ++ [name], true⟩ := if_neg hmem
    have hsize : t.size < limit := by
      rw [hadd, size, List.length_append] at hroom
      exact hroom
    have hnumber : (t.add name).number name = .ofNat t.size := by
      rw [number_of_mem (mem_add.2 (.inr rfl)), hadd, List.idxOf_append_of_notMem hmem]
      simp [size]
    rw [intern, id?_eq_none_iff.2 hmem]
    simp only [if_pos hsize]
    rw [hnumber, hadd]

theorem id?_eq_number {id : SymbolId} (h : t.id? name = some id) : name ∈ t.symbols ∧ id = t.number name := by
  have hmem : name ∈ t.symbols := by
    by_contra hnew
    rw [id?_eq_none_iff.2 hnew] at h
    cases h
  exact ⟨hmem, Option.some.inj (h.symm.trans (id?_eq_some_number hmem))⟩

/-- What interning gives if it succeeds, whatever the size of the table. -/
theorem eq_add_of_intern {id : SymbolId} (h : t.intern name = .ok (id, u)) :
    u = t.add name ∧ id = u.number name ∧ (t.size ≤ limit → u.size ≤ limit) := by
  unfold intern at h
  split at h
  · rename_i found hfound
    obtain ⟨hmem, hid⟩ := id?_eq_number hfound
    cases h
    exact ⟨(if_pos hmem).symm, hid, fun hsize => hsize⟩
  · rename_i hnone
    have hnew : name ∉ t.symbols := id?_eq_none_iff.1 hnone
    have hadd : t.add name = ⟨t.symbols ++ [name], true⟩ := if_neg hnew
    by_cases hlt : t.size < limit
    · rw [if_pos hlt] at h
      have hroom : (t.add name).size ≤ limit := by
        rw [hadd, size, List.length_append]
        exact hlt
      have hok := intern_eq_ok hroom
      rw [intern, hnone] at hok
      simp only [if_pos hlt] at hok
      cases h.symm.trans hok
      exact ⟨rfl, rfl, fun _ => hroom⟩
    · rw [if_neg hlt] at h
      cases h

end ClassDeps.SymbolTable
