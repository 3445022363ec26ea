import ClassDeps.Proofs.Key.Injective
import ClassDeps.Store.MultiValue

/-!
# What multi-value stores keep

The set under a key after each update, by the sets before it.

## Main statements

* `pairwise_values` — the numbers under a key ascend
* `mem_values_add`, `mem_values_removeValue` — updates of one number
* `values_remove`, `values_purge` — removal of a whole set, and of one number from all sets
-/

namespace ClassDeps.MultiValueStore

/-- Links that compare as equal are equal. -/
instance : Std.LawfulEqOrd Link where
  eq_of_compare := by
    intro a b h
    obtain ⟨hkey, hvalue⟩ := compareLex_eq_eq.1 h
    have hkey : a.key = b.key := Std.LawfulEqOrd.eq_of_compare hkey
    have hvalue : a.value = b.value := Std.LawfulEqOrd.eq_of_compare hvalue
    cases a
    cases b
    simp_all

variable {κ : Type} [StoreKey κ]

theorem mem_values {s : MultiValueStore κ} {k : κ} {value : Int32} :
    value ∈ s.values k ↔ ⟨StoreKey.encode k, value⟩ ∈ s.links := by
  rw [values, List.mem_map]
  constructor
  · rintro ⟨link, hlink, rfl⟩
    obtain ⟨hmem, hkey⟩ := List.mem_filter.1 hlink
    have hkey := of_decide_eq_true hkey
    exact hkey ▸ hmem
  · intro hmem
    exact ⟨_, List.mem_filter.2 ⟨hmem, decide_eq_true rfl⟩, rfl⟩

/-- The numbers under a key ascend, each of them once. -/
theorem pairwise_values (s : MultiValueStore κ) (k : κ) : (s.values k).Pairwise (· < ·) := by
  rw [values, List.pairwise_map]
  refine (s.links.ascending.filter _).imp_of_mem fun {a b} ha hb hlt => ?_
  have ha := of_decide_eq_true (List.mem_filter.1 ha).2
  have hb := of_decide_eq_true (List.mem_filter.1 hb).2
  -- Of links with the same key the one with the smaller number comes first.
  have hkey : compareOn Link.key a b = .eq := by
    rw [compareOn, ha, hb]
    exact Std.ReflCmp.compare_self
  have hvalue : compare a.value b.value = .lt := by
    have hthen : (compareOn Link.key a b).then (compareOn Link.value a b) = .lt := hlt
    rw [hkey] at hthen
    exact hthen
  exact Std.compare_eq_lt.1 hvalue

/-- Purging leaves the other numbers of a set in their order. -/
theorem values_purge (s : MultiValueStore κ) (value : Int32) (k : κ) :
    (s.purge value).2.values k = (s.values k).filter (· ≠ value) := by
  simp only [values, purge, keep, Ordered.Set.filter, List.filter_map, List.filter_filter,
    Function.comp_def]
  congr 2
  funext link
  exact Bool.and_comm _ _

theorem mem_links_remove {s : MultiValueStore κ} {k : κ} {link : Link} :
    link ∈ (s.remove k).2.links ↔ link ∈ s.links ∧ link.key ≠ StoreKey.encode k := by
  rw [remove, keep, Ordered.Set.mem_filter, decide_eq_true_iff]

omit [StoreKey κ] in
theorem mem_links_purge {s : MultiValueStore κ} {value : Int32} {link : Link} :
    link ∈ (s.purge value).2.links ↔ link ∈ s.links ∧ link.value ≠ value := by
  rw [purge, keep, Ordered.Set.mem_filter, decide_eq_true_iff]

theorem mem_links_foldl_remove {keys : List κ} {s : MultiValueStore κ} {link : Link} :
    link ∈ (keys.foldl (fun s k => (s.remove k).2) s).links ↔
      link ∈ s.links ∧ ∀ k ∈ keys, link.key ≠ StoreKey.encode k := by
  induction keys generalizing s with
  | nil => simp
  | cons k keys ih => rw [List.foldl_cons, ih, mem_links_remove, List.forall_mem_cons, and_assoc]

variable [LawfulStoreKey κ]

theorem mem_values_add {s : MultiValueStore κ} {k other : κ} {value r : Int32} :
    r ∈ (s.add k value).values other ↔ (other = k ∧ r = value) ∨ r ∈ s.values other := by
  rw [mem_values, mem_values, add, Ordered.Set.mem_insert, Link.mk.injEq, StoreKey.encode_eq_iff]

theorem mem_values_removeValue {s : MultiValueStore κ} {k other : κ} {value r : Int32} :
    r ∈ (s.removeValue k value).values other ↔ r ∈ s.values other ∧ ¬(other = k ∧ r = value) := by
  rw [mem_values, mem_values, removeValue, Ordered.Set.mem_erase, Ne, Link.mk.injEq,
    StoreKey.encode_eq_iff]

/-- Removing a set leaves the others. -/
theorem values_remove [DecidableEq κ] (s : MultiValueStore κ) (k other : κ) :
    (s.remove k).2.values other = if other = k then [] else s.values other := by
  simp only [values, remove, keep, Ordered.Set.filter, List.filter_filter]
  by_cases hkey : other = k
  · simp [hkey]
  · have hencode : StoreKey.encode other ≠ StoreKey.encode k := fun h => hkey (StoreKey.encode_eq_iff.1 h)
    rw [if_neg hkey]
    congr 2
    funext link
    by_cases hlink : link.key = StoreKey.encode other
    · simp [hlink, hencode]
    · simp [hlink]

theorem values_foldl_remove [DecidableEq κ] (keys : List κ) (s : MultiValueStore κ) (other : κ) :
    (keys.foldl (fun s k => (s.remove k).2) s).values other =
      if other ∈ keys then [] else s.values other := by
  induction keys generalizing s with
  | nil => simp
  | cons k keys ih =>
    rw [List.foldl_cons, ih, values_remove]
    by_cases hmem : other ∈ keys
    · simp [hmem]
    · simp [hmem]

end ClassDeps.MultiValueStore
