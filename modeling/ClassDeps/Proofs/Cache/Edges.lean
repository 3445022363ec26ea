import ClassDeps.Proofs.Cache.Operations

/-!
# Edges that the index pass adds

The index pass over a class adds one edge for each reference and each super type of its record and takes none
away: what the three indices hold afterwards is what they held before and these.

## Main statements

* `mem_referencer_links_indexed`, `mem_referenced_links_indexed`, `mem_subclass_links_indexed` — the links after the
  index pass
* `mem_referencers_indexed`, `mem_referenced_indexed`, `mem_subclasses_indexed` — the sets after the index pass
-/

namespace ClassDeps.Cache

variable {c : Cache} {q r s t : SymbolId} {key : DeclarationKey} {record : ClassRecord} {edge : Link}

/-- The edges after steps each of which adds some. -/
theorem mem_foldl_iff {α : Type} (edges : Cache → Ordered.Set Link) {step : Cache → α → Cache} {Adds : α → Prop}
    (hstep : ∀ c x, edge ∈ edges (step c x) ↔ Adds x ∨ edge ∈ edges c) (xs : List α) (c : Cache) :
    edge ∈ edges (xs.foldl step c) ↔ (∃ x ∈ xs, Adds x) ∨ edge ∈ edges c := by
  induction xs generalizing c with
  | nil => simp
  | cons x xs ih => rw [List.foldl_cons, ih, hstep, List.exists_mem_cons_iff, or_assoc, or_left_comm]

/-! ## References -/

theorem mem_referencers_foldl_link (references : List DeclarationKey) (c : Cache) :
    edge ∈ (references.foldl (link q) c).referencers.links ↔
      (∃ key ∈ references, edge = ⟨StoreKey.encode key, q⟩) ∨ edge ∈ c.referencers.links :=
  mem_foldl_iff (fun c => c.referencers.links) (fun _ _ => Ordered.Set.mem_insert) references c

theorem mem_referenced_link (c : Cache) (reference : DeclarationKey) :
    edge ∈ (link q c reference).referenced.links ↔
      (reference.owner ≠ q ∧ edge = ⟨StoreKey.encode q, reference.owner⟩) ∨ edge ∈ c.referenced.links := by
  by_cases howner : reference.owner = q
  · simp [link, howner]
  · have hadd : (link q c reference).referenced = c.referenced.add q reference.owner := by
      simp [link, howner]
    rw [hadd, MultiValueStore.add, Ordered.Set.mem_insert]
    simp [howner]

theorem mem_referenced_foldl_link (references : List DeclarationKey) (c : Cache) :
    edge ∈ (references.foldl (link q) c).referenced.links ↔
      (∃ key ∈ references, key.owner ≠ q ∧ edge = ⟨StoreKey.encode q, key.owner⟩) ∨ edge ∈ c.referenced.links :=
  mem_foldl_iff (fun c => c.referenced.links) mem_referenced_link references c

/-! ## Super types -/

theorem mem_subclasses_foldl_inherit (supertypes : List SymbolId) (c : Cache) :
    edge ∈ (supertypes.foldl (inherit q) c).subclasses.links ↔
      (∃ supertype ∈ supertypes, edge = ⟨StoreKey.encode supertype, q⟩) ∨ edge ∈ c.subclasses.links :=
  mem_foldl_iff (fun c => c.subclasses.links) (fun _ _ => Ordered.Set.mem_insert) supertypes c

theorem subclasses_foldl_link (references : List DeclarationKey) (c : Cache) :
    (references.foldl (link q) c).subclasses = c.subclasses := by
  have hlink (c : Cache) (key : DeclarationKey) : (link q c key).subclasses = c.subclasses := rfl
  exact foldl_keeps subclasses hlink references c

/-! ## The index pass -/

theorem mem_referencer_links_indexed :
    edge ∈ (c.indexed q record).referencers.links ↔
      (∃ key ∈ record.references, edge = ⟨StoreKey.encode key, q⟩) ∨ edge ∈ c.referencers.links := by
  have hinherit (c : Cache) (supertype : SymbolId) :
      (inherit q c supertype).referencers = c.referencers := rfl
  have hindexed : (c.indexed q record).referencers = (record.references.foldl (link q) c).referencers :=
    foldl_keeps referencers hinherit record.supertypes _
  rw [hindexed, mem_referencers_foldl_link]

theorem mem_referenced_links_indexed :
    edge ∈ (c.indexed q record).referenced.links ↔
      (∃ key ∈ record.references, key.owner ≠ q ∧ edge = ⟨StoreKey.encode q, key.owner⟩) ∨
        edge ∈ c.referenced.links := by
  have hinherit (c : Cache) (supertype : SymbolId) :
      (inherit q c supertype).referenced = c.referenced := rfl
  have hindexed : (c.indexed q record).referenced = (record.references.foldl (link q) c).referenced :=
    foldl_keeps referenced hinherit record.supertypes _
  rw [hindexed, mem_referenced_foldl_link]

theorem mem_subclass_links_indexed :
    edge ∈ (c.indexed q record).subclasses.links ↔
      (∃ supertype ∈ record.supertypes, edge = ⟨StoreKey.encode supertype, q⟩) ∨ edge ∈ c.subclasses.links := by
  have hindexed : (c.indexed q record).subclasses =
      (record.supertypes.foldl (inherit q) (record.references.foldl (link q) c)).subclasses := rfl
  rw [hindexed, mem_subclasses_foldl_inherit, subclasses_foldl_link]

theorem mem_referencers_indexed :
    r ∈ (c.indexed q record).referencers.values key ↔
      (key ∈ record.references ∧ r = q) ∨ r ∈ c.referencers.values key := by
  rw [MultiValueStore.mem_values, mem_referencer_links_indexed, MultiValueStore.mem_values]
  simp only [Link.mk.injEq, StoreKey.encode_eq_iff]
  refine or_congr_left ⟨?_, fun h => ⟨key, h.1, rfl, h.2⟩⟩
  rintro ⟨_, hmem, rfl, hr⟩
  exact ⟨hmem, hr⟩

theorem mem_referenced_indexed :
    t ∈ (c.indexed q record).referenced.values r ↔
      (r = q ∧ t ≠ q ∧ ∃ key ∈ record.references, key.owner = t) ∨ t ∈ c.referenced.values r := by
  rw [MultiValueStore.mem_values, mem_referenced_links_indexed, MultiValueStore.mem_values]
  simp only [Link.mk.injEq, StoreKey.encode_eq_iff]
  refine or_congr_left ⟨?_, ?_⟩
  · rintro ⟨key, hmem, hne, hr, rfl⟩
    exact ⟨hr, hne, key, hmem, rfl⟩
  · rintro ⟨hr, hne, key, hmem, rfl⟩
    exact ⟨key, hmem, hne, hr, rfl⟩

theorem mem_subclasses_indexed :
    s ∈ (c.indexed q record).subclasses.values t ↔
      (t ∈ record.supertypes ∧ s = q) ∨ s ∈ c.subclasses.values t := by
  rw [MultiValueStore.mem_values, mem_subclass_links_indexed, MultiValueStore.mem_values]
  simp only [Link.mk.injEq, StoreKey.encode_eq_iff]
  refine or_congr_left ⟨?_, fun h => ⟨t, h.1, rfl, h.2⟩⟩
  rintro ⟨_, hmem, rfl, hs⟩
  exact ⟨hmem, hs⟩

end ClassDeps.Cache
