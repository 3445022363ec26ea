import ClassDeps.Proofs.Cache.Opened
import ClassDeps.Proofs.Cache.Recorded
import ClassDeps.Proofs.Files.Spared

/-!
# Caches beside other files

Opening, using, closing and wiping a cache spares the files that are none of its own. Its stores are new ones, or
those that stand at its places already; what an operation leaves in them is what it leaves in the cache.

## Main definitions

* `Files.Op.Relates` — what an operation on files does, whatever becomes of it
* `OpenCache.Since` — the stores at the places of a cache are not older than a given number
* `OpenCache.Recorded` — everything in the stores of an open cache was made of some documents

## Main statements

* `OpenCache.relates_open` — opening a cache is a sequence of few operations on files
* `OpenCache.spares_open`, `ids_open` — opening a cache, and which stores it gets
* `OpenCache.Recorded.run` — an operation that keeps a cache recorded keeps its files so
* `OpenCache.spares_close`, `spares_wipe` — the end of a cache
-/

namespace ClassDeps

open Files (Spares)

variable {kept : Place → Prop} {good : StoreContents → Prop} {t u : Files}

/-! ## Opening -/

namespace Files

variable {α β : Type} {R : Files → Files → Prop}

/-- What an operation does to files is described by a relation, whatever becomes of the operation. -/
def Op.Relates (R : Files → Files → Prop) (op : Files.Op α) : Prop :=
  ∀ t, R t (op t).2

theorem Op.Relates.bind {op : Files.Op α} {next : α → Files.Op β} (hop : op.Relates R)
    (htrans : ∀ {t u v}, R t u → R u v → R t v) (hnext : ∀ a, (next a).Relates R) : (op >>= next).Relates R := by
  intro t
  have hfirst := hop t
  rw [bind_apply]
  match h : op t with
  | (.ok a, u) =>
    rw [h] at hfirst
    exact htrans hfirst (hnext a u)
  | (.error error, u) =>
    rw [h] at hfirst
    exact hfirst

theorem relates_openKind {path : String} {kind : StoreKind} {journal : JournalMode}
    (h : ∀ t, R t (t.openStore path kind journal).2) : (openKind path kind journal).Relates R := by
  intro t
  have hopen := h t
  unfold openKind
  split
  · rename_i hfile
    rw [hfile] at hopen
    exact hopen
  · rename_i hfault
    rw [hfault] at hopen
    exact hopen

end Files

namespace OpenCache

open Files (Op.Relates)

variable {root : String} {config : Config} {c : OpenCache}

/-- What opening a cache does is what making a directory, opening stores and leaving them do one after the other. -/
theorem relates_open {R : Files → Files → Prop} (hrefl : ∀ t, R t t) (htrans : ∀ {t u v}, R t u → R u v → R t v)
    (hmake : ∀ t, R t (t.createDirectories root).2) (hopen : ∀ path ∈ storePaths root, ∀ kind journal t,
      R t (t.openStore path kind journal).2) (hleave : ∀ gone t, R t (t.leaveStores gone)) (config : Config)
    (t : Files) : R t (OpenCache.open root config t).2 := by
  have hkeyValue {κ α : Type} (path : String) (hpath : path ∈ storePaths root) (capacity : Nat)
      (journal : JournalMode) : (KeyValueStore.open (κ := κ) (α := α) path capacity journal).Relates R :=
    (Files.relates_openKind (hopen path hpath _ journal)).bind htrans fun _ => Op.Relates.bind hrefl htrans
      fun _ => hrefl
  have hmultiValue {κ : Type} (path : String) (hpath : path ∈ storePaths root) (journal : JournalMode) :
      (MultiValueStore.open (κ := κ) path journal).Relates R :=
    (Files.relates_openKind (hopen path hpath _ journal)).bind htrans fun _ => Op.Relates.bind hrefl htrans
      fun _ => hrefl
  have hroot : (createRoot root).Relates R := hmake
  have hstores : (openStores root config).Relates R :=
    hroot.bind htrans fun _ => (hkeyValue _ (by simp [storePaths]) _ _).bind htrans fun _ =>
      (hkeyValue _ (by simp [storePaths]) _ _).bind htrans fun _ =>
      (hmultiValue _ (by simp [storePaths]) _).bind htrans fun _ =>
      (hmultiValue _ (by simp [storePaths]) _).bind htrans fun _ =>
      (hmultiValue _ (by simp [storePaths]) _).bind htrans fun _ => hrefl
  have hopened := hstores t
  unfold OpenCache.open
  split
  · rename_i h
    rw [h] at hopened
    exact hopened
  · rename_i h
    rw [h] at hopened
    exact htrans hopened (hleave _ _)

/-- Opening a cache spares the files that are none of its own, whatever becomes of it. -/
theorem spares_open (haside : ∀ place, kept place → place.Aside) (hempty : ∀ kind, good (.empty kind)) (root : String)
    (config : Config) (t : Files) : Spares kept good t (OpenCache.open root config t).2 :=
  relates_open .refl .trans (fun t => (Files.Furnished.createDirectories t root).spares)
    (fun path _ kind journal t => .openStore haside hempty t path kind journal)
    (fun gone t => .leaveStores haside t gone) config t

/-! ## Which stores are opened -/

/-- There are at least so many stores, and those at the places of a cache are younger. -/
structure Since (root : String) (n : Nat) (t : Files) : Prop where
  length : n ≤ t.stores.length
  entry : ∀ path ∈ storePaths root, ∀ filePath mayCreate,
    Address.ofPath? path = some (.file filePath mayCreate) →
    ∀ id, t.entryAt? (t.target filePath) = some (.store id) → n ≤ id

namespace Since

variable {n : Nat}

theorem spares (h : Since root n t) (hspares : Spares kept good t u) : Since root n u where
  length := Nat.le_trans h.length hspares.length
  entry path hpath filePath mayCreate haddress id hentry := by
    rw [Files.target_of_working hspares.working] at hentry
    obtain hold | hnew := hspares.store _ _ hentry
    · exact h.entry path hpath filePath mayCreate haddress id hold
    · exact Nat.le_trans h.length hnew

theorem openKind (h : Since root n t) {path : String} (hpath : path ∈ storePaths root) {kind : StoreKind}
    {journal : JournalMode} {file : OpenFile} (hopen : Files.openKind path kind journal t = (.ok file, u)) :
    n ≤ file.id ∧ Since root n u := by
  have hspares : Spares (fun _ => False) (fun _ => True) t (Files.openKind path kind journal t).2 :=
    Files.relates_openKind (fun t => .openStore nofun (fun _ => trivial) t path kind journal) t
  rw [hopen] at hspares
  refine ⟨?_, h.spares hspares⟩
  unfold Files.openKind at hopen
  split at hopen
  · rename_i hfile
    cases hopen
    obtain hnew | ⟨filePath, mayCreate, haddress, hentry⟩ := Files.id_openStore hfile
    · exact Nat.le_trans h.length hnew
    · exact h.entry path hpath filePath mayCreate haddress file.id hentry
  · cases hopen

theorem openKeyValue (h : Since root n t) {κ α : Type} {path : String} (hpath : path ∈ storePaths root)
    {capacity : Nat} {journal : JournalMode} {s : OpenStore (KeyValueStore κ α)}
    (hopen : KeyValueStore.open path capacity journal t = (.ok s, u)) : n ≤ s.file.id ∧ Since root n u := by
  obtain ⟨file, v, hfile, hrest⟩ := Files.exists_of_bind hopen
  cases hrest
  exact h.openKind hpath hfile

theorem openMultiValue (h : Since root n t) {κ : Type} {path : String} (hpath : path ∈ storePaths root)
    {journal : JournalMode} {s : OpenStore (MultiValueStore κ)}
    (hopen : MultiValueStore.open path journal t = (.ok s, u)) : n ≤ s.file.id ∧ Since root n u := by
  obtain ⟨file, v, hfile, hrest⟩ := Files.exists_of_bind hopen
  cases hrest
  exact h.openKind hpath hfile

/-- The stores of a cache that was opened are new ones or those at its places. -/
theorem ids_open (h : Since root n t) (hopen : OpenCache.open root config t = (.ok c, u)) :
    ∀ id ∈ c.ids, n ≤ id := by
  obtain ⟨-, v₀, v₁, v₂, v₃, v₄, hroot, hclasses, hremote, hreferencers, hreferenced, hsubclasses⟩ :=
    open_eq_ok_iff.1 hopen
  have hmade : Spares (fun _ => False) (fun _ => True) t (t.createDirectories root).2 :=
    (Files.Furnished.createDirectories t root).spares
  have hv₀ : (t.createDirectories root).2 = v₀ := congrArg Prod.snd hroot
  have h₀ := h.spares (hv₀ ▸ hmade)
  obtain ⟨hid₁, h₁⟩ := h₀.openKeyValue (by simp [storePaths]) hclasses
  obtain ⟨hid₂, h₂⟩ := h₁.openKeyValue (by simp [storePaths]) hremote
  obtain ⟨hid₃, h₃⟩ := h₂.openMultiValue (by simp [storePaths]) hreferencers
  obtain ⟨hid₄, h₄⟩ := h₃.openMultiValue (by simp [storePaths]) hreferenced
  obtain ⟨hid₅, -⟩ := h₄.openMultiValue (by simp [storePaths]) hsubclasses
  simp only [ids, List.forall_mem_cons]
  exact ⟨hid₁, hid₂, hid₃, hid₄, hid₅, List.forall_mem_nil _⟩

end Since

/-! ## Use -/

variable {n : Nat} {documents : List ClassDocument} {table later : SymbolTable}

/-- Everything in the stores of a cache, and in other stores that are as young, was made of some documents. -/
structure Recorded (n : Nat) (documents : List ClassDocument) (table : SymbolTable) (c : OpenCache) (t : Files) :
    Prop where
  ids : ∀ id ∈ c.ids, n ≤ id
  contents : ∀ id, n ≤ id → (t.contents id).Recorded documents table
  memory : ∀ key record, c.classes.store.memory.value? key = some record →
    Cache.IsRecord documents table key record

/-- What is taken up from the files. -/
theorem Recorded.cache (h : c.Recorded n documents table t) : (c.cache t).Recorded documents table := by
  have hids := h.ids
  simp only [OpenCache.ids, List.forall_mem_cons] at hids
  obtain ⟨h₁, h₂, h₃, h₄, h₅, -⟩ := hids
  exact {
    classes := ⟨(h.contents _ h₁).rows, h.memory⟩
    remote := (h.contents _ h₂).rows
    referencers := (h.contents _ h₃).links
    referenced := (h.contents _ h₄).links
    subclasses := (h.contents _ h₅).links }

/-- An operation changes what stores hold, and but for that nothing but logs. -/
theorem spares_run {α : Type} (haside : ∀ place, kept place → place.Aside) {op : StateM Cache α}
    (hgood : ∀ contents ∈ (op (c.cache t)).2.storeContents, good contents) :
    Spares kept good t (c.run op t).2.2 := by
  have hcommit {σ : Type} [Persistent σ] {s : OpenStore σ} (hs : good (Persistent.contents s.store)) (t : Files) :
      Spares kept good t (s.commit t) :=
    (Spares.setContents t s.file.id hs).trans (.modifyLog haside _ _ _)
  simp only [Cache.storeContents, List.forall_mem_cons] at hgood
  obtain ⟨h₁, h₂, h₃, h₄, h₅, -⟩ := hgood
  exact ((((hcommit h₁ t).trans (hcommit h₂ _)).trans (hcommit h₃ _)).trans (hcommit h₄ _)).trans (hcommit h₅ _)

/-- An operation that leaves a cache recorded leaves the files of the cache so. -/
theorem Recorded.run {α : Type} (h : c.Recorded n documents table t) {op : StateM Cache α}
    (hop : (op (c.cache t)).2.Recorded documents later) (hgrow : table ≤ later) :
    (c.run op t).2.1.Recorded n documents later (c.run op t).2.2 := by
  have hspares : Spares (fun _ => False) (StoreContents.Recorded documents later) t (c.run op t).2.2 :=
    spares_run nofun hop.storeContents
  refine ⟨h.ids, fun id hid => ?_, hop.classes.memory⟩
  obtain hsame | hrecorded := hspares.contents id
  · rw [hsame]
    exact (h.contents id hid).mono (List.Subset.refl _) hgrow
  · exact hrecorded

/-! ## The end -/

theorem spares_close (haside : ∀ place, kept place → place.Aside) (c : OpenCache) (t : Files) :
    Spares kept good t (c.close t) :=
  ((((Spares.leaveStores haside t _).trans (.leaveStores haside _ _)).trans (.leaveStores haside _ _)).trans
    (.leaveStores haside _ _)).trans (.leaveStores haside _ _)

/-- Wiping a cache removes the files that stand directly in its directory. -/
theorem spares_wipe (haside : ∀ place, kept place → place.Aside) (c : OpenCache) (t : Files)
    (hkept : ∀ place, kept place → place.dropLast ≠ t.target c.root) : Spares kept good t (c.wipe t) := by
  have hclose : Spares kept good t (c.close t) := c.spares_close haside t
  refine hclose.trans (.removeFilesIn fun place hplace => ?_)
  rw [Files.target_of_working hclose.working]
  exact hkept place hplace

end OpenCache

end ClassDeps
