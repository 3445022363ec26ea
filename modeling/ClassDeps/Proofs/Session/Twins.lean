import ClassDeps.Proofs.Cache.Alike
import ClassDeps.Proofs.Session.Recorded

/-!
# Sessions that hold the same

Two sessions that hold the same, and that read the same class documents, import the same files, and hold the same
afterwards. What each of them has in memory, and whether its symbols were saved meanwhile, makes no difference.

## Main definitions

* `Files.Shows` — the class documents of one tree can be read in another one
* `Session.Run.Twin` — two sessions that hold the same

## Main statements

* `Files.Agree.shows` — trees that agree except where no class document is
* `Session.Run.Twin.importFile`, `Twin.importFiles` — imports in two sessions that hold the same
-/

namespace ClassDeps

namespace Files

variable {touched : Place → Prop} {t u v : Files} {path : String} {bytes : Bytes}

/-- Every class document that can be read in one tree can be read in the other one. -/
def Shows (t u : Files) : Prop :=
  ∀ path bytes, ¬IsQuiet bytes → t.read path = .ok bytes → u.read path = .ok bytes

theorem Shows.trans (h : t.Shows u) (h' : u.Shows v) : t.Shows v :=
  fun path bytes hquiet hread => h' path bytes hquiet (h path bytes hquiet hread)

/-- A class document is read from a file of its own, since the bytes of a store file are none. -/
theorem file_of_read (hquiet : ¬IsQuiet bytes) (h : t.read path = .ok bytes) :
    t.locate path = .ok (t.target path) ∧ t.entryAt? (t.target path) = some (.file bytes) := by
  obtain ⟨place, entry, hplace, hentry, hbytes⟩ := read_eq_ok_iff.1 h
  obtain rfl := locate_eq_target hplace
  refine ⟨hplace, ?_⟩
  match entry with
  | .directory => cases hbytes
  | .file _ => rw [hentry, Option.some.inj hbytes]
  | .store id =>
    refine absurd ?_ hquiet
    rw [IsQuiet, Json.Form.ofBytes?, ← Option.some.inj hbytes, StoreFile.ofBytes?_bytes]
    rfl

/-- Trees that agree except at places without class documents show the same ones. -/
theorem Agree.shows (h : Agree touched t u)
    (hquiet : ∀ place, touched place → ∀ bytes, t.entryAt? place = some (.file bytes) → IsQuiet bytes) :
    t.Shows u := by
  intro path bytes hbytes hread
  obtain ⟨hlocate, hfile⟩ := file_of_read hbytes hread
  have huntouched : ¬touched (t.target path) := fun htouched => hbytes (hquiet _ htouched bytes hfile)
  exact read_eq_ok_iff.2 ⟨t.target path, .file bytes, locate_of_directories h.working h.directory hlocate,
    (h.entry _ huntouched).trans hfile, rfl⟩

theorem Amended.shows (h : Amended t u) : t.Shows u ∧ u.Shows t := by
  have hforth : Agree (fun _ => False) t u := .of_entries h.working h.entries
  have hback : Agree (fun _ => False) u t := .of_entries h.working.symm h.entries.symm
  exact ⟨hforth.shows fun _ hnone => hnone.elim, hback.shows fun _ hnone => hnone.elim⟩

end Files

namespace OpenCache

variable {c d : OpenCache} {t u : Files}

/-- Caches whose files hold the same are alike if there is the same room in their memories. -/
theorem alike_of_contents (hids : d.ids = c.ids) (h : ∀ id ∈ c.ids, u.contents id = t.contents id)
    (hcapacity : (d.cache u).classes.memory.capacity = (c.cache t).classes.memory.capacity)
    (hfits : (c.cache t).classes.memory.Fits) (hfits' : (d.cache u).classes.memory.Fits) :
    (c.cache t).Alike (d.cache u) := by
  simp only [ids, List.forall_mem_cons] at h
  obtain ⟨h₁, h₂, h₃, h₄, h₅, -⟩ := h
  simp only [ids, List.cons.injEq, and_true] at hids
  obtain ⟨e₁, e₂, e₃, e₄, e₅⟩ := hids
  exact {
    rows := congrArg StoreContents.rows ((congrArg u.contents e₁).trans h₁)
    remote := congrArg StoreContents.rows ((congrArg u.contents e₂).trans h₂)
    referencers := congrArg StoreContents.links ((congrArg u.contents e₃).trans h₃)
    referenced := congrArg StoreContents.links ((congrArg u.contents e₄).trans h₄)
    subclasses := congrArg StoreContents.links ((congrArg u.contents e₅).trans h₅)
    capacity := hcapacity
    fits := hfits
    fits' := hfits' }

/-- The files of caches that are alike hold the same, since they are of the kinds of their stores. -/
theorem contents_of_alike (hids : d.ids = c.ids) (h : (c.cache t).Alike (d.cache u))
    (hattached : Files.Attached c.handles t) (hattached' : Files.Attached d.handles u) :
    ∀ id ∈ c.ids, u.contents id = t.contents id := by
  have hrows {f g : StoreContents} (hf : f.kind = .keyValue) (hg : g.kind = .keyValue) (hsame : g.rows = f.rows) :
      g = f := by
    cases f <;> cases g <;> simp_all [StoreContents.kind, StoreContents.rows]
  have hlinks {f g : StoreContents} (hf : f.kind = .multiValue) (hg : g.kind = .multiValue)
      (hsame : g.links = f.links) : g = f := by
    cases f <;> cases g <;> simp_all [StoreContents.kind, StoreContents.links]
  simp only [Files.Attached, handles, List.forall_mem_cons] at hattached hattached'
  obtain ⟨⟨k₁, -⟩, ⟨k₂, -⟩, ⟨k₃, -⟩, ⟨k₄, -⟩, ⟨k₅, -⟩, -⟩ := hattached
  obtain ⟨⟨l₁, -⟩, ⟨l₂, -⟩, ⟨l₃, -⟩, ⟨l₄, -⟩, ⟨l₅, -⟩, -⟩ := hattached'
  simp only [ids, List.cons.injEq, and_true] at hids
  obtain ⟨e₁, e₂, e₃, e₄, e₅⟩ := hids
  simp only [ids, List.forall_mem_cons]
  refine ⟨?_, ?_, ?_, ?_, ?_, List.forall_mem_nil _⟩
  · exact (congrArg u.contents e₁).symm.trans (hrows k₁ l₁ h.rows)
  · exact (congrArg u.contents e₂).symm.trans (hrows k₂ l₂ h.remote)
  · exact (congrArg u.contents e₃).symm.trans (hlinks k₃ l₃ h.referencers)
  · exact (congrArg u.contents e₄).symm.trans (hlinks k₄ l₄ h.referenced)
  · exact (congrArg u.contents e₅).symm.trans (hlinks k₅ l₅ h.subclasses)

end OpenCache

namespace Session

open Files (Amended Attached)

variable {r r' s s' : Run} {path : String} {paths : List String}

theorem leads_of_importFiles {kept : Place → Prop} {n : Nat} {result : Except Failure Unit}
    (haside : ∀ place, kept place → place.Aside) (h : importFiles paths r = (result, s)) :
    r.Leads kept n (imports paths r) s := by
  have hleads : r.Leads kept n (imports paths r) (importFiles paths r).2 :=
    leads_importFiles haside (List.Subset.refl _)
  rwa [h] at hleads

theorem importFiles_singleton (h : importFile path r = (.ok (), s)) : importFiles [path] r = (.ok (), s) :=
  importFiles_cons_eq_ok_iff.2 ⟨s, h, rfl⟩

/-- Two sessions hold the same, and the second one can read every class document that the first one can. -/
structure Run.Twin (r r' : Run) : Prop where
  symbols : r'.session.symbols.symbols = r.session.symbols.symbols
  built : r.session.symbols.Built
  cache : r.cache.Alike r'.cache
  separate : r.Separate
  separate' : r'.Separate
  attached : Attached r.session.cache.handles r.files
  attached' : Attached r'.session.cache.handles r'.files
  shows : r.files.Shows r'.files

namespace Run.Twin

/-- A file that is imported in one session is imported in the other one, and both hold the same again. -/
theorem importFile (h : r.Twin r') (himport : importFile path r = (.ok (), s)) :
    ∃ s', Session.importFile path r' = (.ok (), s') ∧ s.Twin s' := by
  obtain ⟨bytes, document, hbytes, hdocument, hindexed, hs⟩ := of_importFile h.separate himport
  have hquiet : ¬Files.IsQuiet bytes := fun hnone => nomatch hdocument.symm.trans hnone
  obtain ⟨table, cache, hindexed', hsymbols, halike⟩ :=
    h.cache.importIndexed h.built.size_le h.symbols hindexed
  obtain ⟨s', himport', rfl, rfl, hs'⟩ :=
    exists_importFile h.separate' (h.shows path bytes hquiet hbytes) hdocument hindexed'
  refine ⟨s', himport', ?_⟩
  -- Only the contents of the stores change, which show no class documents.
  have hleads : r.Leads (fun _ => False) 0 _ s := leads_of_importFiles nofun (importFiles_singleton himport)
  have hleads' : r'.Leads (fun _ => False) 0 _ s' := leads_of_importFiles nofun (importFiles_singleton himport')
  have hamended := hleads.commits.amended h.attached
  have hamended' := hleads'.commits.amended h.attached'
  exact {
    symbols := hsymbols
    built := hleads.grows.built h.built
    cache := halike
    separate := hs
    separate' := hs'
    attached := hleads.handles ▸ hamended.attached h.attached
    attached' := hleads'.handles ▸ hamended'.attached h.attached'
    shows := (hamended.shows.2.trans h.shows).trans hamended'.shows.1 }

/-- Files that are imported in one session are imported in the other one. -/
theorem importFiles (h : r.Twin r') (himport : importFiles paths r = (.ok (), s)) :
    ∃ s', Session.importFiles paths r' = (.ok (), s') ∧ s.Twin s' := by
  induction paths generalizing r r' with
  | nil =>
    cases himport
    exact ⟨r', rfl, h⟩
  | cons path paths ih =>
    obtain ⟨u, hfile, hrest⟩ := importFiles_cons_eq_ok_iff.1 himport
    obtain ⟨u', hfile', hu⟩ := h.importFile hfile
    obtain ⟨s', hrest', hs⟩ := ih hu hrest
    exact ⟨s', importFiles_cons_eq_ok_iff.2 ⟨u', hfile', hrest'⟩, hs⟩

end Run.Twin

end Session

end ClassDeps
