import ClassDeps.Proofs.Files.Documents
import ClassDeps.Proofs.Files.Reopening

/-!
# When documents can be saved

Whether a document can be saved depends on what stands at three places: that of its directory, its own, and that of the
file that it is first written to. Saving changes no other place, and afterwards the document can be saved again.

## Main definitions

* `JsonStore.Within` — a directory of documents below another directory
* `JsonStore.places` — the places that saving a document is about
* `JsonStore.Ready` — nothing is in the way of saving a document

## Main statements

* `JsonStore.ready_of_save` — a document is saved only if nothing is in the way
* `JsonStore.Ready.save` — what saving does if nothing is in the way
* `JsonStore.Ready.agree` — what stays ready
-/

namespace ClassDeps

namespace Files

variable {t u : Files} {path : String} {bytes : Bytes}

theorem write_eq_ok (hlocate : t.locate path = .ok (t.target path))
    (hfree : t.entryAt? (t.target path) ≠ some .directory) (bytes : Bytes) :
    t.write path bytes = .ok (t.setEntry (t.target path) (.file bytes)) := by
  unfold write
  rw [hlocate]
  simp only [bind, Except.bind]
  rfl

theorem rename_eq_ok {source target : String} {entry : Entry} (hsource : t.locate source = .ok (t.target source))
    (htarget : t.locate target = .ok (t.target target)) (hentry : t.entryAt? (t.target source) = some entry)
    (hfile : entry ≠ .directory) (hfree : t.entryAt? (t.target target) ≠ some .directory) :
    t.rename source target =
      .ok (setEntry { t with entries := t.entries.erase (t.target source) } (t.target target) entry) := by
  unfold rename
  rw [hsource, htarget]
  simp only [bind, Except.bind, hentry]
  rfl

/-- A file is written beside another one and then moved over it. -/
theorem exists_write_rename {source target : String} (hsource : t.locate source = .ok (t.target source))
    (htarget : t.locate target = .ok (t.target target)) (hfree : t.entryAt? (t.target source) ≠ some .directory)
    (hfree' : t.entryAt? (t.target target) ≠ some .directory) (hne : t.target source ≠ t.target target)
    (bytes : Bytes) : ∃ u v, t.write source bytes = .ok u ∧ u.rename source target = .ok v ∧
      Agree (fun place => place = t.target source ∨ place = t.target target) t v ∧
      v.entryAt? (t.target target) = some (.file bytes) ∧ v.entryAt? (t.target source) = none ∧
      v.stores = t.stores ∧ v.users = t.users := by
  let touched (place : Place) : Prop := place = t.target source ∨ place = t.target target
  let u := t.setEntry (t.target source) (.file bytes)
  have hwritten (place : Place) : u.entryAt? place = if place = t.target source then some (.file bytes) else
      t.entryAt? place := entryAt?_setEntry hfree _ place
  have hagree : Agree touched t u := .setEntry (.inl rfl) hfree _
  have hfound : u.entryAt? (t.target source) = some (.file bytes) := by rw [hwritten, if_pos rfl]
  have hkept : u.entryAt? (t.target source) ≠ some .directory := by simp [hfound]
  let w : Files := { u with entries := u.entries.erase (t.target source) }
  have herased (place : Place) : w.entryAt? place = if place = t.target source then none else u.entryAt? place :=
    entryAt?_erase hkept place
  have hgone : w.entryAt? (t.target target) ≠ some .directory := by
    rw [herased, if_neg hne.symm, hwritten, if_neg hne.symm]
    exact hfree'
  have hmoved (place : Place) : (w.setEntry (t.target target) (.file bytes)).entryAt? place =
      if place = t.target target then some (.file bytes) else w.entryAt? place := entryAt?_setEntry hgone _ place
  have hbefore : Agree touched u w := .erase (.inl rfl) hkept
  have hafter : Agree touched w (w.setEntry (t.target target) (.file bytes)) := .setEntry (.inr rfl) hgone _
  refine ⟨u, w.setEntry (t.target target) (.file bytes), write_eq_ok hsource hfree bytes, ?_,
    (hagree.trans hbefore).trans hafter, ?_, ?_, rfl, rfl⟩
  · have hlocate : u.locate source = .ok (t.target source) :=
      locate_of_directories hagree.working hagree.directory hsource
    have hlocate' : u.locate target = .ok (t.target target) :=
      locate_of_directories hagree.working hagree.directory htarget
    have hstays : u.entryAt? (t.target target) ≠ some .directory := by
      rwa [hwritten, if_neg hne.symm]
    exact rename_eq_ok hlocate hlocate' hfound nofun hstays
  · rw [hmoved, if_pos rfl]
  · rw [hmoved, if_neg hne, herased, if_pos rfl]

end Files

namespace JsonStore

open Files (Agree Reachable pathFault nameLimit)

variable {α : Type} {s : JsonStore} {form : Json.Form α} {root name : String} {value : α} {t u : Files}

/-- The directory of the documents is one of another directory, and neither its name nor those of the files in it are
too long. -/
structure Within (s : JsonStore) (root name : String) : Prop where
  base : ∃ directory, Path.IsName directory ∧ directory.utf8ByteSize ≤ nameLimit ∧ s.base = Path.join root directory
  document : Path.IsName name ∧ name.utf8ByteSize ≤ nameLimit
  temporary : Path.IsName (temporaryName name) ∧ (temporaryName name).utf8ByteSize ≤ nameLimit

/-- The places that saving a document is about. -/
def places (s : JsonStore) (name : String) (t : Files) : List Place :=
  [t.target s.base, s.place name t, s.place (temporaryName name) t]

/-- Nothing is in the way of saving a document. -/
structure Ready (s : JsonStore) (name : String) (t : Files) : Prop where
  paths : ∀ path ∈ [s.base, s.filePath name, s.filePath (temporaryName name)], pathFault path = none
  base : t.entryAt? (t.target s.base) = none ∨ t.entryAt? (t.target s.base) = some .directory
  document : t.entryAt? (s.place name t) ≠ some .directory
  temporary : t.entryAt? (s.place (temporaryName name) t) ≠ some .directory

theorem places_eq (hs : s.Within root name) (t : Files) : s.places name t =
    [t.target s.base, t.target s.base ++ [name], t.target s.base ++ [temporaryName name]] := by
  rw [places, place, place, filePath, filePath, Files.target_join t _ hs.document.1,
    Files.target_join t _ hs.temporary.1]

theorem nodup_places (hs : s.Within root name) (t : Files) : (s.places name t).Nodup := by
  have hshorter (names : Place) (name : String) : names ≠ names ++ [name] :=
    fun heq => by simpa using congrArg List.length heq
  have hname : name ≠ temporaryName name := by
    intro heq
    have hlength := congrArg String.length heq
    rw [temporaryName, String.length_append] at hlength
    exact absurd hlength (Nat.ne_of_lt (Nat.lt_add_of_pos_right (by decide)))
  rw [places_eq hs]
  simp [hshorter, hname]

theorem places_of_working (s : JsonStore) (name : String) (h : u.working = t.working) :
    s.places name u = s.places name t := by
  simp only [places, place, Files.target_of_working h]

/-- What is ready stays ready where the places are as they were. -/
theorem Ready.agree {touched : Place → Prop} (h : s.Ready name t) (hagree : Agree touched t u)
    (hfree : ∀ place ∈ s.places name t, ¬touched place) : s.Ready name u := by
  have hplace (path : String) : u.target path = t.target path := Files.target_of_working hagree.working path
  simp only [places, place, List.forall_mem_cons] at hfree
  obtain ⟨hbase, hdocument, htemporary, -⟩ := hfree
  refine ⟨h.paths, ?_, ?_, ?_⟩
  · rw [hplace, hagree.entry _ hbase]
    exact h.base
  · rw [place, hplace, hagree.entry _ hdocument]
    exact h.document
  · rw [place, hplace, hagree.entry _ htemporary]
    exact h.temporary

/-! ## The directory -/

/-- The directory is made if there is nothing at its place, and nothing else changes. -/
theorem Ready.createBase (h : s.Ready name t) (hs : s.Within root name) (hroot : Reachable root t) :
    ∃ u, s.createBase t = (.ok (), u) ∧ t.Furnished u ∧ Reachable s.base u ∧
      Agree (· = t.target s.base) t u := by
  obtain ⟨directory, hname, hsize, hjoin⟩ := hs.base
  have hfault : pathFault s.base = none := h.paths _ List.mem_cons_self
  have hway : t.Way s.base (t.target s.base) := hjoin ▸ hroot.way_join hname hsize
  have hfind : t.find? s.base = t.entryAt? (t.target s.base) := by
    rw [Files.find?, Files.locate_eq_ok_iff.2 ⟨hfault, hway⟩]
  unfold JsonStore.createBase
  rw [Files.exists?, hfind]
  obtain hfree | hdirectory := h.base
  · have hmade := hroot.createDirectories_join hname hsize (hjoin ▸ hfault) (hjoin ▸ hfree)
    rw [← hjoin] at hmade
    rw [hfree, hmade]
    have hfurnished : t.Furnished (t.setEntry (t.target s.base) .directory) := .make .refl hfree
    have hnot : t.entryAt? (t.target s.base) ≠ some .directory := by simp [hfree]
    have hagree : Agree (· = t.target s.base) t (t.setEntry (t.target s.base) .directory) :=
      .setEntry (by rfl) hnot _
    refine ⟨_, rfl, hfurnished, ⟨?_, ?_⟩, hagree⟩
    · exact hway.of_directories rfl fun place hplace => hfurnished.entry hplace
    · exact (Files.entryAt?_setEntry hnot _ _).trans (if_pos rfl)
  · rw [hdirectory]
    exact ⟨t, rfl, .refl, ⟨hway, hdirectory⟩, .refl t⟩

theorem furnished_createBase (s : JsonStore) (t : Files) : t.Furnished (s.createBase t).2 := by
  unfold createBase
  split
  · exact .refl
  · exact .createDirectories t s.base

/-- Where the directory could be made, or was there. -/
theorem of_createBase (hs : s.Within root name) (hroot : Reachable root t) (h : s.createBase t = (.ok (), u))
    {file : String} (hfile : Path.IsName file)
    (hlocate : u.locate (s.filePath file) = .ok (u.target (s.filePath file))) :
    pathFault s.base = none ∧
      (t.entryAt? (t.target s.base) = none ∨ t.entryAt? (t.target s.base) = some .directory) := by
  obtain ⟨directory, hname, hsize, hjoin⟩ := hs.base
  have hway : t.Way s.base (t.target s.base) := hjoin ▸ hroot.way_join hname hsize
  unfold createBase at h
  split at h
  · rename_i hexists
    cases h
    have hpath : t.Way (s.filePath file) (t.target (s.filePath file)) := (Files.locate_eq_ok_iff.1 hlocate).2
    refine ⟨?_, .inr (hpath.directory_of_join hfile)⟩
    unfold Files.exists? Files.find? at hexists
    split at hexists
    · rename_i hfound
      exact (Files.locate_eq_ok_iff.1 hfound).1
    · cases hexists
  · rename_i hmissing
    match hmade : t.createDirectories s.base with
    | (.error _, _) =>
      rw [hmade] at h
      cases h
    | (.ok (), made) =>
      have hbase : made.isDirectory s.base = true :=
        (Files.isDirectory_of_createDirectories hmade).resolve_left (hjoin ▸ Path.join_ne_empty root hname)
      obtain ⟨place, hplace, -⟩ := Files.isDirectory_iff.1 hbase
      have hfault := (Files.locate_eq_ok_iff.1 hplace).1
      refine ⟨hfault, .inl ?_⟩
      rw [Files.exists?, Files.find?, Files.locate_eq_ok_iff.2 ⟨hfault, hway⟩] at hmissing
      simpa using hmissing

/-! ## Saving -/

/-- A document is saved only if nothing is in the way. -/
theorem ready_of_save (hs : s.Within root name) (hroot : Reachable root t)
    (h : s.save form name value t = (.ok (), u)) : s.Ready name t := by
  have hfurnished := furnished_createBase s t
  unfold save at h
  split at h
  · cases h
  · rename_i t₁ hcreate
    rw [hcreate] at hfurnished
    simp only at h
    split at h
    · cases h
    · rename_i t₂ hwrite
      split at h
      · cases h
      · rename_i hrename
        cases h
        obtain ⟨hlocate, hfree, rfl⟩ := Files.of_write hwrite
        obtain ⟨hlocate', hfree', -⟩ := Files.of_rename hrename
        have hplace (path : String) : t₁.target path = t.target path :=
          Files.target_of_working hfurnished.working_eq path
        have hwritten : ∀ place, t₁.entryAt? place = some .directory →
            (t₁.setEntry (t₁.target (s.filePath (temporaryName name)))
              (.file (form.write value).toIndented)).entryAt? place = some .directory := by
          intro place hdirectory
          rw [Files.entryAt?_setEntry hfree, if_neg]
          · exact hdirectory
          · rintro rfl
            exact hfree hdirectory
        obtain ⟨hfault, hbase⟩ := of_createBase hs hroot hcreate hs.temporary.1 hlocate
        refine ⟨?_, hbase, fun hdirectory => ?_, fun hdirectory => ?_⟩
        · simp only [List.forall_mem_cons]
          exact ⟨hfault, (Files.locate_eq_ok_iff.1 hlocate').1, (Files.locate_eq_ok_iff.1 hlocate).1,
            List.forall_mem_nil _⟩
        · have hmade := hfurnished.entry hdirectory
          rw [place, ← hplace] at hmade
          exact hfree' (hwritten _ hmade)
        · have hmade := hfurnished.entry hdirectory
          rw [place, ← hplace] at hmade
          exact hfree hmade

/-- If nothing is in the way, a document is saved. No other place changes, no store does, and nothing is in the way of
saving the document again. -/
theorem Ready.save (h : s.Ready name t) (hs : s.Within root name) (hroot : Reachable root t) (form : Json.Form α)
    (value : α) : ∃ u, s.save form name value t = (.ok (), u) ∧ Agree (· ∈ s.places name t) t u ∧
      u.stores = t.stores ∧ u.users = t.users ∧ s.Ready name u := by
  obtain ⟨t₁, hcreate, hfurnished, hbase, hagree₁⟩ := h.createBase hs hroot
  have hworking := hfurnished.working_eq
  have hplace (path : String) : t₁.target path = t.target path := Files.target_of_working hworking path
  have hnodup := nodup_places hs t
  simp only [places, List.nodup_cons, List.mem_cons, List.not_mem_nil, or_false, not_or] at hnodup
  obtain ⟨⟨hdocument, htemporary⟩, hdistinct, -⟩ := hnodup
  have hpaths := h.paths
  simp only [List.forall_mem_cons] at hpaths
  obtain ⟨-, hfault, hfault', -⟩ := hpaths
  have hlocate : t₁.locate (s.filePath name) = .ok (t₁.target (s.filePath name)) :=
    Files.locate_eq_ok_iff.2 ⟨hfault, hbase.way_join hs.document.1 hs.document.2⟩
  have hlocate' : t₁.locate (s.filePath (temporaryName name)) = .ok (t₁.target (s.filePath (temporaryName name))) :=
    Files.locate_eq_ok_iff.2 ⟨hfault', hbase.way_join hs.temporary.1 hs.temporary.2⟩
  have hfree : t₁.entryAt? (t₁.target (s.filePath name)) ≠ some .directory := by
    rw [hplace]
    exact hagree₁.entry _ (Ne.symm hdocument) ▸ h.document
  have hfree' : t₁.entryAt? (t₁.target (s.filePath (temporaryName name))) ≠ some .directory := by
    rw [hplace]
    exact hagree₁.entry _ (Ne.symm htemporary) ▸ h.temporary
  obtain ⟨t₂, t₃, hwrite, hrename, hagree₂, hentry, hgone, hstores, husers⟩ := Files.exists_write_rename hlocate'
    hlocate hfree' hfree (by rw [hplace, hplace]; exact Ne.symm hdistinct) (form.write value).toIndented
  simp only [hplace] at hagree₂ hentry hgone
  have hagree : Agree (· ∈ s.places name t) t t₃ := by
    refine (hagree₁.mono fun place hplace => ?_).trans (hagree₂.mono fun place hplace => ?_)
    · exact List.mem_cons.2 (.inl hplace)
    · simp only [places, List.mem_cons, List.not_mem_nil, or_false]
      exact .inr hplace.symm
  have hplace₃ (path : String) : t₃.target path = t.target path := Files.target_of_working hagree.working path
  refine ⟨t₃, ?_, hagree, hstores.trans hfurnished.stores_eq, husers.trans hfurnished.users_eq, ⟨h.paths, ?_, ?_, ?_⟩⟩
  · rw [JsonStore.save, hcreate]
    simp only [hwrite, hrename]
  · rw [hplace₃, ← hplace]
    exact .inr (hagree₂.directory _ (hplace s.base ▸ hbase.directory))
  · rw [place, hplace₃, hentry]
    intro hdirectory
    cases hdirectory
  · rw [place, hplace₃, hgone]
    intro hdirectory
    cases hdirectory

end JsonStore

end ClassDeps
