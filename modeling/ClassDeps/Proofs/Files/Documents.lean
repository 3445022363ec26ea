import ClassDeps.Files.JsonStore
import ClassDeps.Proofs.Files.Spared
import ClassDeps.Proofs.Json.Indented
import ClassDeps.Proofs.Json.Textual
import ClassDeps.Store.Image

/-!
# Documents in files

A document that was saved is read back, and is read the same for as long as its file is spared. The bytes of a store
file are no document.

## Main definitions

* `JsonStore.place` — where the document under a name stands
* `JsonStore.Written` — a file with some bytes stands there

## Main statements

* `JsonStore.written_of_save` — what saving writes, and what it spares
* `JsonStore.Written.spares` — a document that is spared stays
* `JsonStore.Written.loadOptional_eq`, `written_of_loadOptional` — reading a document is reading its bytes
-/

namespace ClassDeps

/-! ## Bytes that are no document -/

namespace Json

/-- No document begins with the byte that store files begin with, nor with the first letter of a page. -/
theorem ofBytes?_mark (rest : Bytes) : Json.ofBytes? (StoreFile.mark :: rest) = none := rfl

theorem ofBytes?_letter (rest : Bytes) : Json.ofBytes? (83 :: rest) = none := rfl

end Json

theorem StoreFile.ofBytes?_bytes (f : StoreFile) : Json.ofBytes? f.bytes = none := by
  unfold StoreFile.bytes
  split
  · exact Json.ofBytes?_letter _
  · exact Json.ofBytes?_mark _

/-! ## Reading files -/

namespace Files

variable {t u v : Files} {path : String} {bytes : Bytes}

theorem read_eq_ok_iff : t.read path = .ok bytes ↔
    ∃ place entry, t.locate path = .ok place ∧ t.entryAt? place = some entry ∧ t.bytes? entry = some bytes := by
  unfold Files.read
  match t.locate path with
  | .error _ => exact iff_of_false nofun fun ⟨_, _, h, _⟩ => nomatch h
  | .ok place =>
    simp only [bind, Except.bind]
    match hentry : t.entryAt? place with
    | none =>
      refine iff_of_false nofun fun ⟨_, _, hplace, h, _⟩ => ?_
      cases hplace
      rw [hentry] at h
      cases h
    | some entry =>
      simp only
      match hbytes : t.bytes? entry with
      | none =>
        refine iff_of_false nofun fun ⟨_, _, hplace, h, h'⟩ => ?_
        cases hplace
        rw [hentry] at h
        cases h
        rw [hbytes] at h'
        cases h'
      | some found =>
        constructor
        · intro h
          cases h
          exact ⟨place, entry, rfl, hentry, hbytes⟩
        · rintro ⟨_, _, hplace, h, h'⟩
          cases hplace
          rw [hentry] at h
          cases h
          rw [hbytes] at h'
          cases h'
          rfl

theorem readText_eq_ok_iff {text : String} : t.readText path = .ok text ↔ t.read path = .ok (.ofText text) := by
  unfold readText
  match t.read path with
  | .error _ => exact iff_of_false nofun nofun
  | .ok bytes =>
    simp only [bind, Except.bind]
    match htext : bytes.toText? with
    | none =>
      refine iff_of_false nofun fun h => ?_
      cases h
      rw [Bytes.toText?_ofText] at htext
      cases htext
    | some found =>
      constructor
      · intro h
        cases h
        rw [Bytes.ofText_of_toText? htext]
      · intro h
        cases h
        rw [Bytes.toText?_ofText] at htext
        cases htext
        rfl

/-! ## Writing files -/

theorem of_write (h : t.write path bytes = .ok u) : t.locate path = .ok (t.target path) ∧
    t.entryAt? (t.target path) ≠ some .directory ∧ u = t.setEntry (t.target path) (.file bytes) := by
  unfold write at h
  match hplace : t.locate path with
  | .error _ =>
    rw [hplace] at h
    cases h
  | .ok place =>
    rw [hplace] at h
    simp only [bind, Except.bind] at h
    split at h
    · cases h
    · rename_i hdirectory
      cases h
      rw [← locate_eq_target hplace]
      exact ⟨rfl, hdirectory, rfl⟩

theorem of_rename {source target : String} (h : t.rename source target = .ok u) :
    t.locate target = .ok (t.target target) ∧ t.entryAt? (t.target target) ≠ some .directory ∧
      ∃ entry, t.entryAt? (t.target source) = some entry ∧ entry ≠ .directory ∧
        u = setEntry { t with entries := t.entries.erase (t.target source) } (t.target target) entry := by
  unfold rename at h
  match hsource : t.locate source with
  | .error _ =>
    rw [hsource] at h
    cases h
  | .ok sourcePlace =>
    rw [hsource] at h
    match htarget : t.locate target with
    | .error _ =>
      rw [htarget] at h
      cases h
    | .ok targetPlace =>
      rw [htarget] at h
      simp only [bind, Except.bind] at h
      rw [← locate_eq_target hsource, ← locate_eq_target htarget]
      split at h
      · cases h
      · cases h
      · cases h
      · rename_i entry hmoved hentry hfree
        cases h
        exact ⟨rfl, hfree, entry, hentry, hmoved, rfl⟩

/-- A file that is written and then moved spares all files but those at the two paths. -/
theorem of_write_rename {source target : String} {kept : Place → Prop} {good : StoreContents → Prop}
    (hwrite : t.write source bytes = .ok u) (hrename : u.rename source target = .ok v)
    (hsource : ¬kept (t.target source)) (htarget : ¬kept (t.target target)) :
    v.locate target = .ok (v.target target) ∧ v.entryAt? (v.target target) = some (.file bytes) ∧
      Spares kept good t v := by
  obtain ⟨-, hfree, rfl⟩ := of_write hwrite
  obtain ⟨hlocated, hfree', entry, hentry, hmoved, rfl⟩ := of_rename hrename
  -- All three trees have the working directory of the first one.
  have hplace (path : String) : (t.setEntry (t.target source) (.file bytes)).target path = t.target path := rfl
  rw [hplace] at hlocated hfree' hentry ⊢
  rw [hplace]
  have hbytes : entry = .file bytes := by
    rw [entryAt?_setEntry hfree, if_pos rfl] at hentry
    exact (Option.some.inj hentry).symm
  subst hbytes
  generalize hwritten : t.setEntry (t.target source) (.file bytes) = w at *
  have hgone : entryAt? { w with entries := w.entries.erase (t.target source) } (t.target target) ≠
      some .directory := by
    rw [entryAt?_erase (by simp [hentry])]
    split
    · nofun
    · exact hfree'
  have hspares₁ : Spares kept good t w := hwritten ▸ .setEntry hfree (fun _ _ hkept => absurd hkept hsource) nofun
  have hspares₂ : Spares kept good w { w with entries := w.entries.erase (t.target source) } :=
    .erase (by simp [hentry]) fun _ _ hkept => absurd hkept hsource
  have hspares₃ := hspares₂.trans (.setEntry hgone (fun _ _ hkept => absurd hkept htarget)
    (nofun : ∀ id, Entry.file bytes ≠ .store id))
  have hworking : (t.target target) = w.target target := (target_of_working hspares₁.working target).symm
  refine ⟨?_, ?_, hspares₁.trans hspares₃⟩
  · rw [target_of_working hspares₃.working, ← hworking]
    exact locate_of_directories hspares₃.working hspares₃.directory hlocated
  · rw [target_of_working hspares₃.working, ← hworking, entryAt?_setEntry hgone, if_pos rfl]

end Files

/-! ## Documents -/

namespace JsonStore

open Files (Spares Furnished)

variable {α : Type} {s : JsonStore} {form : Json.Form α} {name : String} {value : α} {bytes : Bytes} {t u : Files}

/-- Where the document under a name stands. -/
def place (s : JsonStore) (name : String) (t : Files) : Place :=
  t.target (s.filePath name)

/-- A file with some bytes stands where the document under a name is to stand. -/
structure Written (s : JsonStore) (name : String) (bytes : Bytes) (t : Files) : Prop where
  located : t.locate (s.filePath name) = .ok (s.place name t)
  entry : t.entryAt? (s.place name t) = some (.file bytes)

theorem load_eq (s : JsonStore) (form : Json.Form α) (name : String) (t : Files) :
    s.load form name t = match t.readText (s.filePath name) with
      | .error fault => .error (.storage (.read (s.filePath name) fault))
      | .ok text => match form.ofBytes? (.ofText text) with
        | some value => .ok value
        | none => .error (.encoding (.document (s.filePath name))) := by
  simp only [load]
  cases t.readText (s.filePath name) <;> rfl

theorem load_eq_ok_iff : s.load form name t = .ok value ↔
    ∃ text, t.read (s.filePath name) = .ok (.ofText text) ∧ form.ofBytes? (.ofText text) = some value := by
  simp only [← Files.readText_eq_ok_iff]
  rw [load_eq]
  cases t.readText (s.filePath name) with
  | error _ => simp
  | ok text =>
    simp only [Except.ok.injEq, exists_eq_left']
    cases form.ofBytes? (.ofText text) <;> simp

theorem exists?_iff : s.exists? name t = true ↔
    ∃ entry, t.locate (s.filePath name) = .ok (s.place name t) ∧ t.entryAt? (s.place name t) = some entry := by
  rw [exists?, Files.exists?, Files.find?]
  match hlocate : t.locate (s.filePath name) with
  | .error _ => exact iff_of_false nofun fun ⟨_, h, _⟩ => nomatch h
  | .ok place =>
    obtain rfl := Files.locate_eq_target hlocate
    simp [Option.isSome_iff_exists, JsonStore.place]

theorem loadOptional_eq_none_iff : s.loadOptional form name t = .ok none ↔ s.exists? name t = false := by
  unfold loadOptional
  split
  · rename_i hexists
    rw [hexists]
    cases s.load form name t <;> simp [Except.map]
  · rename_i hmissing
    simpa using hmissing

theorem loadOptional_eq_some_iff :
    s.loadOptional form name t = .ok (some value) ↔ s.exists? name t = true ∧ s.load form name t = .ok value := by
  unfold loadOptional
  split
  · rename_i hexists
    cases s.load form name t <;> simp [Except.map, hexists]
  · rename_i hexists
    exact iff_of_false nofun fun h => hexists h.1

namespace Written

theorem loadOptional_eq (h : s.Written name bytes t) (htext : bytes.toText?.isSome)
    (hvalue : form.ofBytes? bytes = some value) : s.loadOptional form name t = .ok (some value) := by
  obtain ⟨text, htext⟩ := Option.isSome_iff_exists.1 htext
  rw [← Bytes.ofText_of_toText? htext] at h hvalue
  refine loadOptional_eq_some_iff.2 ⟨?_, load_eq_ok_iff.2 ⟨text, ?_, hvalue⟩⟩
  · rw [exists?, Files.exists?, Files.find?, h.located]
    exact Option.isSome_iff_exists.2 ⟨_, h.entry⟩
  · exact Files.read_eq_ok_iff.2 ⟨_, _, h.located, h.entry, rfl⟩

/-- A document that is spared stays, unless it counts as empty. -/
theorem spares {kept : Place → Prop} {good : StoreContents → Prop} (h : s.Written name bytes t)
    (hkept : kept (s.place name t)) (hlength : 2 ≤ bytes.length) (hspares : Spares kept good t u) :
    s.Written name bytes u := by
  have hplace : s.place name u = s.place name t := Files.target_of_working hspares.working _
  refine ⟨?_, ?_⟩
  · rw [hplace]
    exact Files.locate_of_directories hspares.working hspares.directory h.located
  · rw [hplace]
    exact hspares.file _ hkept bytes hlength h.entry

end Written

/-- A document is read from a file of its own, since the bytes of a store file are none. -/
theorem written_of_loadOptional (h : s.loadOptional form name t = .ok (some value)) :
    ∃ bytes, s.Written name bytes t ∧ bytes.toText?.isSome ∧ form.ofBytes? bytes = some value := by
  obtain ⟨text, hread, hvalue⟩ := load_eq_ok_iff.1 (loadOptional_eq_some_iff.1 h).2
  obtain ⟨place, entry, hplace, hentry, hbytes⟩ := Files.read_eq_ok_iff.1 hread
  have htarget := Files.locate_eq_target hplace
  refine ⟨.ofText text, ⟨?_, ?_⟩, by simp, hvalue⟩
  · rw [JsonStore.place, ← htarget]
    exact hplace
  · rw [JsonStore.place, ← htarget, hentry]
    match entry with
    | .directory => cases hbytes
    | .file bytes => rw [Option.some.inj hbytes]
    | .store id =>
      rw [Json.Form.ofBytes?, ← Option.some.inj hbytes, StoreFile.ofBytes?_bytes] at hvalue
      cases hvalue

/-- What saving writes. It spares all files but the document and the one that this is first written to. -/
theorem written_of_save {kept : Place → Prop} {good : StoreContents → Prop}
    (h : s.save form name value t = (.ok (), u)) (hdocument : ¬kept (s.place name t))
    (htemporary : ¬kept (s.place (temporaryName name) t)) :
    s.Written name (form.write value).toIndented u ∧ Spares kept good t u := by
  unfold save at h
  have hbase : Spares kept good t (s.createBase t).2 := by
    unfold createBase
    split
    · exact .refl t
    · exact (Furnished.createDirectories t s.base).spares
  split at h
  · cases h
  · rename_i t₁ hcreate
    rw [hcreate] at hbase
    simp only at h
    split at h
    · cases h
    · rename_i t₂ hwrite
      split at h
      · cases h
      · rename_i hrename
        cases h
        have hplace (path : String) : t₁.target path = t.target path := Files.target_of_working hbase.working path
        obtain ⟨hlocated, hentry, hspares⟩ := Files.of_write_rename hwrite hrename (by rwa [hplace]) (by rwa [hplace])
        exact ⟨⟨hlocated, hentry⟩, hbase.trans hspares⟩

end JsonStore

end ClassDeps
