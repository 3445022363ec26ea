import ClassDeps.Proofs.Files.Saving
import ClassDeps.Proofs.Files.Ways
import ClassDeps.Proofs.Symbols.Saved

/-!
# All or nothing

A document is saved as a whole or not at all. The file that it is first written to is a different one whatever the name
of the document is, so that a failure leaves the former document as it was; all other files are left alone in any case.
Only directories may have been made, which are those on the way to the directory of the documents.

## Main definitions

* `Files.SameBut` — trees with the same files, except at some places
* `JsonStore.ReadsBack` — values whose documents can be read

## Main statements

* `JsonStore.place_temporaryName_ne` — the two files are different ones
* `JsonStore.save_all_or_nothing` — what saving does, and what a failure leaves
* `JsonStore.save_failed_not_nothing` — directories that were made may come into sight under the name
-/

namespace ClassDeps

namespace Path

theorem splitSlashes_append_of_notMem (xs : List Char) {ys : List Char} (h : '/' ∉ ys) :
    ∃ parts last, splitSlashes xs = parts ++ [last] ∧ splitSlashes (xs ++ ys) = parts ++ [last ++ ys] := by
  induction xs with
  | nil => exact ⟨[], [], rfl, splitSlashes_of_notMem h⟩
  | cons c xs ih =>
    obtain ⟨parts, last, hxs, happend⟩ := ih
    rw [List.cons_append, splitSlashes, splitSlashes, hxs, happend]
    split
    · exact ⟨[] :: parts, last, rfl, rfl⟩
    · cases parts with
      | nil => exact ⟨[], c :: last, rfl, rfl⟩
      | cons part parts => exact ⟨(c :: part) :: parts, last, rfl, rfl⟩

/-- An ending without slashes makes the last name longer. -/
theorem steps_append_ending (path : String) {ending : String} (h : '/' ∉ ending.toList) :
    ∃ names last, steps path = names ++ [last] ∧ steps (path ++ ending) = names ++ [last ++ ending] := by
  obtain ⟨parts, last, hpath, happend⟩ := splitSlashes_append_of_notMem path.toList h
  refine ⟨parts.map String.ofList, String.ofList last, ?_, ?_⟩
  · rw [steps, names, hpath, List.map_append, List.map_singleton]
  · rw [steps, names, String.toList_append, happend, List.map_append, List.map_singleton, String.ofList_append,
      String.ofList_toList]

end Path

namespace Files

variable {touched : Place → Prop} {t u v : Files} {path source target : String} {bytes : Bytes}

/-! ## Files beside each other -/

/-- A path with an ending leads into the directory of the path, to a file of its own. -/
theorem target_append_ending (t : Files) (path : String) {ending : String} (h : '/' ∉ ending.toList)
    (hlength : 3 ≤ ending.length) :
    ∃ parent last, t.target path = parent.enter last ∧ t.target (path ++ ending) = parent ++ [last ++ ending] := by
  obtain ⟨names, last, hpath, happend⟩ := Path.steps_append_ending path h
  have hlonger : 3 ≤ (last ++ ending).length := by
    rw [String.length_append]
    exact Nat.le_trans hlength (Nat.le_add_left _ _)
  have hname {name : String} (hshort : name.length < 3) : last ++ ending ≠ name := by
    rintro rfl
    exact absurd hshort (Nat.not_lt_of_le hlonger)
  have hstart : t.start (path ++ ending) = t.start path := by
    by_cases hempty : path = ""
    · subst hempty
      have hrelative : Path.isAbsolute ending = false :=
        beq_eq_false_iff_ne.2 fun hhead => h (List.mem_of_head? hhead)
      rw [String.empty_append, start, start, hrelative]
      rfl
    · rw [start, start, Path.isAbsolute_append hempty]
  refine ⟨names.foldl Place.enter (t.start path), last, ?_, ?_⟩
  · rw [target, hpath, List.foldl_append]
    rfl
  · have hbusy : Path.isIdle (last ++ ending) = false := by
      rw [Path.isIdle, decide_eq_false (hname (by decide)), decide_eq_false (hname (by decide))]
      rfl
    rw [target, happend, hstart, List.foldl_append, List.foldl_cons, List.foldl_nil, Place.enter, hbusy,
      if_neg Bool.false_ne_true, if_neg (hname (by decide))]

theorem target_append_ending_ne (t : Files) (path : String) {ending : String} (h : '/' ∉ ending.toList)
    (hlength : 3 ≤ ending.length) : t.target (path ++ ending) ≠ t.target path := by
  obtain ⟨parent, last, hpath, happend⟩ := target_append_ending t path h hlength
  rw [hpath, happend]
  intro heq
  have hsame := congrArg List.length heq
  rw [List.length_append, List.length_singleton] at hsame
  unfold Place.enter at heq hsame
  split at heq
  · rename_i hidle
    rw [if_pos hidle] at hsame
    omega
  · rename_i hidle
    rw [if_neg hidle] at hsame
    split at heq
    · rename_i hparent
      rw [if_pos hparent, List.length_dropLast] at hsame
      omega
    · have hlast := congrArg String.length (List.singleton_inj.1 (List.append_cancel_left heq))
      rw [String.length_append] at hlast
      omega

/-! ## The same files -/

/-- Trees with the same files, except at some places. Directories may have been made on the way to a path. -/
structure SameBut (touched : Place → Prop) (path : String) (t u : Files) : Prop where
  working : u.working = t.working
  stores : u.stores = t.stores
  users : u.users = t.users
  directory : ∀ place, t.entryAt? place = some .directory → u.entryAt? place = some .directory
  entry : ∀ place, ¬touched place → u.entryAt? place = t.entryAt? place ∨
    t.entryAt? place = none ∧ u.entryAt? place = some .directory ∧ t.OnWay path place

namespace SameBut

theorem of_furnished (h : t.Furnished u) (hagree : Agree (t.OnWay path) t u) : SameBut touched path t u where
  working := hagree.working
  stores := h.stores_eq
  users := h.users_eq
  directory := hagree.directory
  entry place _ := by
    obtain hsame | ⟨hfree, hmade⟩ := h.entry_eq_or place
    · exact .inl hsame
    · by_cases hway : t.OnWay path place
      · exact .inr ⟨hfree, hmade, hway⟩
      · exact .inl (hagree.entry place hway)

theorem trans_agree (h : SameBut touched path t u) (hagree : Agree touched u v) (hstores : v.stores = u.stores)
    (husers : v.users = u.users) : SameBut touched path t v where
  working := hagree.working.trans h.working
  stores := hstores.trans h.stores
  users := husers.trans h.users
  directory place hplace := hagree.directory place (h.directory place hplace)
  entry place hplace := by
    rw [hagree.entry place hplace]
    exact h.entry place hplace

/-- What a path leads to is found there as before. -/
theorem find?_eq_some (h : SameBut touched path t u) {other : String} {entry : Entry}
    (hfree : ¬touched (t.target other)) (hfind : t.find? other = some entry) : u.find? other = some entry := by
  unfold find? at hfind ⊢
  split at hfind
  · rename_i place hlocate
    rw [locate_of_directories h.working h.directory hlocate]
    rw [← locate_eq_target hlocate] at hfree
    obtain hsame | ⟨hnone, -⟩ := h.entry place hfree
    · exact hsame.trans hfind
    · rw [hfind] at hnone
      cases hnone
  · cases hfind

end SameBut

/-! ## Moving a file over another one -/

theorem agree_write (h : t.write path bytes = .ok u) : Agree (· = t.target path) t u := by
  obtain ⟨-, hfree, rfl⟩ := of_write h
  exact .setEntry (by rfl) hfree _

/-- A file that was written beside another one and moved over it is in its place and nowhere else. -/
theorem of_write_rename_ne (hwrite : t.write source bytes = .ok u) (hrename : u.rename source target = .ok v)
    (hne : t.target source ≠ t.target target) :
    Agree (fun place => place = t.target source ∨ place = t.target target) t v ∧
      v.entryAt? (t.target source) = none ∧ v.stores = t.stores ∧ v.users = t.users := by
  obtain ⟨hsource, hfree, hu⟩ := of_write hwrite
  obtain ⟨hlocated, hfree', -⟩ := of_rename hrename
  have hentry (place : Place) : u.entryAt? place = if place = t.target source then some (.file bytes) else
      t.entryAt? place := hu ▸ entryAt?_setEntry hfree _ place
  have hworking : u.working = t.working := hu ▸ rfl
  have htarget : u.target target = t.target target := target_of_working hworking target
  rw [htarget] at hlocated hfree'
  have hbefore : t.locate target = .ok (t.target target) := by
    refine locate_of_directories hworking.symm (fun place hplace => ?_) hlocated
    rw [hentry] at hplace
    split at hplace
    · cases hplace
    · exact hplace
  rw [hentry, if_neg hne.symm] at hfree'
  obtain ⟨_, _, hwrite', hrename', hagree, -, hgone, hstores, husers⟩ :=
    exists_write_rename hsource hbefore hfree hfree' hne bytes
  cases hwrite.symm.trans hwrite'
  cases hrename.symm.trans hrename'
  exact ⟨hagree, hgone, hstores, husers⟩

end Files

/-! ## Saving documents -/

namespace JsonStore

open Files (Agree SameBut)

variable {α : Type} {s : JsonStore} {form : Json.Form α} {name : String} {value : α} {error : Error} {t u : Files}

/-- A value whose document is a text that stands for the value. -/
structure ReadsBack (form : Json.Form α) (value : α) : Prop where
  text : (form.write value).toIndented.toText?.isSome
  value : form.ofBytes? (form.write value).toIndented = some value

theorem filePath_temporaryName (s : JsonStore) (name : String) :
    s.filePath (temporaryName name) = s.filePath name ++ ".tmp" := by
  have habsolute : Path.isAbsolute (name ++ ".tmp") = Path.isAbsolute name := by
    by_cases hempty : name = ""
    · rw [hempty]
      rfl
    · exact Path.isAbsolute_append hempty _
  rw [filePath, filePath, temporaryName, Path.join, Path.join, habsolute]
  split
  · rfl
  · split
    · exact String.append_assoc.symm
    · exact String.append_assoc.symm

/-- A document is never written over the former one. -/
theorem place_temporaryName_ne (s : JsonStore) (name : String) (t : Files) :
    s.place (temporaryName name) t ≠ s.place name t := by
  rw [place, filePath_temporaryName]
  exact Files.target_append_ending_ne t _ (by decide) (by decide)

theorem place_of_working (s : JsonStore) (name : String) (h : u.working = t.working) : s.place name u = s.place name t :=
  Files.target_of_working h _

/-- Where the directory of the documents is made, only the way to it changes. -/
theorem sameBut_createBase (s : JsonStore) (touched : Place → Prop) (t : Files) :
    SameBut touched s.base t (s.createBase t).2 := by
  refine .of_furnished (furnished_createBase s t) ?_
  unfold createBase
  split
  · exact .refl t
  · exact Files.agree_createDirectories t s.base

/-- A document that was saved was first written to another file. -/
theorem of_save_eq_ok (h : s.save form name value t = (.ok (), u)) :
    ∃ v, (s.createBase t).2.write (s.filePath (temporaryName name)) (form.write value).toIndented = .ok v ∧
      v.rename (s.filePath (temporaryName name)) (s.filePath name) = .ok u := by
  unfold save at h
  split at h
  · cases h
  · rename_i hcreate
    rw [hcreate]
    simp only at h
    split at h
    · cases h
    · rename_i v hwrite
      split at h
      · cases h
      · rename_i hrename
        cases h
        exact ⟨v, hwrite, hrename⟩

/-- A document that was not saved may have been written to another file. -/
theorem of_save_eq_error (h : s.save form name value t = (.error error, u)) :
    u = (s.createBase t).2 ∨
      (s.createBase t).2.write (s.filePath (temporaryName name)) (form.write value).toIndented = .ok u := by
  unfold save at h
  split at h
  · rename_i hcreate
    cases h
    rw [hcreate]
    exact .inl rfl
  · rename_i hcreate
    rw [hcreate]
    simp only at h
    split at h
    · cases h
      exact .inl rfl
    · rename_i hwrite
      split at h
      · cases h
        exact .inr hwrite
      · cases h

/-- What was saved is loaded, and the file that it was first written to is gone. -/
theorem sameBut_of_save (h : s.save form name value t = (.ok (), u)) :
    SameBut (fun place => place = s.place name t ∨ place = s.place (temporaryName name) t) s.base t u ∧
      u.entryAt? (s.place (temporaryName name) t) = none := by
  obtain ⟨v, hwrite, hrename⟩ := of_save_eq_ok h
  have hmade := sameBut_createBase s (fun place => place = s.place name t ∨ place = s.place (temporaryName name) t) t
  obtain ⟨hagree, hgone, hstores, husers⟩ :=
    Files.of_write_rename_ne hwrite hrename (place_temporaryName_ne s name _)
  rw [Files.target_of_working hmade.working, Files.target_of_working hmade.working] at hagree
  rw [Files.target_of_working hmade.working] at hgone
  exact ⟨hmade.trans_agree (hagree.mono fun place hplace => hplace.symm) hstores husers, hgone⟩

/-- A failure changes only the file that the document was to be written to first. -/
theorem sameBut_of_save_error (h : s.save form name value t = (.error error, u)) :
    SameBut (fun place => place = s.place (temporaryName name) t) s.base t u := by
  have hmade := sameBut_createBase s (fun place => place = s.place (temporaryName name) t) t
  obtain rfl | hwrite := of_save_eq_error h
  · exact hmade
  · have hagree := Files.agree_write hwrite
    rw [Files.target_of_working hmade.working] at hagree
    obtain ⟨-, -, rfl⟩ := Files.of_write hwrite
    exact hmade.trans_agree hagree rfl rfl

/-- After a document was saved it is loaded, and the file beside it is missing. After a failure whatever stood under the
name stands there as before, but where there was nothing there may be a directory on the way to that of the documents.
This is nowhere under the name of a file in a directory whose path never turns back. In either case all files other than
the document and the one beside it are the same, as are all stores. -/
theorem save_all_or_nothing (s : JsonStore) (form : Json.Form α) (name : String) (value : α) (t : Files) :
    (∀ u, s.save form name value t = (.ok (), u) →
      (ReadsBack form value → s.load form name u = .ok value) ∧ s.exists? (temporaryName name) u = false ∧
        SameBut (fun place => place = s.place name t ∨ place = s.place (temporaryName name) t) s.base t u) ∧
    ∀ error u, s.save form name value t = (.error error, u) →
      (∀ entry, t.find? (s.filePath name) = some entry → u.find? (s.filePath name) = some entry) ∧
        (u.entryAt? (s.place name t) = t.entryAt? (s.place name t) ∨ t.entryAt? (s.place name t) = none ∧
          u.entryAt? (s.place name t) = some .directory ∧ t.OnWay s.base (s.place name t)) ∧
        (".." ∉ Path.steps s.base → Path.IsName name →
          u.entryAt? (s.place name t) = t.entryAt? (s.place name t)) ∧
        SameBut (fun place => place = s.place (temporaryName name) t) s.base t u := by
  refine ⟨fun u h => ?_, fun error u h => ?_⟩
  · obtain ⟨hsame, hgone⟩ := sameBut_of_save h
    refine ⟨fun hvalue => ?_, ?_, hsame⟩
    · obtain ⟨hwritten, -⟩ : s.Written name _ u ∧ t.Spares (fun _ => False) (fun _ => False) u :=
        written_of_save h id id
      exact (loadOptional_eq_some_iff.1 (hwritten.loadOptional_eq hvalue.text hvalue.value)).2
    · rw [← Bool.not_eq_true, exists?_iff]
      rintro ⟨entry, -, hentry⟩
      rw [place_of_working s _ hsame.working, hgone] at hentry
      cases hentry
  · have hsame := sameBut_of_save_error h
    have hfree : s.place name t ≠ s.place (temporaryName name) t := (place_temporaryName_ne s name t).symm
    have hentry := hsame.entry _ hfree
    refine ⟨fun entry hfind => hsame.find?_eq_some hfree hfind, hentry, fun hbase hname => ?_, hsame⟩
    exact hentry.resolve_right fun ⟨_, _, hway⟩ => Files.not_onWay_join hbase hname hway

theorem readsBack_symbolFile (file : SymbolFile) : ReadsBack SymbolFile.form file where
  text := Json.isText_toIndented (SymbolFile.intact_form file)
  value := SymbolFile.ofBytes?_toIndented file

/-- A document is saved beside a directory, which no document replaces. -/
theorem save_all_or_nothing_symbols : ∃ (t saved failed : Files) (error : Error),
    save ⟨"s"⟩ SymbolFile.form "n" ⟨1, ["A"]⟩ t = (.ok (), saved) ∧
      load ⟨"s"⟩ SymbolFile.form "n" saved = .ok ⟨1, ["A"]⟩ ∧ exists? ⟨"s"⟩ (temporaryName "n") saved = false ∧
      save ⟨"s"⟩ SymbolFile.form "d" ⟨1, ["A"]⟩ t = (.error error, failed) ∧
      failed.find? (filePath ⟨"s"⟩ "d") = some .directory ∧
      failed.entryAt? (place ⟨"s"⟩ "d" t) = t.entryAt? (place ⟨"s"⟩ "d" t) := by
  let t : Files := (Files.empty.setEntry ["s"] .directory).setEntry ["s", "d"] .directory
  let ok := save ⟨"s"⟩ SymbolFile.form "n" ⟨1, ["A"]⟩ t
  let failure := save ⟨"s"⟩ SymbolFile.form "d" ⟨1, ["A"]⟩ t
  have hresult : ok.1 = .ok () := by decide +kernel
  have hresult' : failure.1 = .error (.storage (.replace "s/d" .isADirectory)) := by decide +kernel
  have hsave : save ⟨"s"⟩ SymbolFile.form "n" ⟨1, ["A"]⟩ t = (.ok (), ok.2) := Prod.ext hresult rfl
  have hsave' : save ⟨"s"⟩ SymbolFile.form "d" ⟨1, ["A"]⟩ t = (.error _, failure.2) := Prod.ext hresult' rfl
  have hfind : t.find? (filePath ⟨"s"⟩ "d") = some .directory := by decide +kernel
  have hname : Path.IsName "d" := ⟨by decide, by decide, by decide⟩
  obtain ⟨hload, hgone, -⟩ := (save_all_or_nothing ⟨"s"⟩ SymbolFile.form "n" ⟨1, ["A"]⟩ t).1 _ hsave
  obtain ⟨hfound, -, hentry, -⟩ := (save_all_or_nothing ⟨"s"⟩ SymbolFile.form "d" ⟨1, ["A"]⟩ t).2 _ _ hsave'
  exact ⟨t, _, _, _, hsave, hload (readsBack_symbolFile _), hgone, hsave', hfound _ hfind, hentry (by decide) hname⟩

/-- A failure may leave a directory under a name under which nothing was: the directory of the documents itself, or one
that could not be reached before, since the way to it went through one that was missing. -/
theorem save_failed_not_nothing :
    (∃ (s : JsonStore) (file : SymbolFile) (t u : Files) (error : Error), ReadsBack SymbolFile.form file ∧
      s.save SymbolFile.form "." file t = (.error error, u) ∧ s.exists? "." t = false ∧
        u.find? (s.filePath ".") = some .directory) ∧
    ∃ (s : JsonStore) (file : SymbolFile) (t u : Files) (error : Error), ReadsBack SymbolFile.form file ∧
      s.save SymbolFile.form "n" file t = (.error error, u) ∧ s.exists? "n" t = false ∧
        u.find? (s.filePath "n") = some .directory := by
  constructor
  · let failure := save ⟨"s"⟩ SymbolFile.form "." ⟨1, []⟩ .empty
    have hresult : failure.1 = .error (.storage (.replace "s/." .isADirectory)) := by decide +kernel
    have hmissing : exists? ⟨"s"⟩ "." .empty = false := by decide +kernel
    have hfound : failure.2.find? (filePath ⟨"s"⟩ ".") = some .directory := by decide +kernel
    exact ⟨⟨"s"⟩, ⟨1, []⟩, .empty, failure.2, _, readsBack_symbolFile _, Prod.ext hresult rfl, hmissing, hfound⟩
  · let t : Files := Files.empty.setEntry ["n"] .directory
    let failure := save ⟨"x/.."⟩ SymbolFile.form "n" ⟨1, []⟩ t
    have hresult : failure.1 = .error (.storage (.replace "x/../n" .isADirectory)) := by decide +kernel
    have hmissing : exists? ⟨"x/.."⟩ "n" t = false := by decide +kernel
    have hfound : failure.2.find? (filePath ⟨"x/.."⟩ "n") = some .directory := by decide +kernel
    exact ⟨⟨"x/.."⟩, ⟨1, []⟩, t, failure.2, _, readsBack_symbolFile _, Prod.ext hresult rfl, hmissing, hfound⟩

end JsonStore

end ClassDeps
