import ClassDeps.Proofs.Files.Spared
import Mathlib.Data.List.TakeWhile

/-!
# Making directories

A directory that is there is not made again, and after a directory was made it is there. From a directory there is a
way to every file in it.

## Main definitions

* `Files.Way` — directories on the way to the place of a path

## Main statements

* `Files.createDirectories_of_isDirectory` — making a directory that is there
* `Files.isDirectory_of_createDirectories` — a directory that was made
* `Files.Way.join` — the way to a file in a directory
* `Files.Way.storePlace?_eq` — the place of a store file, for as long as the way to it is there
-/

namespace ClassDeps

namespace Path

theorem splitSlashes_replicate (k : Nat) : splitSlashes (List.replicate k '/') = List.replicate (k + 1) [] := by
  induction k with
  | zero => rfl
  | succ k ih =>
    rw [List.replicate_succ, splitSlashes, if_pos rfl, ih]
    rfl

theorem splitSlashes_append_replicate (xs : List Char) (k : Nat) :
    splitSlashes (xs ++ List.replicate k '/') = splitSlashes xs ++ List.replicate k [] := by
  cases k with
  | zero => rw [List.replicate_zero, List.append_nil, List.replicate_zero, List.append_nil]
  | succ k => rw [List.replicate_succ, splitSlashes_append, splitSlashes_replicate]

theorem append_replicate_slash (xs : List Char) :
    (xs.reverse.dropWhile (· = '/')).reverse ++ List.replicate (xs.reverse.takeWhile (· = '/')).length '/' = xs := by
  have hslashes : xs.reverse.takeWhile (· = '/') =
      List.replicate (xs.reverse.takeWhile (· = '/')).length '/' := by
    refine List.eq_replicate_iff.2 ⟨rfl, fun c hc => ?_⟩
    have hslash := List.mem_takeWhile_imp hc
    exact of_decide_eq_true hslash
  rw [← List.reverse_replicate, ← hslashes, ← List.reverse_append, List.takeWhile_append_dropWhile,
    List.reverse_reverse]

/-- Slashes at the end of a path have only empty names beside them. -/
theorem steps_withoutTrailingSlashes (path : String) :
    ∃ k, steps path = steps (withoutTrailingSlashes path) ++ List.replicate k "" := by
  refine ⟨(path.toList.reverse.takeWhile (· = '/')).length, ?_⟩
  have hsteps : steps path = (splitSlashes path.toList).map String.ofList := rfl
  rw [hsteps, ← append_replicate_slash path.toList, splitSlashes_append_replicate, List.map_append,
    List.map_replicate, append_replicate_slash]
  rw [steps, names, withoutTrailingSlashes, String.toList_ofList]

theorem steps_ne_nil (path : String) : steps path ≠ [] := by
  obtain ⟨part, parts, h⟩ := splitSlashes_eq_cons path.toList
  rw [steps, names, h]
  exact List.cons_ne_nil _ _

end Path

namespace Files

variable {t u : Files} {path : String} {place : Place}

/-! ## Ways -/

/-- The names of a path lead to a place, and there are all directories on the way. -/
def Way (t : Files) (path : String) (place : Place) : Prop :=
  (Path.steps path).foldlM t.step (t.start path) = .ok place

theorem foldlM_step_append {names rest : List String} {start : Place} :
    (names ++ rest).foldlM t.step start = .ok place ↔
      ∃ next, names.foldlM t.step start = .ok next ∧ rest.foldlM t.step next = .ok place := by
  rw [List.foldlM_append]
  match names.foldlM t.step start with
  | .error _ => exact iff_of_false nofun fun ⟨_, h, _⟩ => nomatch h
  | .ok next => exact ⟨fun h => ⟨next, rfl, h⟩, fun ⟨_, hnext, h⟩ => Except.ok.inj hnext ▸ h⟩

theorem step_empty (h : t.entryAt? place = some .directory) : t.step place "" = .ok place := by
  rw [step, directoryFault_eq_none_iff.2 h]
  rfl

theorem foldlM_step_replicate (h : t.entryAt? place = some .directory) (k : Nat) :
    (List.replicate k "").foldlM t.step place = .ok place := by
  induction k with
  | zero => rfl
  | succ k ih =>
    rw [List.replicate_succ, List.foldlM_cons, step_empty h]
    exact ih

theorem of_foldlM_step_replicate {next : Place} {k : Nat} (h : (List.replicate k "").foldlM t.step place = .ok next) :
    next = place := by
  rw [of_foldlM_step h]
  induction k with
  | zero => rfl
  | succ k ih =>
    rw [List.replicate_succ, List.foldl_cons]
    refine ih ?_
    rw [List.replicate_succ, List.foldlM_cons] at h
    match hstep : t.step place "" with
    | .error _ =>
      rw [hstep] at h
      cases h
    | .ok last =>
      rw [hstep] at h
      rw [(of_step hstep).2] at h
      exact h

theorem locate_eq_ok_iff : t.locate path = .ok place ↔ pathFault path = none ∧ t.Way path place := by
  unfold locate follow Way
  match pathFault path with
  | some fault => exact iff_of_false nofun fun h => nomatch h.1
  | none => exact ⟨fun h => ⟨rfl, h⟩, fun h => h.2⟩

theorem isDirectory_iff : t.isDirectory path = true ↔
    ∃ place, t.locate path = .ok place ∧ t.entryAt? place = some .directory := by
  unfold isDirectory find?
  match t.locate path with
  | .error _ => exact iff_of_false nofun fun ⟨_, h, _⟩ => nomatch h
  | .ok place =>
    rw [beq_iff_eq]
    exact ⟨fun h => ⟨place, rfl, h⟩, fun ⟨_, hplace, h⟩ => Except.ok.inj hplace ▸ h⟩

/-- A directory is there for as long as all directories are. -/
theorem isDirectory_of_directories (hworking : u.working = t.working) (hkept : ∀ place,
      t.entryAt? place = some .directory → u.entryAt? place = some .directory) (h : t.isDirectory path = true) :
    u.isDirectory path = true := by
  obtain ⟨place, hplace, hentry⟩ := isDirectory_iff.1 h
  exact isDirectory_iff.2 ⟨place, locate_of_directories hworking hkept hplace, hkept place hentry⟩

namespace Way

theorem of_directories (h : t.Way path place) (hworking : u.working = t.working) (hkept : ∀ place,
    t.entryAt? place = some .directory → u.entryAt? place = some .directory) : u.Way path place := by
  have hstart : u.start path = t.start path := by rw [start, start, hworking]
  rw [Way, hstart]
  exact foldlM_step_of_directories hkept h

end Way

/-! ## Directories -/

theorem directory_setEntry (hfree : t.entryAt? place = none) (other : Place)
    (h : t.entryAt? other = some .directory) : (t.setEntry place .directory).entryAt? other = some .directory := by
  rw [entryAt?_setEntry (by simp [hfree])]
  split
  · rfl
  · exact h

/-- The last name of a path, without slashes behind it, and where the names before it lead. -/
theorem createDirectory_eq (t : Files) (path : String) :
    t.createDirectory path =
      let names := Path.steps (Path.withoutTrailingSlashes path)
      match t.follow path names.dropLast with
      | .error fault => .error fault
      | .ok parent => match t.step parent (names.getLastD "") with
        | .error fault => .error fault
        | .ok place =>
          if Path.isIdle (names.getLastD "") || names.getLastD "" = ".." || (t.entryAt? place).isSome then
            .error .alreadyExists
          else .ok (t.setEntry place .directory) := by
  simp only [createDirectory, bind, Except.bind]
  cases t.follow path (Path.steps (Path.withoutTrailingSlashes path)).dropLast with
  | error fault => rfl
  | ok parent =>
    simp only
    cases t.step parent ((Path.steps (Path.withoutTrailingSlashes path)).getLastD "") with
    | error fault => rfl
    | ok place =>
      simp only
      split <;> rfl

theorem dropLast_append_getLastD {names : List String} (h : names ≠ []) :
    names.dropLast ++ [names.getLastD ""] = names := by
  rw [List.getLastD_eq_getLast?, List.getLast?_eq_some_getLast h, Option.getD_some,
    List.dropLast_concat_getLast h]

theorem createDirectory_of_isDirectory (h : t.isDirectory path = true) :
    t.createDirectory path = .error .alreadyExists := by
  obtain ⟨place, hlocate, hentry⟩ := isDirectory_iff.1 h
  obtain ⟨hfault, hway⟩ := locate_eq_ok_iff.1 hlocate
  obtain ⟨k, hsteps⟩ := Path.steps_withoutTrailingSlashes path
  rw [Way, hsteps] at hway
  obtain ⟨next, hnames, hidle⟩ := foldlM_step_append.1 hway
  obtain rfl := of_foldlM_step_replicate hidle
  rw [← dropLast_append_getLastD (Path.steps_ne_nil _)] at hnames
  obtain ⟨parent, hparent, hlast⟩ := foldlM_step_append.1 hnames
  have hfollow : t.follow path (Path.steps (Path.withoutTrailingSlashes path)).dropLast = .ok parent := by
    rw [follow, hfault]
    exact hparent
  rw [List.foldlM_cons] at hlast
  match hstep : t.step parent ((Path.steps (Path.withoutTrailingSlashes path)).getLastD "") with
  | .error _ =>
    rw [hstep] at hlast
    cases hlast
  | .ok found =>
    rw [hstep] at hlast
    cases hlast
    simp only [createDirectory_eq, hfollow, hstep, hentry, Option.isSome_some, Bool.or_true, if_true]

/-- A directory is made where the last name of its path leads from where the others lead. -/
theorem of_createDirectory (h : t.createDirectory path = .ok u) : ∃ parent place,
    t.follow path (Path.steps (Path.withoutTrailingSlashes path)).dropLast = .ok parent ∧
      t.step parent ((Path.steps (Path.withoutTrailingSlashes path)).getLastD "") = .ok place ∧
      t.entryAt? place = none ∧ u = t.setEntry place .directory := by
  simp only [createDirectory_eq] at h
  split at h
  · cases h
  · rename_i parent hparent
    split at h
    · cases h
    · rename_i place hstep
      split at h
      · cases h
      · rename_i hnew
        cases h
        simp only [Bool.or_eq_true, not_or, Bool.not_eq_true, Option.isSome_eq_false_iff,
          Option.isNone_iff_eq_none] at hnew
        exact ⟨parent, place, hparent, hstep, hnew.2, rfl⟩

/-- A directory that was made is there. -/
theorem isDirectory_of_createDirectory (h : t.createDirectory path = .ok u) : u.isDirectory path = true := by
  obtain ⟨parent, place, hparent, hstep, hfree, rfl⟩ := of_createDirectory h
  obtain ⟨k, hsteps⟩ := Path.steps_withoutTrailingSlashes path
  have hmade : (t.setEntry place .directory).entryAt? place = some .directory := by
    rw [entryAt?_setEntry (by simp [hfree]), if_pos rfl]
  have hstart : (t.setEntry place .directory).start path = t.start path := rfl
  unfold follow at hparent
  split at hparent
  · cases hparent
  · rename_i hfault
    have hlast : [(Path.steps (Path.withoutTrailingSlashes path)).getLastD ""].foldlM t.step parent = .ok place := by
      rw [List.foldlM_cons, hstep]
      rfl
    have hnames := foldlM_step_append.2 ⟨parent, hparent, hlast⟩
    rw [dropLast_append_getLastD (Path.steps_ne_nil _)] at hnames
    refine isDirectory_iff.2 ⟨place, locate_eq_ok_iff.2 ⟨hfault, ?_⟩, hmade⟩
    rw [Way, hsteps, hstart]
    exact foldlM_step_append.2 ⟨place, foldlM_step_of_directories (directory_setEntry hfree) hnames,
      foldlM_step_replicate hmade k⟩

theorem ensureDirectory_of_isDirectory (h : t.isDirectory path = true) : t.ensureDirectory path = (.ok (), t) := by
  rw [ensureDirectory, createDirectory_of_isDirectory h]
  simp only [h, if_true]

theorem isDirectory_of_ensureDirectory (h : t.ensureDirectory path = (.ok (), u)) : u.isDirectory path = true := by
  unfold ensureDirectory at h
  split at h
  · rename_i hcreate
    cases h
    exact isDirectory_of_createDirectory hcreate
  · split at h
    · rename_i hdirectory
      cases h
      exact hdirectory
    · cases h

/-- A directory that is there is not made again, nor is one above it. -/
theorem createDirectories_of_isDirectory (h : t.isDirectory path = true) :
    t.createDirectories path = (.ok (), t) := by
  unfold createDirectories
  split
  · rfl
  · unfold createAbove
    split
    · exact ensureDirectory_of_isDirectory h
    · rw [createDirectory_of_isDirectory h]
      exact ensureDirectory_of_isDirectory h

theorem isDirectory_of_createAbove {levels : Nat} (h : createAbove levels path t = (.ok (), u)) :
    u.isDirectory path = true := by
  unfold createAbove at h
  split at h
  · exact isDirectory_of_ensureDirectory h
  · split at h
    · exact isDirectory_of_ensureDirectory h
    · split at h
      · exact isDirectory_of_ensureDirectory h
      · cases h
    · exact isDirectory_of_ensureDirectory h

/-- A directory that was made with those above it is there. The empty path needs none. -/
theorem isDirectory_of_createDirectories (h : t.createDirectories path = (.ok (), u)) :
    path = "" ∨ u.isDirectory path = true := by
  unfold createDirectories at h
  split at h
  · rename_i hempty
    exact .inl hempty
  · exact .inr (isDirectory_of_createAbove h)

/-! ## Files in directories -/

theorem step_of_isName (h : t.entryAt? place = some .directory) {name : String} (hname : Path.IsName name)
    (hsize : name.utf8ByteSize ≤ nameLimit) : t.step place name = .ok (place ++ [name]) := by
  rw [step, directoryFault_eq_none_iff.2 h]
  simp only
  rw [hname.notIdle, if_neg Bool.false_ne_true, if_neg hname.notParent, if_neg (Nat.not_lt_of_le hsize)]

/-- The names before the last one lead to the directory. -/
theorem Way.names_join {base : String} (h : t.Way base place) {name : String} (hname : Path.IsName name) :
    ∃ names, Path.steps (Path.join base name) = names ++ [name] ∧
      names.foldlM t.step (t.start (Path.join base name)) = .ok place := by
  obtain ⟨habsolute, names, idle, hbase, hidle, hjoin⟩ := Path.steps_join base hname
  have hstart : t.start (Path.join base name) = t.start base := by rw [start, start, habsolute]
  rw [Way, hbase] at h
  obtain ⟨next, hnames, hrest⟩ := foldlM_step_append.1 h
  have hnext : next = place := by
    obtain rfl | rfl := hidle
    · cases hrest
      rfl
    · exact (of_foldlM_step_replicate (k := 1) hrest).symm
  exact ⟨names, hjoin, by rw [hstart, hnames, hnext]⟩

/-- There is a way from a directory to every file in it. -/
theorem Way.join {base : String} (h : t.Way base place) (hplace : t.entryAt? place = some .directory) {name : String}
    (hname : Path.IsName name) (hsize : name.utf8ByteSize ≤ nameLimit) :
    t.Way (Path.join base name) (place ++ [name]) := by
  obtain ⟨names, hjoin, hnames⟩ := h.names_join hname
  rw [Way, hjoin]
  refine foldlM_step_append.2 ⟨place, hnames, ?_⟩
  rw [List.foldlM_cons, step_of_isName hplace hname hsize]
  rfl

/-- The way to a file passes through its directory. -/
theorem Way.directory_of_join {base name : String} (h : t.Way (Path.join base name) place)
    (hname : Path.IsName name) : t.entryAt? (t.target base) = some .directory := by
  obtain ⟨habsolute, names, idle, hbase, hidle, hjoin⟩ := Path.steps_join base hname
  rw [Way, hjoin] at h
  obtain ⟨next, hnames, hlast⟩ := foldlM_step_append.1 h
  have hnext : t.target base = next := by
    rw [of_foldlM_step hnames, Files.target, hbase, start, start, habsolute, List.foldl_append]
    obtain rfl | rfl := hidle
    · rfl
    · rfl
  rw [List.foldlM_cons] at hlast
  rcases hstep : t.step next name with _ | _
  · rw [hstep] at hlast
    cases hlast
  · exact hnext ▸ (of_step hstep).1

/-- There is a way into the directory of a path. -/
structure Reachable (path : String) (t : Files) : Prop where
  way : t.Way path (t.target path)
  directory : t.entryAt? (t.target path) = some .directory

namespace Reachable

theorem of_directories (h : Reachable path t) (hworking : u.working = t.working) (hkept : ∀ place,
    t.entryAt? place = some .directory → u.entryAt? place = some .directory) : Reachable path u where
  way := target_of_working hworking path ▸ h.way.of_directories hworking hkept
  directory := target_of_working hworking path ▸ hkept _ h.directory

theorem of_isDirectory (h : t.isDirectory path = true) : Reachable path t := by
  obtain ⟨place, hplace, hentry⟩ := isDirectory_iff.1 h
  have htarget := locate_eq_target hplace
  subst htarget
  exact ⟨(locate_eq_ok_iff.1 hplace).2, hentry⟩

/-- The empty path stands for the working directory. -/
theorem of_working (h : t.entryAt? t.working = some .directory) : Reachable "" t where
  way := foldlM_step_replicate h 1
  directory := h

theorem way_join (h : Reachable path t) {name : String} (hname : Path.IsName name)
    (hsize : name.utf8ByteSize ≤ nameLimit) : t.Way (Path.join path name) (t.target (Path.join path name)) := by
  rw [target_join t path hname]
  exact h.way.join h.directory hname hsize

/-- A directory is made in another one. -/
theorem createDirectory_join (h : Reachable path t) {name : String} (hname : Path.IsName name)
    (hsize : name.utf8ByteSize ≤ nameLimit) (hfault : pathFault (Path.join path name) = none)
    (hfree : t.entryAt? (t.target (Path.join path name)) = none) :
    t.createDirectory (Path.join path name) = .ok (t.setEntry (t.target (Path.join path name)) .directory) := by
  obtain ⟨names, hsteps, hnames⟩ := h.way.names_join hname
  obtain ⟨k, hslashes⟩ := Path.steps_withoutTrailingSlashes (Path.join path name)
  have hsame : Path.steps (Path.withoutTrailingSlashes (Path.join path name)) = names ++ [name] := by
    rw [hsteps] at hslashes
    cases k with
    | zero => simpa using hslashes.symm
    | succ k =>
      rw [List.replicate_succ', ← List.append_assoc] at hslashes
      have hempty : name = "" := List.singleton_inj.1 (List.append_inj' hslashes rfl).2
      rw [hempty] at hname
      exact absurd hname.notIdle (by decide)
  have hfollow : t.follow (Path.join path name) names = .ok (t.target path) := by
    rw [follow, hfault]
    exact hnames
  rw [target_join t path hname] at hfree ⊢
  have hidle : (Path.isIdle name || decide (name = "..") || (t.entryAt? (t.target path ++ [name])).isSome) = false := by
    rw [hname.notIdle, decide_eq_false hname.notParent, hfree]
    rfl
  simp only [createDirectory_eq, hsame, List.dropLast_concat, hfollow, List.getLastD_concat,
    step_of_isName h.directory hname hsize, hidle, Bool.false_eq_true, if_false]

theorem createDirectories_join (h : Reachable path t) {name : String} (hname : Path.IsName name)
    (hsize : name.utf8ByteSize ≤ nameLimit) (hfault : pathFault (Path.join path name) = none)
    (hfree : t.entryAt? (t.target (Path.join path name)) = none) :
    t.createDirectories (Path.join path name) =
      (.ok (), t.setEntry (t.target (Path.join path name)) .directory) := by
  have hcreate := h.createDirectory_join hname hsize hfault hfree
  have hensure : t.ensureDirectory (Path.join path name) =
      (.ok (), t.setEntry (t.target (Path.join path name)) .directory) := by rw [ensureDirectory, hcreate]
  unfold createDirectories
  split
  · rename_i hempty
    exact absurd hempty (Path.join_ne_empty path hname)
  · unfold createAbove
    split
    · exact hensure
    · rw [hcreate]
      exact hensure

end Reachable

/-! ## Places of store files -/

theorem directory_of_storePlace? (h : t.storePlace? path = some place) :
    t.entryAt? place.dropLast = some .directory :=
  (storePlace?_eq_some_iff.1 h).2.2.1

theorem foldlM_storeStep_of_way (hkept : ∀ place, t.entryAt? place = some .directory →
      u.entryAt? place = some .directory) {names : List String} {start next last : Place}
    (hway : names.foldlM t.step start = .ok next) (h : names.foldlM t.storeStep start = some last) :
    names.foldlM u.storeStep start = some last := by
  induction names generalizing start with
  | nil => exact h
  | cons name names ih =>
    rw [List.foldlM_cons] at hway h ⊢
    match hstep : t.step start name with
    | .error _ =>
      rw [hstep] at hway
      cases hway
    | .ok found =>
      have hdirectory := (of_step hstep).1
      have hsame : u.storeStep start name = t.storeStep start name := by
        rw [storeStep, storeStep, step_eq_of_directory hdirectory (hkept start hdirectory)]
      rw [hstep] at hway
      match hstore : t.storeStep start name with
      | none =>
        rw [hstore] at h
        cases h
      | some after =>
        rw [hstore] at h
        rw [hsame, hstore]
        refine ih ?_ h
        rw [storeStep_eq_some hstore, ← (of_step hstep).2]
        exact hway

/-- A store file has the same place for as long as there is the way to it and no directory in its stead. -/
theorem Way.storePlace?_eq (hway : t.Way path place) (h : t.storePlace? path = some place)
    (hworking : u.working = t.working) (hkept : ∀ place, t.entryAt? place = some .directory →
      u.entryAt? place = some .directory) (hfree : u.entryAt? place ≠ some .directory) :
    u.storePlace? path = some place := by
  obtain ⟨hlast, hsize, hdirectory, -⟩ := storePlace?_eq_some_iff.1 h
  have hstart : u.start path = t.start path := by rw [start, start, hworking]
  refine storePlace?_eq_some_iff.2 ⟨?_, hsize, hkept _ hdirectory, hfree⟩
  rw [hstart]
  exact foldlM_storeStep_of_way hkept hway hlast

end Files

end ClassDeps
