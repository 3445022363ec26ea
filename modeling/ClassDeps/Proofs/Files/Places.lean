import ClassDeps.Files.Stores
import Mathlib.Data.List.Basic
import Mathlib.Data.Option.Basic

/-!
# Where paths lead

The place of a path depends on the names of the path only; whether there is a way to it depends on the directories
of the tree. So a path leads to the same place for as long as no directory on its way is gone.

## Main definitions

* `Place.enter`, `Files.target` — where a name and a path lead, if there is a way
* `Path.IsName` — texts that are the name of a file

## Main statements

* `Files.locate_eq_target`, `storePlace?_eq_target` — a way to a place leads to the place of the path
* `Files.locate_of_directories` — there is a way for as long as the directories are there
* `Files.target_join` — the place of a file in a directory
-/

namespace ClassDeps

/-- Where a name leads from a directory. -/
def Place.enter (place : Place) (name : String) : Place :=
  if Path.isIdle name then place else if name = ".." then place.dropLast else place ++ [name]

/-! ## Names of paths -/

namespace Path

/-- The name of a file that is neither the directory itself nor the one above it. -/
structure IsName (name : String) : Prop where
  noSlash : '/' ∉ name.toList
  notIdle : isIdle name = false
  notParent : name ≠ ".."

theorem enter_of_isName {name : String} (h : IsName name) (place : Place) : place.enter name = place ++ [name] := by
  rw [Place.enter, h.notIdle, if_neg Bool.false_ne_true, if_neg h.notParent]

theorem splitSlashes_eq_cons (xs : List Char) : ∃ part parts, splitSlashes xs = part :: parts := by
  cases xs with
  | nil => exact ⟨_, _, rfl⟩
  | cons c xs =>
    rw [splitSlashes]
    split
    · exact ⟨_, _, rfl⟩
    · split
      · exact ⟨_, _, rfl⟩
      · exact ⟨_, _, rfl⟩

theorem splitSlashes_append (xs ys : List Char) :
    splitSlashes (xs ++ '/' :: ys) = splitSlashes xs ++ splitSlashes ys := by
  induction xs with
  | nil => simp [splitSlashes]
  | cons c xs ih =>
    rw [List.cons_append, splitSlashes, splitSlashes, ih]
    obtain ⟨part, parts, hxs⟩ := splitSlashes_eq_cons xs
    rw [hxs]
    split <;> rfl

theorem splitSlashes_of_notMem {xs : List Char} (h : '/' ∉ xs) : splitSlashes xs = [xs] := by
  induction xs with
  | nil => rfl
  | cons c xs ih =>
    rw [List.mem_cons, not_or] at h
    rw [splitSlashes, if_neg (Ne.symm h.1), ih h.2]

theorem steps_of_notMem {name : String} (h : '/' ∉ name.toList) : steps name = [name] := by
  rw [steps, names, splitSlashes_of_notMem h, List.map_singleton, String.ofList_toList]

theorem steps_of_isName {name : String} (h : IsName name) : steps name = [name] :=
  steps_of_notMem h.noSlash

theorem IsName.isAbsolute_eq {name : String} (h : IsName name) : isAbsolute name = false :=
  beq_eq_false_iff_ne.2 fun hhead => h.noSlash (List.mem_of_head? hhead)

/-- Between the path of a directory and the name of a file there is one slash, which may have been there before. -/
theorem join_cases (base : String) {name : String} (h : IsName name) : base = "" ∧ join base name = name ∨
    base ≠ "" ∧ ∃ before, (base = before ∨ base = before ++ "/") ∧ join base name = before ++ "/" ++ name := by
  rw [join, h.isAbsolute_eq, if_neg Bool.false_ne_true]
  by_cases hempty : base = ""
  · refine .inl ⟨hempty, ?_⟩
    rw [hempty, if_pos (by simp), String.empty_append]
  refine .inr ⟨hempty, ?_⟩
  split
  · rename_i hslash
    rw [decide_eq_false hempty, Bool.false_or, beq_iff_eq] at hslash
    obtain ⟨xs, hxs⟩ : ∃ xs, base.toList = xs ++ ['/'] := List.getLast?_eq_some_iff.1 hslash
    have hbase : base = String.ofList xs ++ "/" := by
      rw [← String.toList_inj, String.toList_append, String.toList_ofList, hxs]
      rfl
    exact ⟨String.ofList xs, .inr hbase, congrArg (· ++ name) hbase⟩
  · exact ⟨base, .inl rfl, rfl⟩

theorem steps_append_slash (before after : String) : steps (before ++ "/" ++ after) = steps before ++ steps after := by
  have hslash : "/".toList = ['/'] := rfl
  rw [steps, String.toList_append, String.toList_append, hslash, List.append_assoc, List.singleton_append, names,
    splitSlashes_append, List.map_append]
  rfl

/-- Where a path starts depends on its first character. -/
theorem isAbsolute_append {before : String} (h : before ≠ "") (after : String) :
    isAbsolute (before ++ after) = isAbsolute before := by
  rw [isAbsolute, isAbsolute, String.toList_append, List.head?_append_of_ne_nil _ (mt String.toList_eq_nil_iff.1 h)]

/-- The names of the path of a file in a directory are those of the directory, but for an empty one at the end, and
the name of the file. -/
theorem steps_join (base : String) {name : String} (h : IsName name) :
    isAbsolute (join base name) = isAbsolute base ∧ ∃ names idle, steps base = names ++ idle ∧
      (idle = [] ∨ idle = [""]) ∧ steps (join base name) = names ++ [name] := by
  have hname : names name.toList = [name] := steps_of_isName h
  obtain ⟨rfl, hjoin⟩ | ⟨hempty, before, hbase, hjoin⟩ := join_cases base h
  · rw [hjoin]
    exact ⟨h.isAbsolute_eq, [], [""], rfl, .inr rfl, hname⟩
  · have hkept : isAbsolute base = isAbsolute (before ++ "/") := by
      obtain rfl | rfl := hbase
      · rw [isAbsolute_append hempty]
      · rfl
    rw [hjoin, isAbsolute_append (by simp), steps_append_slash]
    refine ⟨hkept.symm, steps before, ?_⟩
    obtain rfl | rfl := hbase
    · exact ⟨[], (List.append_nil _).symm, .inl rfl, congrArg _ hname⟩
    · have hend := steps_append_slash before ""
      rw [String.append_empty] at hend
      exact ⟨[""], hend, .inr rfl, congrArg _ hname⟩

theorem getLast?_join (base : String) {name : String} (h : IsName name) :
    (join base name).toList.getLast? = name.toList.getLast? := by
  have hnil : name.toList ≠ [] := by
    intro hnil
    rw [String.toList_eq_nil_iff.1 hnil] at h
    exact absurd h.notIdle (by decide)
  obtain ⟨-, hjoin⟩ | ⟨-, before, -, hjoin⟩ := join_cases base h
  · rw [hjoin]
  · rw [hjoin, String.toList_append, List.getLast?_append_of_ne_nil _ hnil]

theorem join_ne_empty (base : String) {name : String} (h : IsName name) : join base name ≠ "" := by
  intro hempty
  obtain ⟨-, names, idle, -, -, hjoin⟩ := steps_join base h
  have hlast : [""] = names ++ [name] := by rw [← hjoin, hempty]; rfl
  have hname : name = "" := by simpa using (congrArg List.getLast? hlast).symm
  exact absurd h.notIdle (by rw [hname]; decide)

/-- A name that is joined to the path of a directory leads on from the directory. -/
theorem join_eq (base : String) {name : String} (h : IsName name) :
    isAbsolute (join base name) = isAbsolute base ∧ ∀ place : Place,
      (steps (join base name)).foldl Place.enter place = ((steps base).foldl Place.enter place).enter name := by
  obtain ⟨habsolute, names, idle, hbase, hidle, hjoin⟩ := steps_join base h
  refine ⟨habsolute, fun place => ?_⟩
  rw [hbase, hjoin, List.foldl_append, List.foldl_append]
  obtain rfl | rfl := hidle
  · rfl
  · rfl

end Path

namespace Files

/-- Where a path leads, if there are all directories on the way. -/
def target (t : Files) (path : String) : Place :=
  (Path.steps path).foldl Place.enter (t.start path)

variable {t u : Files}

/-! ## Ways -/

theorem directoryFault_eq_none_iff {place : Place} :
    t.directoryFault place = none ↔ t.entryAt? place = some .directory := by
  unfold directoryFault
  split
  · rename_i h
    exact iff_of_true rfl h
  · rename_i entry hne h
    refine iff_of_false nofun fun hdirectory => ?_
    rw [hdirectory] at h
    cases h
    exact hne rfl
  · rename_i h
    refine iff_of_false nofun fun hdirectory => ?_
    rw [hdirectory] at h
    cases h

theorem of_step {place next : Place} {name : String} (h : t.step place name = .ok next) :
    t.entryAt? place = some .directory ∧ next = place.enter name := by
  unfold step at h
  split at h
  · cases h
  · rename_i hfault
    refine ⟨directoryFault_eq_none_iff.1 hfault, ?_⟩
    unfold Place.enter
    split at h
    · rename_i hidle
      cases h
      rw [if_pos hidle]
    · rename_i hidle
      rw [if_neg hidle]
      split at h
      · rename_i hparent
        cases h
        rw [if_pos hparent]
      · rename_i hparent
        rw [if_neg hparent]
        split at h
        · cases h
        · cases h
          rfl

theorem step_eq_of_directory {place : Place} (h : t.entryAt? place = some .directory)
    (h' : u.entryAt? place = some .directory) (name : String) : u.step place name = t.step place name := by
  unfold step
  rw [directoryFault_eq_none_iff.2 h, directoryFault_eq_none_iff.2 h']

theorem of_foldlM_step {names : List String} {place last : Place} (h : names.foldlM t.step place = .ok last) :
    last = names.foldl Place.enter place := by
  induction names generalizing place with
  | nil =>
    cases h
    rfl
  | cons name names ih =>
    rw [List.foldlM_cons] at h
    match hstep : t.step place name with
    | .error _ =>
      rw [hstep] at h
      cases h
    | .ok next =>
      rw [hstep] at h
      rw [List.foldl_cons, ← (of_step hstep).2]
      exact ih h

theorem foldlM_step_of_directories (hkept : ∀ place, t.entryAt? place = some .directory →
      u.entryAt? place = some .directory) {names : List String} {place last : Place}
    (h : names.foldlM t.step place = .ok last) : names.foldlM u.step place = .ok last := by
  induction names generalizing place with
  | nil => exact h
  | cons name names ih =>
    rw [List.foldlM_cons] at h ⊢
    match hstep : t.step place name with
    | .error _ =>
      rw [hstep] at h
      cases h
    | .ok next =>
      rw [hstep] at h
      have hdirectory := (of_step hstep).1
      rw [step_eq_of_directory hdirectory (hkept place hdirectory), hstep]
      exact ih h

/-- A way to a place leads to the place of the path. -/
theorem locate_eq_target {path : String} {place : Place} (h : t.locate path = .ok place) :
    place = t.target path := by
  unfold locate follow at h
  split at h
  · cases h
  · exact of_foldlM_step h

/-- There is a way for as long as the directories are there. -/
theorem locate_of_directories (hworking : u.working = t.working) (hkept : ∀ place,
      t.entryAt? place = some .directory → u.entryAt? place = some .directory) {path : String} {place : Place}
    (h : t.locate path = .ok place) : u.locate path = .ok place := by
  unfold locate follow at h ⊢
  split at h
  · cases h
  · have hstart : u.start path = t.start path := by rw [start, start, hworking]
    rw [hstart]
    exact foldlM_step_of_directories hkept h

theorem storeStep_eq_some {place next : Place} {name : String} (h : t.storeStep place name = some next) :
    next = place.enter name := by
  unfold storeStep at h
  unfold Place.enter
  split at h
  · rename_i hidle
    cases h
    rw [if_pos hidle]
  · rename_i hidle
    rw [if_neg hidle]
    split at h
    · rename_i hparent
      cases h
      rw [if_pos hparent]
    · rename_i hparent
      rw [if_neg hparent]
      simp only [guard, bind, Option.bind] at h
      split at h
      · cases h
      · split at h
        · cases h
          rfl
        · cases h
          rfl
        · cases h

theorem of_foldlM_storeStep {names : List String} {place last : Place}
    (h : names.foldlM t.storeStep place = some last) : last = names.foldl Place.enter place := by
  induction names generalizing place with
  | nil =>
    cases h
    rfl
  | cons name names ih =>
    rw [List.foldlM_cons, Option.bind_eq_bind, Option.bind_eq_some_iff] at h
    obtain ⟨next, hstep, hrest⟩ := h
    rw [List.foldl_cons, ← storeStep_eq_some hstep]
    exact ih hrest

/-- A store file stands where its path leads, in a directory and in the stead of none. -/
theorem storePlace?_eq_some_iff {path : String} {place : Place} : t.storePlace? path = some place ↔
    (Path.steps path).foldlM t.storeStep (t.start path) = some place ∧
      place.path.utf8ByteSize ≤ storePathLimit ∧ t.entryAt? place.dropLast = some .directory ∧
      t.entryAt? place ≠ some .directory := by
  rw [← directoryFault_eq_none_iff, ← Option.isNone_iff_eq_none]
  simp only [storePlace?, guard, bind, Option.bind_eq_some_iff, Bool.and_eq_true, decide_eq_true_eq]
  constructor
  · rintro ⟨last, hlast, _, hsize, _, hdirectory, h⟩
    cases h
    refine ⟨hlast, ?_⟩
    split at hsize
    · split at hdirectory
      · exact ⟨‹_›, ‹_›⟩
      · cases hdirectory
    · cases hsize
  · rintro ⟨hlast, hsize, hdirectory⟩
    exact ⟨place, hlast, (), if_pos hsize, (), if_pos hdirectory, rfl⟩

/-- A store file stands at the place of its path. -/
theorem storePlace?_eq_target {path : String} {place : Place} (h : t.storePlace? path = some place) :
    place = t.target path :=
  of_foldlM_storeStep (storePlace?_eq_some_iff.1 h).1

theorem not_directory_of_storePlace? {path : String} {place : Place} (h : t.storePlace? path = some place) :
    t.entryAt? place ≠ some .directory :=
  (storePlace?_eq_some_iff.1 h).2.2.2

/-- The store at a path is the one whose entry stands at the place of its address. -/
theorem of_storeAt? {path : String} {id : Nat} (h : t.storeAt? path = some id) :
    ∃ filePath mayCreate, Address.ofPath? path = some (.file filePath mayCreate) ∧
      t.entryAt? (t.target filePath) = some (.store id) := by
  unfold storeAt? at h
  match haddress : Address.ofPath? path with
  | none =>
    rw [haddress] at h
    cases h
  | some .nowhere =>
    rw [haddress] at h
    cases h
  | some (.file filePath mayCreate) =>
    rw [haddress] at h
    simp only [bind, Option.bind_some, Option.bind_eq_some_iff] at h
    obtain ⟨place, hplace, entry, hentry, h⟩ := h
    split at h
    · cases h
      exact ⟨filePath, mayCreate, rfl, storePlace?_eq_target hplace ▸ hentry⟩
    · cases h

/-! ## Files in directories -/

/-- The place of a file in a directory. -/
theorem target_join (t : Files) (base : String) {name : String} (h : Path.IsName name) :
    t.target (Path.join base name) = t.target base ++ [name] := by
  obtain ⟨habsolute, hsteps⟩ := Path.join_eq base h
  have hstart : t.start (Path.join base name) = t.start base := by rw [start, start, habsolute]
  rw [target, hsteps, hstart, Path.enter_of_isName h, target]

theorem target_of_working (h : u.working = t.working) (path : String) : u.target path = t.target path := by
  rw [target, target, start, start, h]

end Files

end ClassDeps
