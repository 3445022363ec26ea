import ClassDeps.Proofs.Files.Directories
import ClassDeps.Proofs.Files.Reopening
import Mathlib.Data.List.Infix

/-!
# Directories on the way

A directory is made with those above it, which are the ones that its path passes through. Nothing else is made.

## Main definitions

* `Files.OnWay` — the places that a path passes through

## Main statements

* `Path.of_parent?` — the path of the directory above begins the path
* `Files.OnWay.of_parent?` — it passes through no other places
* `Files.agree_createDirectories` — what changes where a directory is made
-/

namespace ClassDeps

/-! ## Paths of directories above -/

namespace Path

/-- The names of a path with slashes between them are the path. -/
theorem intercalate_names (xs : List Char) : String.intercalate "/" (names xs) = String.ofList xs := by
  induction xs with
  | nil => rfl
  | cons c xs ih =>
    obtain ⟨part, parts, hparts⟩ := splitSlashes_eq_cons xs
    rw [names, hparts] at ih
    rw [names, splitSlashes, hparts]
    split
    · rename_i hslash
      rw [List.map_cons, List.map_cons, String.intercalate_cons_cons, ← List.map_cons, ih, hslash, String.ofList_cons]
      rfl
    · rw [List.map_cons, String.ofList_cons, String.intercalate_cons_append, ← List.map_cons, ih, String.ofList_cons]

theorem front_append (xs : List Char) : (front xs).1 ++ String.ofList (front xs).2 = String.ofList xs := by
  refine String.toList_injective ?_
  rw [String.toList_append, String.toList_ofList, String.toList_ofList]
  fun_cases front xs <;> simp

theorem front_cases (xs : List Char) : (front xs).1 = "/" ∨ (front xs).1 = "" ∨
    (front xs).1 = "." ∧ ((front xs).2 = [] ∨ ∃ rest, (front xs).2 = '/' :: rest) := by
  fun_cases front xs with
  | case1 rest => exact .inl rfl
  | case2 => exact .inr (.inr ⟨rfl, .inl rfl⟩)
  | case3 rest => exact .inr (.inr ⟨rfl, .inr ⟨rest, rfl⟩⟩)
  | case4 => exact .inr (.inl rfl)

theorem exists_withoutTrailingIdle (names : List String) :
    ∃ idle, (∀ name ∈ idle, isIdle name = true) ∧ names = withoutTrailingIdle names ++ idle := by
  refine ⟨(names.reverse.takeWhile isIdle).reverse, fun name hname => ?_, ?_⟩
  · exact List.mem_takeWhile_imp (List.mem_reverse.1 hname)
  · rw [withoutTrailingIdle, ← List.reverse_append, List.takeWhile_append_dropWhile, List.reverse_reverse]

/-- Names of which at most one leads anywhere. -/
def IsLone (names : List String) : Prop :=
  (names.filter fun name => !isIdle name).length ≤ 1

theorem filter_of_idle {names : List String} (h : ∀ name ∈ names, isIdle name = true) :
    names.filter (fun name => !isIdle name) = [] :=
  List.filter_eq_nil_iff.2 fun name hname => by simp [h name hname]

theorem isLone_of_idle {names : List String} (h : ∀ name ∈ names, isIdle name = true) : IsLone names := by
  rw [IsLone, filter_of_idle h]
  exact Nat.zero_le _

/-- An idle name does not count. -/
theorem isLone_cons_of_idle {name : String} (h : isIdle name = true) (names : List String) :
    IsLone (name :: names) ↔ IsLone names := by
  rw [IsLone, IsLone, List.filter_cons_of_neg (by simp [h])]

/-- What a path starts with is the path of the directory above, or some of the names behind it are in that, too. One
name of the others leads anywhere. -/
theorem parent?_eq_some {path parent : String} (h : parent? path = some parent) :
    ∃ above more, names (front path.toList).2 = above ++ more ∧ IsLone more ∧
      (parent = "" ∧ above = [] ∨ more ≠ [] ∧ parent = (front path.toList).1 ++ String.intercalate "/" above) := by
  obtain ⟨idle, hidle, hnames⟩ := exists_withoutTrailingIdle (names (front path.toList).2)
  simp only [parent?] at h
  split at h
  · rename_i hnone
    split at h
    · cases h
      rw [hnone, List.nil_append] at hnames
      exact ⟨[], idle, hnames, isLone_of_idle hidle, .inl ⟨rfl, rfl⟩⟩
    · cases h
  · rename_i found hfound
    cases h
    obtain ⟨idle', hidle', habove⟩ := exists_withoutTrailingIdle (withoutTrailingIdle (names (front path.toList).2)).dropLast
    refine ⟨_, idle' ++ [(withoutTrailingIdle (names (front path.toList).2)).getLast hfound] ++ idle, ?_, ?_,
      .inr ⟨by simp, rfl⟩⟩
    · rw [← List.append_assoc, ← List.append_assoc, ← habove, List.dropLast_concat_getLast, ← hnames]
    · rw [IsLone, List.filter_append, List.filter_append, filter_of_idle hidle, filter_of_idle hidle',
        List.nil_append, List.append_nil]
      exact List.length_filter_le _ _

theorem notMem_of_mem_names {xs : List Char} {name : String} (h : name ∈ names xs) : '/' ∉ name.toList := by
  obtain ⟨part, hpart, rfl⟩ := List.mem_map.1 h
  rw [String.toList_ofList]
  clear h
  induction xs generalizing part with
  | nil =>
    obtain rfl := List.mem_singleton.1 hpart
    exact List.not_mem_nil
  | cons c xs ih =>
    obtain ⟨first, parts, hparts⟩ := splitSlashes_eq_cons xs
    rw [splitSlashes, hparts] at hpart
    rw [hparts] at ih
    split at hpart
    · obtain rfl | hpart := List.mem_cons.1 hpart
      · exact List.not_mem_nil
      · exact ih part hpart
    · rename_i hslash
      obtain rfl | hpart := List.mem_cons.1 hpart
      · rw [List.mem_cons, not_or]
        exact ⟨Ne.symm hslash, ih first List.mem_cons_self⟩
      · exact ih part (List.mem_cons_of_mem _ hpart)

/-- The names of a path are those with slashes between them. -/
theorem steps_intercalate {names : List String} (hne : names ≠ []) (h : ∀ name ∈ names, '/' ∉ name.toList) :
    steps (String.intercalate "/" names) = names := by
  induction names with
  | nil => exact absurd rfl hne
  | cons name names ih =>
    rw [List.forall_mem_cons] at h
    cases names with
    | nil => rw [String.intercalate_singleton, steps_of_notMem h.1]
    | cons next names =>
      rw [String.intercalate_cons_cons, steps_append_slash, steps_of_notMem h.1, ih (List.cons_ne_nil _ _) h.2]
      rfl

/-- What a path starts with does not count. -/
theorem isLone_front (xs : List Char) : IsLone (names xs) ↔ IsLone (names (front xs).2) := by
  have hslash (xs : List Char) : IsLone (names ('/' :: xs)) ↔ IsLone (names xs) := by
    rw [names, splitSlashes, if_pos rfl]
    exact isLone_cons_of_idle rfl (names xs)
  fun_cases front xs with
  | case1 rest => exact hslash rest
  | case2 =>
    have hdot : isIdle "." = true := rfl
    have hempty : isIdle "" = true := rfl
    exact (isLone_cons_of_idle hdot []).trans (isLone_cons_of_idle hempty []).symm
  | case3 rest =>
    have hdot : names ('.' :: '/' :: rest) = "." :: names rest := rfl
    rw [hdot, hslash]
    exact isLone_cons_of_idle rfl (names rest)
  | case4 => rfl

theorem of_intercalate_eq_empty {names : List String} (h : String.intercalate "/" names = "") :
    names = [] ∨ names = [""] := by
  match names with
  | [] => exact .inl rfl
  | [name] =>
    rw [String.intercalate_singleton] at h
    exact .inr (by rw [h])
  | name :: next :: rest =>
    rw [String.intercalate_cons_cons, String.append_assoc, String.append_eq_empty_iff, String.append_eq_empty_iff] at h
    exact absurd h.2.1 (by decide)

/-- A path goes on behind the path of the directory above by one name that leads anywhere, unless the directory is the
root or the one that relative paths start from. -/
theorem of_parent? {path parent : String} (h : parent? path = some parent) :
    (parent ≠ "" ∧ ∃ rest, path = parent ++ "/" ++ rest ∧ IsLone (steps rest)) ∨
      (parent = "/" ∧ isAbsolute path = true ∨ parent = "") ∧ IsLone (steps path) := by
  obtain ⟨above, more, hnames, hlone, hparent⟩ := parent?_eq_some h
  have hpath : path = (front path.toList).1 ++ String.ofList (front path.toList).2 := by
    rw [front_append, String.ofList_toList]
  by_cases hempty : parent = ""
  · refine .inr ⟨.inr hempty, (isLone_front path.toList).2 ?_⟩
    rw [hnames]
    obtain ⟨-, rfl⟩ | ⟨-, hparent⟩ := hparent
    · exact hlone
    · obtain rfl | rfl := of_intercalate_eq_empty (String.append_eq_empty_iff.1 (hparent.symm.trans hempty)).2
      · exact hlone
      · exact (isLone_cons_of_idle rfl more).2 hlone
  obtain ⟨hmore, hparent⟩ := hparent.resolve_left fun hnone => hempty hnone.1
  by_cases habove : above = []
  · rw [habove, String.intercalate_nil, String.append_empty] at hparent
    rw [habove, List.nil_append] at hnames
    obtain hfront | hfront | ⟨hfront, hrest | ⟨rest, hrest⟩⟩ := front_cases path.toList
    · refine .inr ⟨.inl ⟨hparent.trans hfront, ?_⟩, (isLone_front path.toList).2 (hnames ▸ hlone)⟩
      rw [hpath, hfront, isAbsolute_append (by decide)]
      rfl
    · exact absurd (hparent.trans hfront) hempty
    · rw [hfront, hrest] at hpath
      rw [hpath] at h
      exact absurd (Option.some.inj h).symm hempty
    · refine .inl ⟨hempty, String.ofList rest, ?_, ?_⟩
      · rw [hpath, hrest, hparent, String.ofList_cons, ← String.append_assoc]
        rfl
      · rw [hrest, names, splitSlashes, if_pos rfl, List.map_cons] at hnames
        have hempty : isIdle (String.ofList []) = true := rfl
        rw [steps, String.toList_ofList, ← isLone_cons_of_idle hempty]
        exact hnames ▸ hlone
  · refine .inl ⟨hempty, String.intercalate "/" more, ?_, ?_⟩
    · rw [hpath, ← intercalate_names, hnames, String.intercalate_append_of_ne_nil habove hmore, hparent,
        String.append_assoc, String.append_assoc, String.append_assoc]
    · rw [steps_intercalate hmore fun name hname => ?_]
      · exact hlone
      · exact notMem_of_mem_names (hnames ▸ List.mem_append_right _ hname)

/-- Of the names of a path at most one leads anywhere, or they are those of the directory above and one that does. -/
theorem isLone_or_parent? (path : String) : IsLone (steps path) ∨
    ∃ parent rest, parent? path = some parent ∧ parent ≠ "" ∧ path = parent ++ "/" ++ rest ∧ IsLone (steps rest) := by
  match hparent : parent? path with
  | none =>
    refine .inl ((isLone_front path.toList).2 ?_)
    obtain ⟨idle, hidle, hnames⟩ := exists_withoutTrailingIdle (names (front path.toList).2)
    simp only [parent?] at hparent
    split at hparent
    · rename_i hnone
      rw [hnone, List.nil_append] at hnames
      exact hnames ▸ isLone_of_idle hidle
    · cases hparent
  | some parent =>
    obtain ⟨hne, rest, hpath, hlone⟩ | ⟨-, hlone⟩ := of_parent? hparent
    · exact .inr ⟨parent, rest, rfl, hne, hpath, hlone⟩
    · exact .inl hlone

end Path

namespace Files

variable {t u : Files} {path parent : String} {place : Place}

/-! ## Places on the way -/

/-- A path passes through the places that some of its first names lead to. -/
def OnWay (t : Files) (path : String) (place : Place) : Prop :=
  ∃ names, names <+: Path.steps path ∧ names.foldl Place.enter (t.start path) = place

theorem onWay_of_working (h : u.working = t.working) (path : String) : u.OnWay path = t.OnWay path := by
  funext place
  rw [OnWay, OnWay, start, start, h]

/-- The path of the directory above passes through no other places. -/
theorem OnWay.of_parent? (h : t.OnWay parent place) (hparent : Path.parent? path = some parent) (hne : parent ≠ "") :
    t.OnWay path place := by
  obtain ⟨names, hnames, hplace⟩ := h
  obtain ⟨-, rest, rfl, -⟩ | ⟨⟨rfl, habsolute⟩ | hempty, -⟩ := Path.of_parent? hparent
  · refine ⟨names, ?_, ?_⟩
    · rw [Path.steps_append_slash]
      exact hnames.trans (List.prefix_append _ _)
    · rw [start, String.append_assoc, Path.isAbsolute_append hne]
      exact hplace
  · -- The root is reached by empty names only, and it is where the path starts.
    have hroot : names.foldl Place.enter (t.start "/") = [] := by
      have hsteps : Path.steps "/" = ["", ""] := rfl
      rw [hsteps, ← List.mem_inits] at hnames
      simp only [List.inits, List.map_cons, List.map_nil, List.mem_cons, List.not_mem_nil, or_false] at hnames
      obtain rfl | rfl | rfl := hnames <;> rfl
    refine ⟨[], List.nil_prefix, ?_⟩
    rw [← hplace, hroot, start, habsolute]
    rfl
  · exact absurd hempty hne

theorem length_le_foldl_enter {names : List String} (h : ".." ∉ names) (place : Place) :
    place.length ≤ (names.foldl Place.enter place).length := by
  induction names generalizing place with
  | nil => exact Nat.le_refl _
  | cons name names ih =>
    rw [List.mem_cons, not_or] at h
    refine Nat.le_trans ?_ (ih h.2 (place.enter name))
    unfold Place.enter
    split
    · exact Nat.le_refl _
    · rw [if_neg (Ne.symm h.1), List.length_append]
      exact Nat.le_add_right _ _

/-- A path that never turns back does not pass through the files of its directory. -/
theorem not_onWay_join {base name : String} (hbase : ".." ∉ Path.steps base) (hname : Path.IsName name) :
    ¬t.OnWay base (t.target (Path.join base name)) := by
  rintro ⟨names, ⟨more, hmore⟩, hplace⟩
  rw [target_join t base hname, target, ← hmore, List.foldl_append] at hplace
  have hrest : ".." ∉ more := fun hmem => hbase (hmore ▸ List.mem_append_right _ hmem)
  have hle := length_le_foldl_enter hrest (names.foldl Place.enter (t.start base))
  have hlength := congrArg List.length hplace
  rw [List.length_append, List.length_singleton] at hlength
  omega

/-! ## Making directories -/

/-- A directory is made where its path leads. -/
theorem agree_createDirectory (h : t.createDirectory path = .ok u) : Agree (t.OnWay path) t u := by
  obtain ⟨parent, place, hparent, hstep, hfree, rfl⟩ := of_createDirectory h
  refine .setEntry ⟨Path.steps (Path.withoutTrailingSlashes path), ?_, ?_⟩ (by simp [hfree]) _
  · obtain ⟨k, hsteps⟩ := Path.steps_withoutTrailingSlashes path
    rw [hsteps]
    exact List.prefix_append _ _
  · unfold follow at hparent
    split at hparent
    · cases hparent
    · rw [← dropLast_append_getLastD (Path.steps_ne_nil _), List.foldl_append, ← of_foldlM_step hparent,
        List.foldl_cons, List.foldl_nil, (of_step hstep).2]

theorem agree_ensureDirectory (t : Files) (path : String) : Agree (t.OnWay path) t (t.ensureDirectory path).2 := by
  unfold ensureDirectory
  split
  · rename_i hcreate
    exact agree_createDirectory hcreate
  · exact .refl t

theorem agree_createAbove (levels : Nat) (path : String) (t : Files) :
    Agree (t.OnWay path) t (createAbove levels path t).2 := by
  induction levels generalizing path t with
  | zero => exact agree_ensureDirectory t path
  | succ levels ih =>
    unfold createAbove
    split
    · exact agree_ensureDirectory t path
    · rename_i parent hne _ hparent
      have habove : Agree (t.OnWay path) t (createAbove levels parent t).2 :=
        (ih parent t).mono fun place hplace => hplace.of_parent? hparent hne
      split
      · rename_i made hmade
        rw [hmade] at habove
        have hensure := agree_ensureDirectory made path
        rw [onWay_of_working habove.working] at hensure
        exact habove.trans hensure
      · rename_i hmade
        rw [hmade] at habove
        exact habove
    · exact agree_ensureDirectory t path

/-- Where a directory and those above it are made, nothing changes but on the way to it. -/
theorem agree_createDirectories (t : Files) (path : String) :
    Agree (t.OnWay path) t (t.createDirectories path).2 := by
  unfold createDirectories
  split
  · exact .refl t
  · exact agree_createAbove _ path t

/-- What is new is a directory. -/
theorem Furnished.entry_eq_or (h : t.Furnished u) (place : Place) :
    u.entryAt? place = t.entryAt? place ∨ t.entryAt? place = none ∧ u.entryAt? place = some .directory := by
  match hentry : t.entryAt? place with
  | some entry => exact .inl (h.entry hentry)
  | none =>
    induction h with
    | refl => exact .inl hentry
    | make _ hfree ih =>
      rw [entryAt?_setEntry (by simp [hfree])]
      split
      · exact .inr ⟨rfl, rfl⟩
      · exact ih

end Files

end ClassDeps
