import ClassDeps.Proofs.Files.Addresses
import ClassDeps.Proofs.Json.Textual
import Mathlib.Data.List.Induction
import Mathlib.Data.List.TakeWhile

/-!
# Addresses of the files of a directory

If the path of a directory is a URI, then what it says before its end may hide the names of the files in it: all of them
have the same address then. Otherwise the address of each of them leads to a file of that name.

## Main definitions

* `Address.IsLiteral` — names that mean nothing special in a URI

## Main statements

* `Address.trails`, `options_cases` — what becomes of a name at the end of a URI
* `Address.ofPath?_join_cases` — the addresses of the files of a directory
-/

namespace ClassDeps

namespace Address

/-- A name that means nothing special in a URI: neither does any of its bytes, nor is it that of a machine. -/
structure IsLiteral (name : Bytes) : Prop where
  bytes : ∀ b ∈ [0, 35, 37, 38, 47, 58, 61, 63], b ∉ name
  machine : name ≠ [] ∧ name ≠ Bytes.ofText "localhost"

variable {name : Bytes}

/-! ## Percent signs -/

theorem decode_of_notMem {b : Bytes} (h : 37 ∉ b) : decode b = b := by
  induction b with
  | nil => rfl
  | cons x b ih =>
    rw [List.mem_cons, not_or] at h
    rw [decode, ih h.2]
    rintro - - - rfl
    exact absurd rfl h.1

theorem decode_slash (h : IsLiteral name) : decode (47 :: name) = 47 :: name := by
  refine decode_of_notMem ?_
  rw [List.mem_cons, not_or]
  exact ⟨by decide, h.bytes 37 (by decide)⟩

theorem escaped?_slash (high : UInt8) : escaped? high 47 = none := by
  unfold escaped?
  cases Bytes.hexDigit? high <;> rfl

/-- What percent signs stand for is the same for all names at the end, or ends with the name. -/
def Trails (b : Bytes) : Prop :=
  (∃ d, ∀ name, IsLiteral name → decode (b ++ 47 :: name) = d) ∨
    ∃ d, ∀ name, IsLiteral name → decode (b ++ 47 :: name) = d ++ 47 :: name

theorem Trails.of_cons {b rest : Bytes} {x : UInt8} (hrest : Trails rest)
    (h : ∀ name, IsLiteral name → decode (b ++ 47 :: name) = x :: decode (rest ++ 47 :: name)) : Trails b := by
  obtain ⟨d, hd⟩ | ⟨d, hd⟩ := hrest
  · exact .inl ⟨x :: d, fun name hname => by rw [h name hname, hd name hname]⟩
  · exact .inr ⟨x :: d, fun name hname => by rw [h name hname, hd name hname, List.cons_append]⟩

theorem trails (b : Bytes) : Trails b := by
  induction b using decode.induct with
  | case1 high low rest hzero =>
    refine .inl ⟨[], fun name _ => ?_⟩
    simp only [List.cons_append, decode, hzero]
  | case2 high low rest b hzero hbyte ih =>
    refine ih.of_cons (x := b) fun name _ => ?_
    simp only [List.cons_append, decode, hbyte]
  | case3 high low rest hnone ih =>
    refine ih.of_cons (x := 37) fun name _ => ?_
    simp only [List.cons_append, decode, hnone]
  | case4 b rest hshort ih =>
    refine ih.of_cons (x := b) fun name hname => ?_
    by_cases hpercent : b = 37
    · -- A percent sign with less than two bytes behind it is followed by the slash, which is no digit.
      subst hpercent
      rcases rest with _ | ⟨high, _ | ⟨low, rest⟩⟩
      · rcases name with _ | ⟨low, name⟩
        · rfl
        · have hnone : escaped? 47 low = none := rfl
          simp only [List.cons_append, List.nil_append, decode, hnone]
      · simp only [List.cons_append, List.nil_append, decode, escaped?_slash]
      · exact (hshort high low rest rfl rfl).elim
    · rw [List.cons_append, decode]
      rintro - - - rfl
      exact absurd rfl hpercent
  | case5 => exact .inr ⟨[], fun name hname => decode_slash hname⟩

/-! ## Options -/

theorem cut_eq {separator : UInt8} {front rest : Bytes} (h : separator ∉ front) :
    cut separator (front ++ separator :: rest) = (front, rest) := by
  have hfront : ∀ b ∈ front, decide (b ≠ separator) = true := fun b hb => by
    rw [decide_eq_true_eq]
    rintro rfl
    exact h hb
  rw [cut, List.takeWhile_append_of_pos hfront, List.dropWhile_append_of_pos hfront, List.takeWhile_cons_of_neg (by simp),
    List.dropWhile_cons_of_neg (by simp), List.append_nil, List.drop_one, List.tail_cons]

theorem cut_of_notMem {separator : UInt8} {b : Bytes} (h : separator ∉ b) : cut separator b = (b, []) := by
  have hall : ∀ x ∈ b, decide (x ≠ separator) = true := fun x hx => by
    rw [decide_eq_true_eq]
    rintro rfl
    exact h hx
  rw [cut, List.takeWhile_eq_self_iff.2 hall, List.dropWhile_eq_nil_iff.2 hall, List.drop_nil]

/-- What stands behind the last separator stands at the end of the last part. -/
theorem split_append (separator : UInt8) (b : Bytes) :
    ∃ parts last, ∀ c, separator ∉ c → split separator (b ++ c) = parts ++ [last ++ c] := by
  induction b with
  | nil =>
    refine ⟨[], [], fun c hc => ?_⟩
    induction c with
    | nil => rfl
    | cons x c ih =>
      rw [List.mem_cons, not_or] at hc
      simp only [List.nil_append] at ih ⊢
      rw [split, if_neg (Ne.symm hc.1), ih hc.2]
  | cons x b ih =>
    obtain ⟨parts, last, h⟩ := ih
    by_cases hx : x = separator
    · refine ⟨[] :: parts, last, fun c hc => ?_⟩
      rw [List.cons_append, split, if_pos hx, h c hc, List.cons_append]
    · rcases parts with _ | ⟨part, parts⟩
      · refine ⟨[], x :: last, fun c hc => ?_⟩
        rw [List.cons_append, split, if_neg hx, h c hc]
        rfl
      · refine ⟨(x :: part) :: parts, last, fun c hc => ?_⟩
        rw [List.cons_append, split, if_neg hx, h c hc]
        rfl

theorem withOption_value {path key value : String} {address : Address}
    (h : value ∉ ["ro", "rw", "rwc", "memory", "shared", "private", "unix", "unix-none", "unix-dotfile", "unix-excl"]) :
    withOption path address (key, value) = withOption path address (key, "") := by
  unfold withOption
  split <;> simp_all

theorem withOption_key {path key value : String} {address : Address} (h : key ∉ ["mode", "cache", "vfs"]) :
    withOption path address (key, value) = some address := by
  unfold withOption
  split <;> simp_all

/-- Bytes with a slash are none of some texts without one. -/
theorem text_notMem {known : List String} (hempty : "" ∉ known) (hknown : ∀ s ∈ known, 47 ∉ Bytes.ofText s) (d : Bytes) :
    (d ++ 47 :: name).toText?.getD "" ∉ known := by
  rcases htext : (d ++ 47 :: name).toText? with _ | text
  · exact hempty
  · refine fun hmem => hknown _ hmem ?_
    rw [Option.getD_some, Bytes.ofText_of_toText? htext]
    exact List.mem_append_right d List.mem_cons_self

theorem IsLiteral.notMem {b : UInt8} (h : IsLiteral name) (hb : b ∈ [0, 35, 37, 38, 61, 63]) : b ∉ 47 :: name := by
  rw [List.mem_cons, not_or]
  refine ⟨?_, h.bytes b (List.Subset.trans (by decide) (List.Subset.refl _) hb)⟩
  rintro rfl
  exact absurd hb (by decide)

/-- An option with its value. -/
def optionOf (b : Bytes) : Bytes × Bytes :=
  (decode (cut 61 b).1, decode (cut 61 b).2)

theorem options_eq (b : Bytes) : options b = ((split 38 b).map optionOf).filter fun pair => pair.1 ≠ [] := rfl

/-- What an option makes of an address, if it counts. -/
def applied (path : String) (address : Address) (option : Bytes × Bytes) : Option Address :=
  if option.1 = [] then some address else withOption path address (optionTexts option)

theorem foldlM_options (path : String) (address : Address) (pairs : List (Bytes × Bytes)) :
    ((pairs.filter fun pair => pair.1 ≠ []).map optionTexts).foldlM (withOption path) address =
      pairs.foldlM (applied path) address := by
  induction pairs generalizing address with
  | nil => rfl
  | cons pair pairs ih =>
    by_cases hempty : pair.1 = []
    · rw [List.filter_cons_of_neg (by simpa using hempty), ih, List.foldlM_cons, applied, if_pos hempty]
      rfl
    · rw [List.filter_cons_of_pos (by simpa using hempty), List.map_cons, List.foldlM_cons, List.foldlM_cons, applied,
        if_neg hempty]
      exact congrArg _ (funext ih)

/-- The last option says the same of all names behind it. -/
theorem applied_cases (path : String) (b : Bytes) : ∃ result : Address → Option Address, ∀ name, IsLiteral name →
    ∀ address, applied path address (optionOf (b ++ 47 :: name)) = result address := by
  by_cases hequals : 61 ∈ b
  · obtain ⟨key, front, rfl, hkey⟩ := List.eq_append_cons_of_mem hequals
    have hoption (name : Bytes) : optionOf (key ++ 61 :: front ++ 47 :: name) =
        (decode key, decode (front ++ 47 :: name)) := by
      rw [optionOf, List.append_assoc, List.cons_append, cut_eq hkey]
    obtain ⟨d, hd⟩ | ⟨d, hd⟩ := trails front
    · exact ⟨fun address => applied path address (decode key, d), fun name hname address => by
        rw [hoption, hd name hname]⟩
    · refine ⟨fun address => applied path address (decode key, []), fun name hname address => ?_⟩
      rw [hoption, hd name hname]
      simp only [applied, optionTexts]
      rw [withOption_value (text_notMem (by decide) (by decide) d)]
      rfl
  · have hoption {name : Bytes} (hname : IsLiteral name) : optionOf (b ++ 47 :: name) =
        (decode (b ++ 47 :: name), []) := by
      have hnone : 61 ∉ b ++ 47 :: name := by
        rw [List.mem_append, not_or]
        exact ⟨hequals, hname.notMem (by decide)⟩
      rw [optionOf, cut_of_notMem hnone]
      rfl
    obtain ⟨d, hd⟩ | ⟨d, hd⟩ := trails b
    · exact ⟨fun address => applied path address (d, []), fun name hname address => by rw [hoption hname, hd name hname]⟩
    · refine ⟨some, fun name hname address => ?_⟩
      rw [hoption hname, hd name hname, applied, optionTexts, withOption_key (text_notMem (by decide) (by decide) d)]
      exact ite_self _

/-- The options of a URI say the same of all names behind them. -/
theorem options_cases (path : String) (address : Address) (b : Bytes) : ∃ result, ∀ name, IsLiteral name →
    ((options (b ++ 47 :: name)).map optionTexts).foldlM (withOption path) address = result := by
  obtain ⟨parts, last, hsplit⟩ := split_append 38 b
  obtain ⟨result, hresult⟩ := applied_cases path last
  refine ⟨(parts.map optionOf).foldlM (applied path) address >>= result, fun name hname => ?_⟩
  rw [options_eq, foldlM_options, hsplit _ (hname.notMem (by decide)), List.map_append, List.foldlM_append]
  refine congrArg _ (funext fun address => ?_)
  rw [List.map_singleton, List.foldlM_cons, hresult name hname]
  cases result address <;> rfl

/-! ## Addresses -/

/-- The address of a URI that ends with a name: the same for all names, or that of a file of the name. -/
def Names (address? : Bytes → Option Address) (b : Bytes) : Prop :=
  (∃ address, ∀ name, IsLiteral name → address? (b ++ 47 :: name) = address) ∨
    ∃ d, ∀ name, IsLiteral name → address? (b ++ 47 :: name) = (Bytes.toText? (d ++ 47 :: name)).map (named · true)

theorem ofParts?_eq (b : Bytes) : ofParts? b = (decode (cut 63 (cut 35 b).1).1).toText?.bind fun path =>
    ((options (cut 63 (cut 35 b).1).2).map optionTexts).foldlM (withOption path) (named path true) := rfl

theorem names_ofParts? (b : Bytes) : Names ofParts? b := by
  by_cases hnumber : 35 ∈ b
  · obtain ⟨front, back, rfl, hfront⟩ := List.eq_append_cons_of_mem hnumber
    refine .inl ⟨ofParts? front, fun name _ => ?_⟩
    simp only [ofParts?_eq]
    rw [List.append_assoc, List.cons_append, cut_eq hfront, cut_of_notMem hfront]
  have hcut {name : Bytes} (hname : IsLiteral name) : (cut 35 (b ++ 47 :: name)).1 = b ++ 47 :: name := by
    have hnone : 35 ∉ b ++ 47 :: name := by
      rw [List.mem_append, not_or]
      exact ⟨hnumber, hname.notMem (by decide)⟩
    rw [cut_of_notMem hnone]
  by_cases hquestion : 63 ∈ b
  · obtain ⟨front, back, rfl, hfront⟩ := List.eq_append_cons_of_mem hquestion
    rcases htext : (decode front).toText? with _ | path
    · refine .inl ⟨none, fun name hname => ?_⟩
      rw [ofParts?_eq, hcut hname, List.append_assoc, List.cons_append, cut_eq hfront]
      simp only [htext, Option.bind_none]
    · obtain ⟨result, hresult⟩ := options_cases path (named path true) back
      refine .inl ⟨result, fun name hname => ?_⟩
      rw [ofParts?_eq, hcut hname, List.append_assoc, List.cons_append, cut_eq hfront]
      simp only [htext, Option.bind_some, hresult name hname]
  · have hpath {name : Bytes} (hname : IsLiteral name) :
        ofParts? (b ++ 47 :: name) = (decode (b ++ 47 :: name)).toText?.map (named · true) := by
      have hnone : 63 ∉ b ++ 47 :: name := by
        rw [List.mem_append, not_or]
        exact ⟨hquestion, hname.notMem (by decide)⟩
      rw [ofParts?_eq, hcut hname, cut_of_notMem hnone]
      cases (decode (b ++ 47 :: name)).toText? <;> rfl
    obtain ⟨d, hd⟩ | ⟨d, hd⟩ := trails b
    · exact .inl ⟨d.toText?.map (named · true), fun name hname => by rw [hpath hname, hd name hname]⟩
    · exact .inr ⟨d, fun name hname => by rw [hpath hname, hd name hname]⟩

/-- The name of a machine ends at the first slash. -/
theorem takeWhile_slash (b : Bytes) : ∃ machine rest : Bytes, ∀ name : Bytes,
    (b ++ 47 :: name).takeWhile (· ≠ 47) = machine ∧ (b ++ 47 :: name).dropWhile (· ≠ 47) = rest ++ 47 :: name := by
  have hfront {front rest : Bytes} (h : 47 ∉ front) : (front ++ 47 :: rest).takeWhile (· ≠ 47) = front ∧
      (front ++ 47 :: rest).dropWhile (· ≠ 47) = 47 :: rest := by
    have hother : ∀ x ∈ front, decide (x ≠ 47) = true := fun x hx => by
      rw [decide_eq_true_eq]
      rintro rfl
      exact h hx
    rw [List.takeWhile_append_of_pos hother, List.dropWhile_append_of_pos hother, List.takeWhile_cons_of_neg (by simp),
      List.dropWhile_cons_of_neg (by simp), List.append_nil]
    exact ⟨rfl, rfl⟩
  by_cases hslash : 47 ∈ b
  · obtain ⟨front, back, rfl, hnone⟩ := List.eq_append_cons_of_mem hslash
    refine ⟨front, 47 :: back, fun name => ?_⟩
    rw [List.append_assoc, List.cons_append]
    exact hfront hnone
  · exact ⟨b, [], fun name => hfront hslash⟩

theorem ofUri?_slashes (b : Bytes) : ofUri? (47 :: 47 :: b) =
    if b.takeWhile (· ≠ 47) = [] || b.takeWhile (· ≠ 47) = Bytes.ofText "localhost" then ofParts? (b.dropWhile (· ≠ 47))
    else none := rfl

theorem names_ofUri? (b : Bytes) : Names ofUri? b := by
  have hparts {rest : Bytes} (h : ∀ name, IsLiteral name → ofUri? (b ++ 47 :: name) = ofParts? (rest ++ 47 :: name)) :
      Names ofUri? b := by
    obtain ⟨address, haddress⟩ | ⟨d, hd⟩ := names_ofParts? rest
    · exact .inl ⟨address, fun name hname => (h name hname).trans (haddress name hname)⟩
    · exact .inr ⟨d, fun name hname => (h name hname).trans (hd name hname)⟩
  -- A URI with two slashes goes on with a machine, which the name is not.
  by_cases hslash : b = [47]
  · subst hslash
    refine .inl ⟨none, fun name hname => ?_⟩
    have hmachine : name.takeWhile (· ≠ 47) = name := by
      refine List.takeWhile_eq_self_iff.2 fun x hx => decide_eq_true ?_
      rintro rfl
      exact hname.bytes 47 (by decide) hx
    rw [List.singleton_append, ofUri?_slashes, hmachine, if_neg (by simp [hname.machine])]
  by_cases hslashes : ∃ rest, b = 47 :: 47 :: rest
  · obtain ⟨rest, rfl⟩ := hslashes
    obtain ⟨machine, path, hmachine⟩ := takeWhile_slash rest
    by_cases hlocal : machine = [] ∨ machine = Bytes.ofText "localhost"
    · refine @hparts path fun name _ => ?_
      rw [List.cons_append, List.cons_append, ofUri?_slashes, (hmachine name).1, (hmachine name).2,
        if_pos (by simpa using hlocal)]
    · refine .inl ⟨none, fun name _ => ?_⟩
      rw [List.cons_append, List.cons_append, ofUri?_slashes, (hmachine name).1, if_neg (by simpa using hlocal)]
  · refine @hparts b fun name hname => ?_
    rw [ofUri?]
    intro rest heq
    rcases b with _ | ⟨x, _ | ⟨y, b⟩⟩
    · obtain ⟨-, hname'⟩ := List.cons.inj heq
      exact hname.bytes 47 (by decide) (hname' ▸ List.mem_cons_self)
    · obtain rfl : x = 47 := (List.cons.inj heq).1
      exact hslash rfl
    · obtain ⟨rfl, hrest⟩ := List.cons.inj heq
      obtain rfl : y = 47 := (List.cons.inj hrest).1
      exact hslashes ⟨b, rfl⟩

end Address

/-! ## Texts that end with a name -/

theorem Bytes.encode_of_ascii {c : Char} (h : c.val.toNat ≤ 127) :
    String.utf8EncodeChar c = [UInt8.ofNat c.val.toNat] := by
  simp only [String.utf8EncodeChar, if_pos h]

/-- Characters whose encoding ends with that of some characters of ASCII end with these. -/
theorem Bytes.exists_front {characters name : List Char} {d : Bytes} (hname : ∀ c ∈ name, c.val.toNat ≤ 127)
    (h : characters.flatMap String.utf8EncodeChar = d ++ name.flatMap String.utf8EncodeChar) :
    ∃ front, characters = front ++ name := by
  induction name using List.reverseRecOn generalizing characters with
  | nil => exact ⟨characters, (List.append_nil _).symm⟩
  | append_singleton name c ih =>
    rw [List.forall_mem_append, List.forall_mem_singleton] at hname
    rw [List.flatMap_append, List.flatMap_singleton, encode_of_ascii hname.2, ← List.append_assoc] at h
    rcases List.eq_nil_or_concat characters with rfl | ⟨rest, last, rfl⟩
    · simp at h
    · rw [List.concat_eq_append, List.flatMap_append, List.flatMap_singleton] at h
      have hlast : last.val.toNat ≤ 127 := by
        by_contra hlast
        have hmem : UInt8.ofNat c.val.toNat ∈ String.utf8EncodeChar last := by
          have hend := congrArg List.getLast? h
          rw [List.getLast?_concat, List.getLast?_append_of_ne_nil _ String.utf8EncodeChar_ne_nil] at hend
          exact List.mem_of_getLast? hend
        have hle := UInt8.le_iff_toNat_le.1 (Json.Quoted.le_of_mem_utf8EncodeChar hlast _ hmem)
        rw [UInt8.toNat_ofNat'] at hle
        have hmod := Nat.mod_le c.val.toNat (2 ^ 8)
        change 128 ≤ _ at hle
        omega
      rw [encode_of_ascii hlast] at h
      obtain ⟨hrest, hbyte⟩ := List.append_inj' h rfl
      obtain ⟨front, rfl⟩ := ih hname.1 hrest
      have hsame : last.val.toNat = c.val.toNat := by
        have hvalue := congrArg UInt8.toNat (List.singleton_inj.1 hbyte)
        rw [UInt8.toNat_ofNat', UInt8.toNat_ofNat'] at hvalue
        omega
      rw [Char.ext (UInt32.toNat_inj.1 hsame), List.concat_eq_append, List.append_assoc]
      exact ⟨front, rfl⟩

/-- A text whose bytes end with a slash and a name is a path of a file of the name. -/
theorem Path.steps_of_ofText {path name : String} {d : Bytes} (hname : IsName name)
    (hascii : ∀ c ∈ name.toList, c.val.toNat ≤ 127) (h : Bytes.ofText path = d ++ 47 :: Bytes.ofText name) :
    ∃ names, steps path = names ++ [name] := by
  obtain ⟨front, hfront⟩ : ∃ front, path.toList = front ++ '/' :: name.toList := by
    refine Bytes.exists_front (d := d) (List.forall_mem_cons.2 ⟨by decide, hascii⟩) ?_
    rw [← Bytes.ofText_eq_flatMap, h, Bytes.ofText_eq_flatMap name]
    rfl
  refine ⟨names front, ?_⟩
  rw [steps, hfront, names, splitSlashes_append, List.map_append]
  exact congrArg _ (steps_of_isName hname)

theorem Bytes.ofText_slash (before name : String) :
    ofText (before ++ "/" ++ name) = ofText before ++ 47 :: ofText name := by
  rw [String.append_assoc, ofText_append, ofText_append]
  rfl

namespace Address

/-- Names of files that mean nothing special in a URI. -/
structure IsFile (name : String) : Prop where
  isName : Path.IsName name
  literal : IsLiteral (Bytes.ofText name)
  ascii : ∀ c ∈ name.toList, c.val.toNat ≤ 127

/-- Between the path of a directory and the name of a file there is a slash, whatever the name. -/
theorem exists_join {base : String} (hbase : base ≠ "") :
    ∃ before, ∀ name, Path.IsName name → Path.join base name = before ++ "/" ++ name := by
  by_cases hslash : base.toList.getLast? = some '/'
  · obtain ⟨before, hbefore⟩ := List.getLast?_eq_some_iff.1 hslash
    refine ⟨String.ofList before, fun name hname => ?_⟩
    have hjoin : base = String.ofList before ++ "/" := by
      rw [← String.toList_inj, String.toList_append, String.toList_ofList, hbefore]
      rfl
    rw [Path.join, hname.isAbsolute_eq, if_neg Bool.false_ne_true, if_pos (by simp [hslash]), ← hjoin]
  · refine ⟨base, fun name hname => ?_⟩
    rw [Path.join, hname.isAbsolute_eq, if_neg Bool.false_ne_true, if_neg (by simp [hslash, hbase])]

theorem named_eq_file {path filePath : String} {mayCreate made : Bool}
    (h : named path made = .file filePath mayCreate) : filePath = path := by
  unfold named at h
  split at h
  · cases h
  · exact (Address.file.inj h).1.symm

theorem ofPath?_eq (path : String) : ofPath? path = if (Bytes.ofText path).contains 0 then none
    else if scheme.isPrefixOf (Bytes.ofText path) then ofUri? ((Bytes.ofText path).drop scheme.length)
    else some (named path true) := rfl

theorem ofPath?_of_isFile {name : String} (hname : IsFile name) : ofPath? name = some (named name true) := by
  have hzero : ¬(Bytes.ofText name).contains 0 = true := by
    rw [List.contains_iff_mem]
    exact hname.literal.bytes 0 (by decide)
  have hscheme : ¬scheme.isPrefixOf (Bytes.ofText name) = true := by
    rw [List.isPrefixOf_iff_prefix]
    exact fun h => hname.literal.bytes 58 (by decide) (h.subset (by decide))
  rw [ofPath?_eq, if_neg hzero, if_neg hscheme]

/-- The address of a file in a directory that is not the empty path depends on what stands before its name. -/
theorem ofPath?_append (before : String) {name : String} (hname : IsFile name) :
    ofPath? (before ++ "/" ++ name) = if (Bytes.ofText before).contains 0 then none
      else if scheme.isPrefixOf (Bytes.ofText before) then
        ofUri? ((Bytes.ofText before).drop scheme.length ++ 47 :: Bytes.ofText name)
      else some (named (before ++ "/" ++ name) true) := by
  have hzero : (Bytes.ofText before ++ 47 :: Bytes.ofText name).contains 0 = (Bytes.ofText before).contains 0 := by
    have hnone : 0 ∉ 47 :: Bytes.ofText name := hname.literal.notMem (by decide)
    rw [Bool.eq_iff_iff, List.contains_iff_mem, List.contains_iff_mem, List.mem_append, or_iff_left hnone]
  rw [ofPath?_eq, Bytes.ofText_slash, hzero, isPrefixOf_scheme_slash]
  split
  · rfl
  · split
    · rename_i hscheme
      have hlength := List.IsPrefix.length_le (List.isPrefixOf_iff_prefix.1 hscheme)
      rw [List.drop_append_of_le_length hlength]
    · rfl

/-- Either the files of a directory have the same address, whatever their names, or the address of each of them that is
in a file leads to a file of its name. -/
theorem ofPath?_join_cases (base : String) :
    (∃ address, ∀ name, IsFile name → ofPath? (Path.join base name) = address) ∨
      ∀ name, IsFile name → ∀ path mayCreate, ofPath? (Path.join base name) = some (.file path mayCreate) →
        ∃ names, Path.steps path = names ++ [name] := by
  by_cases hbase : base = ""
  · refine .inr fun name hname path mayCreate h => ⟨[], ?_⟩
    have hjoin : Path.join base name = name := by
      rw [hbase, Path.join, hname.isName.isAbsolute_eq]
      exact String.empty_append
    rw [hjoin, ofPath?_of_isFile hname] at h
    rw [named_eq_file (Option.some.inj h), Path.steps_of_isName hname.isName, List.nil_append]
  obtain ⟨before, hjoin⟩ := exists_join hbase
  have haddress {name : String} (hname : IsFile name) :=
    (congrArg ofPath? (hjoin name hname.isName)).trans (ofPath?_append before hname)
  by_cases hzero : (Bytes.ofText before).contains 0 = true
  · exact .inl ⟨none, fun name hname => by rw [haddress hname, if_pos hzero]⟩
  by_cases hscheme : scheme.isPrefixOf (Bytes.ofText before) = true
  · obtain ⟨address, hsame⟩ | ⟨d, hd⟩ := names_ofUri? ((Bytes.ofText before).drop scheme.length)
    · refine .inl ⟨address, fun name hname => ?_⟩
      rw [haddress hname, if_neg hzero, if_pos hscheme, hsame _ hname.literal]
    · refine .inr fun name hname path mayCreate h => ?_
      rw [haddress hname, if_neg hzero, if_pos hscheme, hd _ hname.literal] at h
      obtain ⟨text, htext, hfile⟩ := Option.map_eq_some_iff.1 h
      rw [named_eq_file hfile]
      exact Path.steps_of_ofText hname.isName hname.ascii (Bytes.ofText_of_toText? htext)
  · refine .inr fun name hname path mayCreate h => ?_
    rw [haddress hname, if_neg hzero, if_neg hscheme] at h
    rw [named_eq_file (Option.some.inj h)]
    exact Path.steps_of_ofText hname.isName hname.ascii (Bytes.ofText_slash before name)

end Address

end ClassDeps
