import ClassDeps.Proofs.Files.Directories
import ClassDeps.Proofs.Symbols.Lifetime
import ClassDeps.Proofs.Symbols.Saved

/-!
# Tables and their files

A table is loaded from a directory of documents, used, and saved there as often as one likes. Unless it counts as
changed, the document there is the one of the table, so that a table that was saved can be loaded again.

## Main definitions

* `SymbolTable.Current` — the document of the symbols is that of a table
* `SymbolTable.Undisturbed` — operations that leave the document to the table

## Main statements

* `SymbolTable.load_eq_ok_iff` — which documents are loaded, and as which tables
* `SymbolTable.Kept.run` — a table in use is current unless it is marked
* `SymbolTable.load_after_save` — what is loaded after saving
* `SymbolTable.not_load_after_save` — it matters where the path leads and how many symbols there are
-/

namespace ClassDeps.SymbolTable

variable {store : JsonStore} {t u : SymbolTable} {files later : Files} {symbols : List String}

/-! ## Loading -/

/-- A table that symbols were added to has them behind those that it had. -/
theorem symbols_of_ofSymbols (h : ofSymbols symbols t = .ok u) (hsize : t.size ≤ limit) :
    u.symbols = t.symbols ++ symbols := by
  induction symbols generalizing t with
  | nil =>
    cases h
    exact (List.append_nil _).symm
  | cons symbol rest ih =>
    unfold ofSymbols at h
    split at h
    · cases h
    · rename_i id next hintern
      obtain ⟨rfl, rfl, hroom⟩ := eq_add_of_intern hintern
      split at h
      · rename_i hposition
        have hnew : symbol ∉ t.symbols := by
          intro hmem
          have hlt := List.idxOf_lt_length_of_mem hmem
          rw [add, if_pos hmem, toInt_number hmem hsize] at hposition
          exact Nat.ne_of_lt hlt (Int.ofNat_inj.1 hposition)
        rw [ih h (hroom hsize), add, if_neg hnew, List.append_assoc, List.singleton_append]
      · cases h

/-- A document of symbols is loaded if they differ from each other and there is a number for each of them. -/
theorem load_eq_ok_iff (hexists : store.exists? fileName files = true) :
    load store files = .ok t ↔
      ∃ symbols, store.load SymbolFile.form fileName files = .ok ⟨SymbolFile.supported, symbols⟩ ∧
        symbols.Nodup ∧ symbols.length ≤ limit ∧ t = ⟨symbols, false⟩ := by
  rw [load, JsonStore.loadOptional, if_pos hexists]
  rcases store.load SymbolFile.form fileName files with error | ⟨version, symbols⟩
  · constructor
    · intro h
      cases h
    · rintro ⟨_, h, -⟩
      cases h
  · simp only [Except.map, bind, Except.bind, Except.ok.injEq, SymbolFile.mk.injEq]
    constructor
    · intro h
      split at h
      · cases h
      · rename_i hversion
        split at h
        · cases h
        · rename_i table htable
          cases h
          have hbuilt := (interned_ofSymbols htable).built .empty
          have hsymbols := symbols_of_ofSymbols htable (Nat.zero_le _)
          rw [empty, List.nil_append] at hsymbols
          refine ⟨symbols, ⟨Decidable.not_not.1 hversion, rfl⟩, hsymbols ▸ hbuilt.nodup, hsymbols ▸ hbuilt.size_le, ?_⟩
          rw [hsymbols]
    · rintro ⟨_, ⟨rfl, rfl⟩, hnodup, hsize, rfl⟩
      obtain ⟨table, htable, hsymbols⟩ : ∃ table, ofSymbols symbols .empty = .ok table ∧
          table.symbols = symbols := ofSymbols_eq hnodup hsize
      simp only [ne_eq, not_true_eq_false, if_false, htable, hsymbols]
      rfl

/-! ## Current documents -/

/-- The document of the symbols is that of a table, or there is none and the table is empty. -/
def Current (t : SymbolTable) (store : JsonStore) (files : Files) : Prop :=
  store.loadOptional SymbolFile.form fileName files = .ok (some ⟨SymbolFile.supported, t.symbols⟩) ∨
    store.exists? fileName files = false ∧ t.symbols = []

/-- The document of the symbols is read as it was before, or is still missing. -/
def SameDocument (store : JsonStore) (files later : Files) : Prop :=
  store.exists? fileName later = store.exists? fileName files ∧
    later.read (store.filePath fileName) = files.read (store.filePath fileName)

theorem SameDocument.loadOptional_eq (h : SameDocument store files later) {α : Type} (form : Json.Form α) :
    store.loadOptional form fileName later = store.loadOptional form fileName files := by
  have htext : later.readText (store.filePath fileName) = files.readText (store.filePath fileName) := by
    rw [Files.readText, Files.readText, h.2]
  rw [JsonStore.loadOptional, JsonStore.loadOptional, h.1, JsonStore.load_eq, JsonStore.load_eq, htext]

namespace Current

theorem of_sameDocument (h : t.Current store files) (hsame : SameDocument store files later) :
    t.Current store later := by
  rw [Current, hsame.loadOptional_eq, hsame.1]
  exact h

/-- The document of a loaded table is current. -/
theorem of_load (h : load store files = .ok t) : t.Current store files := by
  by_cases hexists : store.exists? fileName files = true
  · obtain ⟨symbols, hfile, -, -, rfl⟩ := (load_eq_ok_iff hexists).1 h
    exact .inl (JsonStore.loadOptional_eq_some_iff.2 ⟨hexists, hfile⟩)
  · rw [Bool.not_eq_true] at hexists
    cases h.symm.trans (load_of_missing hexists)
    exact .inr ⟨hexists, rfl⟩

/-- A table whose document is current is loaded from there. -/
theorem load_eq (h : t.Current store files) (ht : t.Built) (hclean : t.dirty = false) : load store files = .ok t := by
  obtain hfile | ⟨hmissing, hempty⟩ := h
  · obtain ⟨hexists, hload⟩ := JsonStore.loadOptional_eq_some_iff.1 hfile
    exact (load_eq_ok_iff hexists).2 ⟨t.symbols, hload, ht.nodup, ht.size_le, by rw [← hclean]⟩
  · rw [load_of_missing hmissing]
    obtain ⟨symbols, dirty⟩ := t
    cases hclean
    cases hempty
    rfl

end Current

/-- Saving a table makes its document current. -/
theorem of_save (hclean : t.dirty = false → t.Current store files) (h : t.save store files = (.ok (), u, later)) :
    u = { t with dirty := false } ∧ u.Current store later := by
  match hdirty : t.dirty with
  | false =>
    cases (save_of_clean hdirty store files).symm.trans h
    exact ⟨by rw [← hdirty], hclean hdirty⟩
  | true =>
    rw [save, if_pos hdirty] at h
    split at h
    · rename_i hsave
      cases h
      obtain ⟨hwritten, -⟩ : store.Written fileName _ later ∧ files.Spares (fun _ => False) (fun _ => False) later :=
        JsonStore.written_of_save hsave id id
      refine ⟨rfl, .inl (hwritten.loadOptional_eq ?_ (SymbolFile.ofBytes?_toIndented _))⟩
      exact Json.isText_toIndented (SymbolFile.intact_form _)
    · cases h

/-- Only a table that is marked is written, so that no other one can fail to be saved. -/
theorem dirty_of_save_eq_error {error : Error} (h : t.save store files = (.error error, u, later)) :
    u = t ∧ t.dirty = true := by
  unfold save at h
  split at h
  · rename_i hdirty
    split at h
    · cases h
    · cases h
      exact ⟨rfl, hdirty⟩
  · cases h

/-! ## Tables in use -/

/-- Operations that leave the document of a directory to the table: it is saved nowhere else, and others may change
files but not this document. -/
def Operation.Respects (store : JsonStore) (files : Files) : Operation → Prop
  | save other => other = store
  | others later => SameDocument store files later
  | _ => True

/-- Nobody but the table itself changes its document. -/
def Undisturbed (store : JsonStore) : List Operation → SymbolTable × Files → Prop
  | [], _ => True
  | op :: ops, s => op.Respects store s.2 ∧ Undisturbed store ops (op.run s)

/-- A table whose document is current unless the table is marked. -/
structure Kept (store : JsonStore) (s : SymbolTable × Files) : Prop where
  built : s.1.Built
  current : s.1.dirty = false → s.1.Current store s.2

namespace Kept

variable {s : SymbolTable × Files} {ops : List Operation}

theorem of_load (h : load store files = .ok t) : Kept store (t, files) :=
  ⟨(built_load h).1, fun _ => .of_load h⟩

/-- A name that is new marks the table, and only saving takes the mark away. -/
theorem step (h : Kept store s) {op : Operation} (hop : op.Respects store s.2) : Kept store (op.run s) := by
  refine ⟨op.built h.built, ?_⟩
  obtain ⟨t, files⟩ := s
  cases op with
  | id _ | symbol _ | resolve _ => exact h.current
  | others later => exact fun hclean => (h.current hclean).of_sameDocument hop
  | intern name =>
    simp only [Operation.run]
    split
    · rename_i u hintern
      intro hclean
      obtain rfl | hdirty := (Interned.refl.intern hintern).eq_or_dirty
      · exact h.current hclean
      · exact absurd (hclean.symm.trans hdirty) Bool.false_ne_true
    · exact h.current
  | save other =>
    obtain rfl : other = store := hop
    change (t.save other files).2.1.dirty = false → (t.save other files).2.1.Current other (t.save other files).2.2
    rcases hsave : t.save other files with ⟨error | ⟨⟩, u, later⟩
    · obtain ⟨rfl, hdirty⟩ := dirty_of_save_eq_error hsave
      exact fun hclean => absurd (hclean.symm.trans hdirty) Bool.false_ne_true
    · exact fun _ => (of_save h.current hsave).2

/-- A table in use is current unless it is marked. -/
theorem run (h : Kept store s) (hops : Undisturbed store ops s) : Kept store (SymbolTable.run ops s) := by
  induction ops generalizing s with
  | nil => exact h
  | cons op ops ih => exact ih (h.step hops.1) hops.2

end Kept

/-- A table that was loaded from a directory and is used and saved there is current unless it is marked; after it was
saved the very table is loaded again. A document is loaded if it has the supported version and at most 2³¹ symbols,
each of them once, and then every symbol has its position for a number. -/
theorem load_after_save :
    (∀ t, load store files = .ok t → ∀ ops, Undisturbed store ops (t, files) →
      ∀ u later, SymbolTable.run ops (t, files) = (u, later) →
        (u.dirty = false → u.Current store later) ∧
        ∀ v saved, u.save store later = (.ok (), v, saved) → v = { u with dirty := false } ∧ load store saved = .ok v) ∧
    (store.exists? fileName files = true →
      (∀ t, load store files = .ok t ↔
        ∃ symbols, store.load SymbolFile.form fileName files = .ok ⟨SymbolFile.supported, symbols⟩ ∧
          symbols.Nodup ∧ symbols.length ≤ 2 ^ 31 ∧ t = ⟨symbols, false⟩) ∧
      ∀ t, load store files = .ok t → ∀ (n : Nat) name, t.symbols[n]? = some name →
        ∃ id : SymbolId, id.toInt = n ∧ t.id? name = some id ∧ t.symbol? id = some name) := by
  refine ⟨fun t hload ops hops u later hrun => ?_, fun hexists => ⟨fun t => load_eq_ok_iff hexists, ?_⟩⟩
  · have hkept : Kept store (u, later) := hrun ▸ (Kept.of_load hload).run hops
    refine ⟨hkept.current, fun v saved hsave => ?_⟩
    obtain ⟨rfl, hcurrent⟩ := of_save hkept.current hsave
    exact ⟨rfl, hcurrent.load_eq hkept.built.unmark rfl⟩
  · intro t hload n name hname
    have hbuilt := (built_load hload).1
    obtain ⟨hlt, rfl⟩ := List.getElem?_eq_some_iff.1 hname
    have hmem := List.getElem_mem hlt
    refine ⟨t.number t.symbols[n], ?_, id?_eq_some_number hmem, symbol?_number hmem hbuilt.size_le⟩
    rw [toInt_number hmem hbuilt.size_le, hbuilt.nodup.idxOf_getElem]

/-- Symbols of any characters are loaded again after they were saved where there was no file, and each of them has its
position for a number. -/
theorem load_after_save_interned : ∃ (t : SymbolTable) (u : SymbolTable) (files saved : Files),
    load ⟨"s"⟩ files = .ok t ∧
      SymbolTable.run [.intern "é\n\x00", .intern "", .intern "\"𐍈"] (t, files) = (u, files) ∧
      u.save ⟨"s"⟩ files = (.ok (), { u with dirty := false }, saved) ∧
      load ⟨"s"⟩ saved = .ok ⟨["é\n\x00", "", "\"𐍈"], false⟩ ∧ JsonStore.exists? ⟨"s"⟩ fileName saved = true ∧
      ∃ id : SymbolId, id.toInt = (2 : Nat) ∧ { u with dirty := false }.id? "\"𐍈" = some id := by
  let u : SymbolTable := ⟨["é\n\x00", "", "\"𐍈"], true⟩
  have hload : load ⟨"s"⟩ .empty = .ok .empty := by decide +kernel
  have hrun : SymbolTable.run [.intern "é\n\x00", .intern "", .intern "\"𐍈"] (.empty, .empty) = (u, .empty) := rfl
  have hops : Undisturbed ⟨"s"⟩ [.intern "é\n\x00", .intern "", .intern "\"𐍈"] (.empty, .empty) :=
    ⟨trivial, trivial, trivial, trivial⟩
  have hsaved : (u.save ⟨"s"⟩ .empty).1 = .ok () := by decide +kernel
  have hsave : u.save ⟨"s"⟩ .empty = (.ok (), (u.save ⟨"s"⟩ .empty).2.1, (u.save ⟨"s"⟩ .empty).2.2) :=
    Prod.ext hsaved rfl
  have hexists : JsonStore.exists? ⟨"s"⟩ fileName (u.save ⟨"s"⟩ .empty).2.2 = true := by decide +kernel
  obtain ⟨hunmarked, hloaded⟩ := (load_after_save.1 _ hload _ hops _ _ hrun).2 _ _ hsave
  rw [hunmarked] at hsave hloaded
  obtain ⟨id, hposition, hid, -⟩ := (load_after_save.2 hexists).2 _ hloaded 2 "\"𐍈" rfl
  exact ⟨_, u, _, _, hload, hrun, hsave, hloaded, hexists, id, hposition, hid⟩

/-! ## Where the path leads, and how many symbols there are -/

/-- Symbols for which there are not enough numbers are not loaded. -/
theorem ofSymbols_eq_error (hnodup : (t.symbols ++ symbols).Nodup) (hsize : t.size ≤ limit)
    (hfull : limit < (t.symbols ++ symbols).length) : ofSymbols symbols t = .error (.internal .symbolTableFull) := by
  induction symbols generalizing t with
  | nil =>
    rw [List.append_nil] at hfull
    exact absurd hsize (Nat.not_le_of_lt hfull)
  | cons symbol rest ih =>
    have hnew : symbol ∉ t.symbols :=
      fun hmem => (List.nodup_append.1 hnodup).2.2 _ hmem _ List.mem_cons_self rfl
    obtain hlt | hlast := Nat.lt_or_eq_of_le hsize
    · obtain ⟨id, hid, hintern⟩ := t.admits.added symbol hnew hlt
      rw [ofSymbols, hintern]
      simp only [if_pos hid]
      rw [List.append_cons t.symbols symbol rest] at hnodup hfull
      refine ih hnodup ?_ hfull
      rw [size, List.length_append]
      exact hlt
    · rw [ofSymbols, (t.admits.refused symbol hnew hlast).1]

/-- The text of some letters. -/
def letters (count : Nat) : String :=
  String.ofList (List.replicate count 'a')

theorem nodup_map_letters (n : Nat) : ((List.range n).map letters).Nodup := by
  refine List.nodup_range.map fun k l heq => ?_
  have hletters := congrArg List.length (String.ofList_injective heq)
  rwa [List.length_replicate, List.length_replicate] at hletters

/-- A file in the directory that relative paths start from. -/
theorem written_fileName (bytes : Bytes) :
    JsonStore.Written ⟨""⟩ fileName bytes (Files.empty.setEntry [fileName] (.file bytes)) where
  located := Files.locate_eq_ok_iff.2 ⟨by decide +kernel, rfl⟩
  entry := rfl

/-- There is a document of as many symbols as one likes, each of them once. -/
theorem exists_document (count : Nat) : ∃ (store : JsonStore) (files : Files) (symbols : List String),
    symbols.length = count ∧ symbols.Nodup ∧
      store.loadOptional SymbolFile.form fileName files = .ok (some ⟨SymbolFile.supported, symbols⟩) := by
  let file : SymbolFile := ⟨SymbolFile.supported, (List.range count).map letters⟩
  let files := Files.empty.setEntry [fileName] (.file (SymbolFile.form.write file).toIndented)
  have hfile : JsonStore.loadOptional ⟨""⟩ SymbolFile.form fileName files = .ok (some file) :=
    (written_fileName _).loadOptional_eq (Json.isText_toIndented (SymbolFile.intact_form file))
      (SymbolFile.ofBytes?_toIndented file)
  refine ⟨⟨""⟩, files, file.symbols, ?_, nodup_map_letters count, hfile⟩
  rw [List.length_map, List.length_range]

/-- The document of the symbols can come into sight although nobody writes it, when a directory is made that the path of
it passes through. And there is a document of different symbols that is not loaded, because they are too many. -/
theorem not_load_after_save :
    (∃ (store : JsonStore) (files : Files), load store files = .ok .empty ∧ files.entryAt? ["x"] = none ∧
      save .empty store (files.setEntry ["x"] .directory) = (.ok (), .empty, files.setEntry ["x"] .directory) ∧
      load store (files.setEntry ["x"] .directory) = .ok ⟨["A"], false⟩) ∧
    ∃ (store : JsonStore) (files : Files) (symbols : List String), store.exists? fileName files = true ∧
      store.load SymbolFile.form fileName files = .ok ⟨SymbolFile.supported, symbols⟩ ∧ symbols.Nodup ∧
      symbols.length = 2 ^ 31 + 1 ∧ load store files = .error (.internal .symbolTableFull) := by
  constructor
  · let files : Files := (Files.empty.setEntry ["s"] .directory).setEntry ["s", "symbols.json"]
      (.file (.ofText "\x7b\"version\":1,\"symbols\":[\"A\"]\x7d"))
    have hmissing : load ⟨"x/../s"⟩ files = .ok .empty := by decide +kernel
    have hfound : load ⟨"x/../s"⟩ (files.setEntry ["x"] .directory) = .ok ⟨["A"], false⟩ := by decide +kernel
    exact ⟨⟨"x/../s"⟩, files, hmissing, rfl, rfl, hfound⟩
  · obtain ⟨store, files, symbols, hlength, hnodup, hfile⟩ := exists_document (2 ^ 31 + 1)
    obtain ⟨hexists, hload⟩ := JsonStore.loadOptional_eq_some_iff.1 hfile
    have hfull : ofSymbols symbols .empty = .error (.internal .symbolTableFull) :=
      ofSymbols_eq_error hnodup (Nat.zero_le _) (Nat.lt_of_lt_of_eq (Nat.lt_succ_self (2 ^ 31)) hlength.symm)
    refine ⟨store, files, symbols, hexists, hload, hnodup, hlength, ?_⟩
    rw [load, hfile]
    simp only [bind, Except.bind, hfull]
    rfl

end ClassDeps.SymbolTable
