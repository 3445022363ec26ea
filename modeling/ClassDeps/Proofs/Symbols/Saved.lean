import ClassDeps.Proofs.Files.Documents
import ClassDeps.Proofs.Json.Intact
import ClassDeps.Proofs.Symbols.Growth

/-!
# Symbols on disk

A symbol table that was saved is loaded with the same symbols, and so it is for as long as the file of the symbols is
spared. A table that does not count as changed need not be saved, for it is the one on disk.

## Main definitions

* `SymbolTable.onDisk` — the symbols that the next session loads

## Main statements

* `SymbolTable.ofSymbols_eq` — symbols that differ make up a table
* `SymbolTable.onDisk_of_save` — what is on disk after a table was saved
* `SymbolTable.onDisk_of_spares` — symbols on disk stay
-/

namespace ClassDeps

open Json

/-! ## Documents of tables -/

namespace SymbolFile

/-- The members of the document of a table. -/
def members (f : SymbolFile) : List (String × Json) :=
  [("version", Form.uint32.write f.version), ("symbols", (Form.list Form.text).write f.symbols)]

theorem exact_form : SymbolFile.form.Exact := by
  intro source limit f
  cases limit with
  | zero => exact (if_neg (not_depth_record_le_zero _)).symm
  | succ limit =>
    have hnodup : (f.members.map Prod.fst).Nodup := by simp [members]
    have hfound : members? ["version", "symbols"] (.record f.members) = some f.members :=
      members?_record (by simp [members]) hnodup
    have hversion := (Form.exact_uint32.gives source limit f.version).required hnodup
      (by simp [members] : ("version", _) ∈ f.members)
    have hsymbols := (Form.exact_text.list.gives source limit f.symbols).required hnodup
      (by simp [members] : ("symbols", _) ∈ f.members)
    refine Gives.eq_ite (.bind (.of_eq hfound) (.bind hversion (.bind hsymbols (.pure f)))) ?_
    simp [form]

theorem intact_form : SymbolFile.form.Intact := by
  intro f
  refine isIntact_record.2 ?_
  simp only [List.forall_mem_cons]
  exact ⟨Form.intact_uint32 f.version, Form.intact_text.list f.symbols, List.forall_mem_nil _⟩

theorem depth_write_le (f : SymbolFile) : (form.write f).depth ≤ depthLimit := by
  have hlevels : (form.write f).depth ≤ 2 := by
    refine depth_record_le.2 ?_
    simp only [List.forall_mem_cons]
    refine ⟨Nat.zero_le _, depth_array_le.2 ?_, List.forall_mem_nil _⟩
    rw [List.forall_mem_map]
    exact fun s _ => Nat.le_of_eq (depth_ofText s)
  exact Nat.le_trans hlevels (by decide)

/-- A written document is read back. -/
theorem ofBytes?_toIndented (f : SymbolFile) : form.ofBytes? (form.write f).toIndented = some f := by
  rw [Form.ofBytes?, Json.ofBytes?_toIndented, Option.bind_eq_bind, Option.bind_some, Form.ofJson?, exact_form,
    if_pos f.depth_write_le]

/-- No document of a table is as short as a file that counts as empty. -/
theorem two_le_length {bytes : Bytes} {f : SymbolFile} (h : form.ofBytes? bytes = some f) : 2 ≤ bytes.length := by
  have hsingle : ∀ n < 256, (form.ofBytes? [UInt8.ofNat n]).isNone = true := by decide +kernel
  match bytes with
  | [] => exact absurd h nofun
  | [b] =>
    have hnone := hsingle b.toNat b.toNat_lt
    rw [UInt8.ofNat_toNat, h] at hnone
    cases hnone
  | _ :: _ :: _ => simp

end SymbolFile

namespace SymbolTable

variable {store : JsonStore} {table table' : SymbolTable} {t u : Files}

/-- Symbols that differ from each other and from those of a table make it up to a table of all of them. -/
theorem ofSymbols_eq {symbols : List String} (hnodup : (table.symbols ++ symbols).Nodup)
    (hsize : (table.symbols ++ symbols).length ≤ limit) :
    ∃ table', ofSymbols symbols table = .ok table' ∧ table'.symbols = table.symbols ++ symbols := by
  induction symbols generalizing table with
  | nil => exact ⟨table, rfl, (List.append_nil _).symm⟩
  | cons symbol rest ih =>
    have hnew : symbol ∉ table.symbols := by
      rw [List.nodup_append] at hnodup
      exact fun hmem => hnodup.2.2 _ hmem _ List.mem_cons_self rfl
    have hlt : table.size < limit := by
      rw [List.length_append, List.length_cons] at hsize
      exact Nat.lt_of_lt_of_le (Nat.lt_add_of_pos_right (Nat.succ_pos _)) hsize
    have hintern : table.intern symbol = .ok (.ofNat table.size, ⟨table.symbols ++ [symbol], true⟩) := by
      rw [intern, id?_eq_none_iff.2 hnew]
      exact if_pos hlt
    rw [ofSymbols, hintern]
    simp only [if_pos (toInt_ofNat_of_lt hlt)]
    rw [List.append_cons table.symbols symbol rest] at hnodup hsize ⊢
    exact ih hnodup hsize

/-- The symbols on disk. There are none if the document of them is missing or unreadable. -/
def onDisk (store : JsonStore) (t : Files) : SymbolTable :=
  match load store t with
  | .ok table => table
  | .error _ => .empty

theorem onDisk_of_load (h : load store t = .ok table) : onDisk store t = table := by
  rw [onDisk, h]

theorem load_of_onDisk (h : (onDisk store t).symbols ≠ []) : load store t = .ok (onDisk store t) := by
  unfold onDisk at h ⊢
  split
  · rename_i table hload
    exact hload
  · rename_i error hload
    rw [hload] at h
    exact absurd rfl h

theorem load_of_missing (h : store.exists? fileName t = false) : load store t = .ok .empty := by
  rw [load, JsonStore.loadOptional, h]
  rfl

theorem built_onDisk (store : JsonStore) (t : Files) : (onDisk store t).Built := by
  unfold onDisk
  split
  · rename_i hload
    exact (built_load hload).1
  · exact .empty

/-- A table that has symbols was read from a document. -/
theorem exists_file (h : (onDisk store t).symbols ≠ []) :
    ∃ file, store.loadOptional SymbolFile.form fileName t = .ok (some file) := by
  match hfile : store.loadOptional SymbolFile.form fileName t with
  | .error _ | .ok none =>
    rw [onDisk, load, hfile] at h
    exact absurd rfl h
  | .ok (some file) => exact ⟨file, rfl⟩

/-- A document of symbols is loaded again for as long as its file is spared, for it is no empty file. -/
theorem load_of_spares {kept : Place → Prop} {good : StoreContents → Prop} {file : SymbolFile}
    (h : store.loadOptional SymbolFile.form fileName t = .ok (some file)) (hspares : t.Spares kept good u)
    (hkept : kept (store.place fileName t)) : load store u = load store t := by
  obtain ⟨bytes, hwritten, htext, hread⟩ := JsonStore.written_of_loadOptional h
  have hlength := SymbolFile.two_le_length hread
  rw [load, load, h, (hwritten.spares hkept hlength hspares).loadOptional_eq htext hread]

/-- Symbols on disk stay there for as long as their file is spared. -/
theorem onDisk_of_spares {kept : Place → Prop} {good : StoreContents → Prop}
    (h : (onDisk store t).symbols ≠ []) (hspares : t.Spares kept good u) (hkept : kept (store.place fileName t)) :
    onDisk store u = onDisk store t := by
  obtain ⟨file, hfile⟩ := exists_file h
  rw [onDisk, onDisk, load_of_spares hfile hspares hkept]

theorem onDisk_le_of_spares {kept : Place → Prop} {good : StoreContents → Prop}
    (hspares : t.Spares kept good u) (hkept : kept (store.place fileName t)) : onDisk store t ≤ onDisk store u := by
  by_cases h : (onDisk store t).symbols = []
  · change (onDisk store t).symbols <+: (onDisk store u).symbols
    rw [h]
    exact List.nil_prefix
  · rw [onDisk_of_spares h hspares hkept]
    exact le_refl _

theorem save_of_clean (h : table.dirty = false) (store : JsonStore) (t : Files) :
    table.save store t = (.ok (), table, t) := by
  rw [save, h]
  rfl

/-- What is on disk after a table was saved that had been changed. -/
theorem onDisk_of_save {good : StoreContents → Prop} (hbuilt : table.Built) (hdirty : table.dirty = true)
    (h : table.save store t = (.ok (), table', u)) :
    (onDisk store u).symbols = table.symbols ∧ t.Spares (fun _ => False) good u := by
  rw [save, if_pos hdirty] at h
  split at h
  · rename_i hsave
    cases h
    obtain ⟨hwritten, hspares⟩ : store.Written fileName _ u ∧ t.Spares (fun _ => False) good u :=
      JsonStore.written_of_save hsave id id
    refine ⟨?_, hspares⟩
    have hfile := hwritten.loadOptional_eq
      (Json.isText_toIndented (SymbolFile.intact_form _)) (SymbolFile.ofBytes?_toIndented _)
    obtain ⟨loaded, hloaded, hsymbols⟩ : ∃ loaded, ofSymbols table.symbols .empty = .ok loaded ∧
        loaded.symbols = table.symbols := ofSymbols_eq hbuilt.nodup hbuilt.size_le
    rw [onDisk, load, hfile]
    simp only [bind, Except.bind, ne_eq, not_true_eq_false, if_false, hloaded]
    exact hsymbols
  · cases h

/-- After a table was saved it is on disk, whether it was written or had not changed. -/
theorem le_onDisk_of_save {good : StoreContents → Prop} (hbuilt : table.Built)
    (hclean : table.dirty = false → table ≤ onDisk store t) (h : table.save store t = (.ok (), table', u)) :
    table ≤ onDisk store u ∧ t.Spares (fun _ => False) good u := by
  match hdirty : table.dirty with
  | true =>
    obtain ⟨hsymbols, hspares⟩ := onDisk_of_save hbuilt hdirty h
    refine ⟨?_, hspares⟩
    change table.symbols <+: (onDisk store u).symbols
    exact hsymbols ▸ List.prefix_refl _
  | false =>
    rw [save_of_clean hdirty] at h
    cases h
    exact ⟨hclean hdirty, .refl t⟩

end SymbolTable

end ClassDeps
