import ClassDeps.Proofs.Class.Named
import ClassDeps.Proofs.Class.Resolved

/-!
# Methods by signature

The signature of a method is its name and its descriptor up to the first closing parenthesis. A document is refused if
a descriptor has none, so that every method of a record has a signature, and has the same one in every later table.
Looking a signature up gives the methods of the record whose texts in the document have that signature: overloads are
apart, and methods that differ in what they return are together.

## Main definitions

* `Signs` — a text is the signature of a name and a descriptor
* `Method.Reads` — a method of a record has the texts of one of a document

## Main statements

* `signature?_eq_some_iff` — cutting a descriptor finds the signature
* `ClassShape.reads_of_intern` — the methods of a record are those of its document, one by one
* `ClassShape.signed_of_intern` — each of them has a signature
* `ClassShape.findMethodsBySignature_of_intern` — which methods are looked up
-/

namespace ClassDeps

open SymbolTable (limit)

variable {name descriptor signature parameters rest : String}

/-! ## Signatures of texts -/

/-- A text is a name followed by a descriptor up to its first closing parenthesis, which is a part of it. -/
def Signs (name descriptor signature : String) : Prop :=
  ∃ parameters rest : String, ')' ∉ parameters.toList ∧ descriptor = parameters ++ ")" ++ rest ∧
    signature = name ++ parameters ++ ")"

/-- What stands before the first closing parenthesis is what a cut there leaves. -/
theorem takeWhile_parameters (h : ')' ∉ parameters.toList) (rest : String) :
    (parameters ++ ")" ++ rest).toList.takeWhile (· ≠ ')') = parameters.toList := by
  have hall : ∀ x ∈ parameters.toList, decide (x ≠ ')') = true :=
    fun x hx => decide_eq_true fun heq => h (heq ▸ hx)
  have hsplit : (parameters ++ ")" ++ rest).toList = parameters.toList ++ ')' :: rest.toList := by
    simp
  rw [hsplit, List.takeWhile_append_of_pos hall, List.takeWhile_cons_of_neg (by simp), List.append_nil]

theorem exists_split_of_lt
    (h : (descriptor.toList.takeWhile (· ≠ ')')).length < descriptor.toList.length) :
    ∃ rest : String, descriptor = String.ofList (descriptor.toList.takeWhile (· ≠ ')')) ++ ")" ++ rest := by
  have hsplit := List.takeWhile_append_dropWhile (p := (· ≠ ')')) (l := descriptor.toList)
  cases hlast : descriptor.toList.dropWhile (· ≠ ')') with
  | nil =>
    rw [hlast, List.append_nil] at hsplit
    rw [hsplit] at h
    exact absurd h (Nat.lt_irrefl _)
  | cons x later =>
    have hx := List.head?_dropWhile_not (· ≠ ')') descriptor.toList
    rw [hlast] at hx
    have hparenthesis : x = ')' := by simpa using hx
    refine ⟨String.ofList later, String.toList_injective ?_⟩
    rw [hlast, hparenthesis] at hsplit
    simp only [String.toList_append, String.toList_ofList, List.append_assoc]
    exact hsplit.symm

/-- Cutting a descriptor after its first closing parenthesis finds the signature, and finds none if there is no
parenthesis. -/
theorem signature?_eq_some_iff : signature? name descriptor = some signature ↔ Signs name descriptor signature := by
  rw [signature?]
  constructor
  · intro h
    split at h
    · rename_i hlt
      obtain ⟨rest, hrest⟩ := exists_split_of_lt hlt
      refine ⟨_, rest, ?_, hrest, (Option.some.inj h).symm⟩
      rw [String.toList_ofList]
      intro hmem
      have htaken := List.all_eq_true.1 (List.all_takeWhile (p := (· ≠ ')')) (l := descriptor.toList)) _ hmem
      exact of_decide_eq_true htaken rfl
    · cases h
  · rintro ⟨parameters, rest, hnone, rfl, rfl⟩
    have hlt : parameters.toList.length < (parameters ++ ")" ++ rest).toList.length := by
      simp
    simp only [takeWhile_parameters hnone rest, if_pos hlt, String.ofList_toList]

instance (name descriptor signature : String) : Decidable (Signs name descriptor signature) :=
  decidable_of_iff (signature? name descriptor = some signature) signature?_eq_some_iff

theorem signs_of_split (name rest : String) (h : ')' ∉ parameters.toList) :
    Signs name (parameters ++ ")" ++ rest) (name ++ parameters ++ ")") :=
  ⟨parameters, rest, h, rfl, rfl⟩

/-! ## Signatures of records -/

/-- The numbers of a stored method stand for the texts of a parsed one. -/
def Method.Reads (m : Method String (Option String)) (symbols : SymbolTable) (r : MethodRecord) : Prop :=
  symbols.symbol? r.name = some m.name ∧ symbols.symbol? r.descriptor = some m.descriptor

theorem Method.Reads.signature?_eq {m : Method String (Option String)} {symbols : SymbolTable} {r : MethodRecord}
    (h : m.Reads symbols r) : r.signature? symbols = ClassDeps.signature? m.name m.descriptor := by
  rw [Method.signature?, h.1, h.2]
  rfl

/-- What a test selects is what another test selects of the partners. -/
theorem filter_eq_of_forall₂ {α β : Type} {p : α → Bool} {q : β → Bool} {xs : List α} {ys : List β}
    (h : List.Forall₂ (fun x y => q y = p x) xs ys) :
    ys.filter q = ((xs.zip ys).filter fun pair => p pair.1).map Prod.snd := by
  induction h with
  | nil => rfl
  | cons hsame _ ih =>
    rw [List.zip_cons_cons, List.filter_cons, List.filter_cons, hsame, ih]
    split <;> rfl

namespace ClassShape

variable {document : ClassDocument} {record : ClassRecord} {t u v : SymbolTable}

/-- The methods of a record are those of its document, one by one, in every later table. -/
theorem reads_of_intern (h : document.intern t = (.ok record, u)) (hgrow : u ≤ v) (hsize : v.size ≤ limit) :
    List.Forall₂ (fun m r => m.Reads v r) document.methods record.methods := by
  obtain ⟨hmem, hrecord⟩ := record_of_le h hgrow
  have hmethods : record.methods =
      document.methods.map fun m => m.normal.map v.number v.optionalNumber := by
    rw [hrecord]
    exact List.map_map
  rw [hmethods, List.forall₂_map_right_iff, List.forall₂_same]
  intro m hm
  have hnormal : m.normal ∈ document.normal.methods := List.mem_map_of_mem hm
  have hnames := mem_names_of_method hnormal
  have hread {text : String} (htext : text ∈ m.normal.names) : v.symbol? (v.number text) = some text :=
    SymbolTable.symbol?_number (hmem text (hnames text htext)) hsize
  exact ⟨hread List.mem_cons_self, hread (List.mem_cons_of_mem _ List.mem_cons_self)⟩

/-- A method of an accepted document has a closing parenthesis in its descriptor. -/
theorem exists_signs_of_intern (h : document.intern t = (.ok record, u)) {m : Method String (Option String)}
    (hm : m ∈ document.methods) : ∃ signature, Signs m.name m.descriptor signature := by
  obtain ⟨hwellFormed, -⟩ := document.describes_intern.eq_of_run t u record h
  obtain ⟨signature, hsome⟩ := Option.isSome_iff_exists.1 (hwellFormed.methods m hm)
  exact ⟨signature, signature?_eq_some_iff.1 hsome⟩

/-- Each method of a record has a signature, which is that of its texts in the document, in every later table. -/
theorem signed_of_intern (h : document.intern t = (.ok record, u)) (hgrow : u ≤ v) (hsize : v.size ≤ limit) :
    List.Forall₂ (fun m r => m.Reads v r ∧ ∃ signature, Signs m.name m.descriptor signature ∧
      r.signature? u = some signature ∧ r.signature? v = some signature) document.methods record.methods := by
  have hthen := reads_of_intern h (SymbolTable.le_refl u) (Nat.le_trans (SymbolTable.size_le_of_le hgrow) hsize)
  have hnow := reads_of_intern h hgrow hsize
  refine List.forall₂_iff_get.2 ⟨hnow.length_eq, fun i hi hi' => ?_⟩
  obtain ⟨signature, hsigns⟩ := exists_signs_of_intern h (List.get_mem _ ⟨i, hi⟩)
  have hsignature := signature?_eq_some_iff.2 hsigns
  exact ⟨hnow.get hi hi', signature, hsigns, (hthen.get hi hi').signature?_eq.trans hsignature,
    (hnow.get hi hi').signature?_eq.trans hsignature⟩

/-- Methods that have a signature in the document are those that are looked up in the record. -/
theorem findMethodsBySignature_of_intern (h : document.intern t = (.ok record, u)) (hgrow : u ≤ v)
    (hsize : v.size ≤ limit) (signature : String) :
    record.findMethodsBySignature signature v =
      ((document.methods.zip record.methods).filter fun pair =>
        Signs pair.1.name pair.1.descriptor signature).map Prod.snd := by
  refine filter_eq_of_forall₂ (p := fun m => decide (Signs m.name m.descriptor signature))
    ((reads_of_intern h hgrow hsize).imp fun m r hreads => ?_)
  rw [hreads.signature?_eq]
  exact decide_eq_decide.2 signature?_eq_some_iff

/-- A method is looked up by its name with what stands before the first closing parenthesis of its descriptor. -/
theorem mem_findMethodsBySignature_of_intern (h : document.intern t = (.ok record, u)) (hgrow : u ≤ v)
    (hsize : v.size ≤ limit) {pair : Method String (Option String) × MethodRecord}
    (hpair : pair ∈ document.methods.zip record.methods) (hnone : ')' ∉ parameters.toList)
    (hdescriptor : pair.1.descriptor = parameters ++ ")" ++ rest) :
    pair.2 ∈ record.findMethodsBySignature (pair.1.name ++ parameters ++ ")") v := by
  rw [findMethodsBySignature_of_intern h hgrow hsize]
  refine List.mem_map_of_mem (List.mem_filter.2 ⟨hpair, decide_eq_true ?_⟩)
  rw [hdescriptor]
  exact signs_of_split _ rest hnone

theorem findMethodBySignature?_eq (record : ClassRecord) (signature : String) (symbols : SymbolTable) :
    record.findMethodBySignature? signature symbols = (record.findMethodsBySignature signature symbols).head? :=
  List.head?_filter.symm

end ClassShape

end ClassDeps
