import ClassDeps.Proofs.Json.Respelled

/-!
# Readers of other spellings

A reader goes through the members of an object in the order in which they are written, whatever their order is in
the document that it reads. What it makes of each of them is shown on its own; an object is then read as its members
are. Objects that name their alternative hand on what the alternative is made of, with the same members.

## Main definitions

* `Reads` — a reader takes the whole spellings of a layout for a value and the broken ones for none
* `Finds` — what a reader has of an object while it goes through the members

## Main statements

* `Reads.leaf`, `Reads.list`, `Reads.record` — readers of leaves, lists and objects
* `Gives.needed`, `Gives.unlessDefault`, `Gives.optional`, `Gives.finish` — one member after the other
* `Reads.adjacent`, `Reads.tagged` — the two ways in which objects name their alternative
-/

namespace ClassDeps.Json

open Layout

variable {α β : Type}

/-- A reader takes the whole spellings of a layout for a value and the broken ones for none, if the limit suffices
for what is written. -/
def Reads (read? : Json → Option α) (limit : Nat) (layout : Layout) (x : α) : Prop :=
  layout.toJson.sound limit → ∀ (broken : Bool) (j : Json), Respells layout broken j →
    Gives (read? j) (broken = false) x

/-- What a reader has of the members of an object: their names differ, and they spell the slots that are still to be
read, for which the limit suffices. -/
structure Finds (limit : Nat) (found : List (String × Json)) (slots : List Slot)
    (broken : Bool) : Prop where
  nodup : (found.map Prod.fst).Nodup
  spelled : RespellsSlots slots broken found
  sound : ∀ member ∈ slotsToJson slots, member.2.sound limit

/-! ## Leaves and lists -/

theorem Reads.map {read? : Json → Option α} {limit : Nat} {layout : Layout} {x : α}
    (h : Reads read? limit layout x) (f : α → β) : Reads (fun j => (read? j).map f) limit layout (f x) :=
  fun hsound broken j hspelled => (h hsound broken j hspelled).map f

theorem Reads.leaf {form : Form α} (h : form.Exact) (source : Source) (limit : Nat) (x : α) :
    Reads (form.read? source limit) limit (.leaf (form.write x)) x := by
  intro hsound broken j hspelled
  cases hspelled with
  | leaf =>
    have hdepth : (form.write x).depth ≤ limit := ((sound_iff _ _).1 hsound).2
    exact (h.gives source limit x).congr (iff_of_true rfl hdepth)

theorem Reads.items {read? : Json → Option α} {limit : Nat} {layout : α → Layout} {xs : List α}
    (h : ∀ x ∈ xs, Reads read? limit (layout x) x)
    (hsound : ∀ item ∈ itemsToJson (xs.map layout), item.sound limit) {broken : Bool} {js : List Json}
    (hspelled : RespellsItems (xs.map layout) broken js) : Gives (js.mapM read?) (broken = false) xs := by
  induction xs generalizing broken js with
  | nil =>
    cases hspelled
    exact (Gives.pure []).congr (iff_of_true rfl trivial)
  | cons x xs ih =>
    rw [List.forall_mem_cons] at h
    rw [List.map_cons, itemsToJson, List.forall_mem_cons] at hsound
    cases hspelled with
    | cons hitem hitems =>
      have hx := h.1 hsound.1 _ _ hitem
      have hxs := ih h.2 hsound.2 hitems
      rw [List.mapM_cons]
      exact (hx.bind (hxs.bind (.pure (x :: xs)))).congr (by rw [Bool.or_eq_false_iff, and_true])

theorem Reads.array {read? : Json → Option α} {limit : Nat} {layout : α → Layout} {xs : List α}
    {readAll? : Json → Option (List α)} (hread : ∀ js, readAll? (.array js) = js.mapM read?)
    (h : ∀ x ∈ xs, Reads read? limit (layout x) x) :
    Reads readAll? (limit + 1) (.list (xs.map layout)) xs := by
  intro hsound broken j hspelled
  rw [toJson, sound_array_succ] at hsound
  cases hspelled with
  | list hitems =>
    rw [hread]
    exact Reads.items h hsound hitems

theorem Reads.zero_list (read? : Json → Option α) (items : List Layout) (x : α) :
    Reads read? 0 (.list items) x :=
  fun hsound => absurd hsound (not_sound_array_zero _)

theorem Reads.list {item : Form α} {source : Source} {layout : α → Layout} {xs : List α}
    (h : ∀ limit, ∀ x ∈ xs, Reads (item.read? source limit) limit (layout x) x) (limit : Nat) :
    Reads ((Form.list item).read? source limit) limit (.list (xs.map layout)) xs := by
  cases limit with
  | zero => exact Reads.zero_list _ _ xs
  | succ limit => exact Reads.array (fun _ => rfl) (h limit)

theorem Reads.nullable (value : Form α) {source : Source} {limit : Nat} {slots : List Slot} {x : α}
    (h : Reads (value.read? source limit) limit (.record slots) x) :
    Reads ((Form.nullable value).read? source limit) limit (.record slots) (some x) := by
  intro hsound broken j hspelled
  have hx := h hsound broken j hspelled
  cases hspelled with
  | record => exact hx.map some

/-! ## Objects -/

/-- For an object it does not matter what is made of other documents. -/
theorem Reads.of_record {read? other? : Json → Option α} {limit : Nat} {slots : List Slot} {x : α}
    (h : Reads other? limit (.record slots) x)
    (heq : ∀ members, read? (.record members) = other? (.record members)) :
    Reads read? limit (.record slots) x := by
  intro hsound broken j hspelled
  have hx := h hsound broken j hspelled
  cases hspelled with
  | record => exact heq _ ▸ hx

theorem Reads.zero_record (read? : Json → Option α) (slots : List Slot) (x : α) :
    Reads read? 0 (.record slots) x :=
  fun hsound => absurd hsound (not_sound_record_zero _)

/-- An object is read as its members are. -/
theorem Reads.record {names : List String} {slots : List Slot} {limit : Nat}
    {rest : List (String × Json) → Option α} {x : α} (hnames : slots.map Prod.fst = names)
    (hrest : ∀ found broken, Finds limit found slots broken → Gives (rest found) (broken = false) x) :
    Reads (fun j => members? names j >>= rest) (limit + 1) (.record slots) x := by
  intro hsound broken j hspelled
  rw [toJson, sound_record_succ] at hsound
  cases hspelled with
  | @record _ _ members hslots hothers =>
    let known := members.filter fun member => names.contains member.1
    have hvalues : ∀ name ∈ slots.map Prod.fst, valuesOf known name = valuesOf members name :=
      fun name hname => valuesOf_filter fun j => List.contains_iff_mem.2 (hnames ▸ hname)
    change Gives (members? names (.record members) >>= rest) _ x
    rw [members?_record_eq]
    change Gives ((if (known.map Prod.fst).Nodup then some known else none) >>= rest) _ x
    by_cases hnodup : (known.map Prod.fst).Nodup
    · rw [if_pos hnodup]
      exact hrest known broken ⟨hnodup, hslots.congr hvalues, hsound⟩
    -- A name that is there twice is known, so that the spelling is broken.
    · refine .of_none (by rw [if_neg hnodup]; rfl) fun hbroken => hnodup ?_
      refine nodup_iff_valuesOf.2 fun name => ?_
      by_cases hname : name ∈ slots.map Prod.fst
      · rw [hvalues name hname]
        exact hslots.once hbroken name hname
      · have hnone : valuesOf known name = [] := by
          refine List.eq_nil_iff_forall_not_mem.2 fun j hj => hname ?_
          rw [hnames, ← List.contains_iff_mem]
          exact (List.mem_filter.1 (mem_valuesOf.1 hj)).2
        rw [hnone]
        exact Nat.zero_le 1

/-- The members of an object may be looked for several times. -/
theorem Reads.again {names : List String} {slots : List Slot} {limit : Nat}
    {e : Option (List (String × Json)) → Option α} {x : α} (hnames : slots.map Prod.fst = names)
    (hnone : e none = none)
    (hsome : ∀ found broken, Finds limit found slots broken → Gives (e (some found)) (broken = false) x) :
    Reads (fun j => e (members? names j)) (limit + 1) (.record slots) x := by
  refine Reads.of_record (.record hnames hsome) fun members => ?_
  cases members? names (.record members) with
  | none => exact hnone
  | some found => rfl

theorem defaulted?_eq_elim (members : List (String × Json)) (name : String) (default : α)
    (read? : Json → Option α) :
    defaulted? members name default read? = (members.lookup name).elim (some default) read? := by
  rw [defaulted?]
  cases members.lookup name <;> rfl

namespace Gives

variable {limit : Nat} {found : List (String × Json)} {name : String} {presence : Presence} {layout : Layout}
  {slots : List Slot} {broken : Bool} {x : α} {y : β} {rest : β → Option α}

/-- A step that reads one member, before those that read the others. -/
theorem slot {r : Option Json → Option β} (h : Finds limit found ((name, presence, layout) :: slots) broken)
    (hgiven : presence ≠ .unwritten → Reads (fun j => r (some j)) limit layout y)
    (hnone : ∀ b, RespellsSlot presence layout b [] → Gives (r none) (b = false) y)
    (hrest : ∀ broken, Finds limit found slots broken → Gives (rest y) (broken = false) x) :
    Gives (r (found.lookup name) >>= rest) (broken = false) x := by
  have hsound := (forall_mem_slotsToJson_cons (p := fun j => j.sound limit)).1 h.sound
  cases h.spelled with
  | @cons _ _ _ _ b bs _ hslot hslots =>
    have hfirst : Gives (r (found.lookup name)) (b = false) y := by
      rw [lookup_eq_head?]
      have honce := nodup_iff_valuesOf.1 h.nodup name
      generalize valuesOf found name = values at hslot honce
      cases hslot with
      | given hwritten hj => exact hgiven hwritten (hsound.1 hwritten) b _ hj
      | idle => exact hnone false .idle
      | unwritten => exact hnone false .unwritten
      | missing => exact hnone true .missing
      | repeated => exact absurd honce (by simp)
    exact (hfirst.bind (hrest bs ⟨h.nodup, hslots, hsound.2⟩)).congr Bool.or_eq_false_iff

/-- A member without a default. -/
theorem needed {read? : Json → Option β} (h : Finds limit found ((name, .needed, layout) :: slots) broken)
    (hread : Reads read? limit layout y)
    (hrest : ∀ broken, Finds limit found slots broken → Gives (rest y) (broken = false) x) :
    Gives (required? found name read? >>= rest) (broken = false) x := by
  refine slot (r := fun value => value.bind read?) h (fun _ => hread) (fun b hslot => ?_) hrest
  cases hslot
  exact of_none rfl (by decide)

/-- A member with a default. -/
theorem unlessDefault {read? : Json → Option β} {default : β} [Decidable (y = default)]
    (h : Finds limit found ((name, .ofDefault (y = default), layout) :: slots) broken)
    (hread : Reads read? limit layout y)
    (hrest : ∀ broken, Finds limit found slots broken → Gives (rest y) (broken = false) x) :
    Gives (defaulted? found name default read? >>= rest) (broken = false) x := by
  rw [defaulted?_eq_elim]
  refine slot (r := fun value => value.elim (some default) read?) h (fun _ => hread) (fun b hslot => ?_) hrest
  by_cases hy : y = default
  · rw [Presence.ofDefault, if_pos hy] at hslot
    cases hslot
    exact (of_eq (congrArg some hy.symm)).congr (iff_of_true rfl trivial)
  · rw [Presence.ofDefault, if_neg hy] at hslot
    cases hslot

/-- A member that is left out for an absent value. -/
theorem optional {read? : Json → Option (Option β)} {layout : β → Layout} {value : Option β}
    {rest : Option β → Option α} (h : Finds limit found (optionalSlot name layout value :: slots) broken)
    (hread : ∀ y, value = some y → Reads read? limit (layout y) (some y))
    (hrest : ∀ broken, Finds limit found slots broken → Gives (rest value) (broken = false) x) :
    Gives (defaulted? found name none read? >>= rest) (broken = false) x := by
  rw [defaulted?_eq_elim]
  refine slot (r := fun value => value.elim (some none) read?) h (fun hwritten => ?_) (fun b hslot => ?_) hrest
  · cases value with
    | none => exact absurd rfl hwritten
    | some y => exact hread y rfl
  · cases value with
    | none =>
      cases hslot
      exact (pure none).congr (iff_of_true rfl trivial)
    | some y => cases hslot

theorem finish (h : Finds limit found [] broken) (x : α) : Gives (Pure.pure x) (broken = false) x := by
  cases h.spelled
  exact (pure x).congr (iff_of_true rfl trivial)

end Gives

/-! ## Alternatives -/

/-- A spelling of an alternative has one type and one value, which spells the content, or is broken. -/
theorem of_respells_alternativeLayout {type : String} {content : Layout} {broken : Bool} {j : Json}
    (h : Respells (alternativeLayout type content) broken j) :
    ∃ members, j = .record members ∧
      ((∃ value, valuesOf members "type" = [.ofText type] ∧ valuesOf members "value" = [value] ∧
          Respells content broken value) ∨
        broken = true ∧
          ((valuesOf members "type").length ≠ 1 ∨ (valuesOf members "value").length ≠ 1)) := by
  cases h with
  | @record _ _ members hslots hothers =>
    refine ⟨members, rfl, ?_⟩
    cases hslots with
    | cons htype hslots =>
      cases hslots with
      | @cons _ _ _ _ c _ _ hvalue hslots =>
        cases hslots
        obtain ⟨t, htypes, ht⟩ | ⟨rfl, htypes⟩ := htype.needed_cases
        · obtain ⟨value, hvalues, hcontent⟩ | ⟨rfl, hvalues⟩ := hvalue.needed_cases
          · cases ht
            rw [Bool.false_or, Bool.or_false]
            exact .inl ⟨value, htypes, hvalues, hcontent⟩
          · exact .inr ⟨by simp, .inr hvalues⟩
        · exact .inr ⟨by simp, .inl htypes⟩

/-- An alternative with content is read as its content is. -/
theorem Reads.adjacent {names : List String} {source : Source} {limit : Nat} {type : String} {content : Layout}
    {rest : String × Source × Json → Option α} {x : α}
    (hrest : ∀ source, Reads (fun value => rest (type, source, value)) limit content x) :
    Reads (fun j => adjacent? names source (limit + 1) j >>= rest) (limit + 1) (alternativeLayout type content) x := by
  intro hsound broken j hspelled
  have hcontent : content.toJson.sound limit := by
    rw [alternativeLayout, toJson, sound_record_succ] at hsound
    exact hsound ("value", content.toJson) (by simp [slotsToJson])
  obtain ⟨members, rfl, ⟨value, htype, hvalue, hvalueSpelled⟩ | ⟨rfl, hlength⟩⟩ :=
    of_respells_alternativeLayout hspelled
  · have hread (source : Source) := hrest source hcontent broken value hvalueSpelled
    obtain hfound | hfound := adjacent?_record names source limit htype hvalue
    · simp only [hfound]
      exact hread source
    -- A value that cannot be kept belongs to a broken spelling.
    · simp only [hfound]
      by_cases hkept : value.sound limit
      · rw [if_pos hkept]
        exact hread .kept
      · rw [if_neg hkept]
        exact .of_none rfl fun hbroken => hkept (hvalueSpelled.sound hbroken hcontent)
  · refine .of_none ?_ (by decide)
    simp only [adjacent?_eq_none hlength]
    rfl

/-- A spelling of an object with a kind has one kind, and spells the other members without it, or is broken. -/
theorem of_respells_tagged {kind : String} {slots : List Slot} {broken : Bool} {j : Json}
    (hkind : "kind" ∉ slots.map Prod.fst)
    (h : Respells (.record (("kind", .needed, .leaf (.ofText kind)) :: slots)) broken j) :
    ∃ members, j = .record members ∧
      (valuesOf members "kind" = [.ofText kind] ∧
          Respells (.record slots) broken (.record (members.filter fun member => member.1 ≠ "kind")) ∨
        broken = true ∧ (valuesOf members "kind").length ≠ 1) := by
  cases h with
  | @record _ _ members hslots hothers =>
    refine ⟨members, rfl, ?_⟩
    cases hslots with
    | cons hslot hslots =>
      obtain ⟨t, hkinds, ht⟩ | ⟨rfl, hlength⟩ := hslot.needed_cases
      · cases ht
        rw [Bool.false_or]
        refine .inl ⟨hkinds, .record (hslots.congr fun name hname => ?_) fun member hmem hnot => ?_⟩
        · have hne : name ≠ "kind" := fun heq => hkind (heq ▸ hname)
          exact valuesOf_filter fun j => decide_eq_true hne
        · rw [List.mem_filter, decide_eq_true_eq] at hmem
          exact hothers member hmem.1 (List.not_mem_cons_of_ne_of_not_mem hmem.2 hnot)
      · exact .inr ⟨rfl, hlength⟩

/-- An object that names its kind is read as the object without the name. -/
theorem Reads.tagged {names : List String} {source : Source} {limit : Nat} {kind : String}
    {slots : List Slot} {rest : String × Json → Option α} {x : α}
    (hkind : "kind" ∉ slots.map Prod.fst)
    (hrest : Reads (fun content => rest (kind, content)) (limit + 1) (.record slots) x) :
    Reads (fun j => tagged? names source (limit + 1) j >>= rest) (limit + 1)
      (.record (("kind", .needed, .leaf (.ofText kind)) :: slots)) x := by
  intro hsound broken j hspelled
  have hcontent : (Layout.record slots).toJson.sound (limit + 1) := by
    rw [toJson, sound_record_succ] at hsound ⊢
    exact ((forall_mem_slotsToJson_cons (p := fun j => j.sound limit)).1 hsound).2
  obtain ⟨members, rfl, ⟨hkinds, hothers⟩ | ⟨rfl, hlength⟩⟩ := of_respells_tagged hkind hspelled
  · simp only [tagged?_record hkinds]
    by_cases hkept : (Json.record members).sound (limit + 1)
    · rw [if_pos hkept]
      exact hrest hcontent broken _ hothers
    -- An object that cannot be kept is a broken spelling.
    · rw [if_neg hkept]
      exact .of_none rfl fun hbroken => hkept (hspelled.sound hbroken hsound)
  · refine .of_none ?_ (by decide)
    simp only [tagged?_eq_none hlength]
    rfl

end ClassDeps.Json
