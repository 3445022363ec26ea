import ClassDeps.Proofs.Json.Layout
import ClassDeps.Proofs.Json.Members

/-!
# Other spellings of written documents

A reader does not insist on the document that was written. The members of an object may come in another order, a
member may be missing if its value is what the reader takes for a missing one, and there may be members that the
reader does not know. It insists on the members that have no default, and on one value for each name that it knows.

## Main definitions

* `IsPlain` — values that unknown members may have
* `Respells` — the spellings of a layout, whole ones and broken ones

## Main statements

* `Respells.perm`, `Respells.cons_plain`, `Respells.without_idle` — order, unknown members and defaults do not matter
* `Respells.without_needed`, `Respells.twice` — needed members and repeated ones do
* `respells_self` — what is written is a spelling of its layout
* `Respells.sound` — a whole spelling can be kept if what is written can
-/

namespace ClassDeps.Json

open Layout

/-! ## Spellings -/

/-- Values that unknown members may have: null, booleans, texts and integers of 32 bits, with or without sign. -/
inductive IsPlain : Json → Prop where
  | null : IsPlain .null
  | bool (b : Bool) : IsPlain (.bool b)
  | text (s : String) : IsPlain (.ofText s)
  | integer (n : Int) (hleast : -2147483648 ≤ n) (hgreatest : n < 4294967296) : IsPlain (.ofInt n)

mutual

/-- A document is a spelling of a layout. It is broken, and not whole, if a needed member of one of its objects is
missing, or a known one is there more than once; such a repeated member may have any values. -/
inductive Respells : Layout → (broken : Bool) → Json → Prop where
  | leaf (j : Json) : Respells (.leaf j) false j
  | list {items : List Layout} {broken : Bool} {js : List Json} (h : RespellsItems items broken js) :
    Respells (.list items) broken (.array js)
  | record {slots : List Slot} {broken : Bool} {members : List (String × Json)}
    (hslots : RespellsSlots slots broken members)
    (hothers : ∀ member ∈ members, member.1 ∉ slots.map Prod.fst → member.2.IsPlain) :
    Respells (.record slots) broken (.record members)

/-- Documents are spellings of the items of a list. -/
inductive RespellsItems : List Layout → (broken : Bool) → List Json → Prop where
  | nil : RespellsItems [] false []
  | cons {item : Layout} {items : List Layout} {b bs : Bool} {j : Json} {js : List Json}
    (hitem : Respells item b j) (hitems : RespellsItems items bs js) :
    RespellsItems (item :: items) (b || bs) (j :: js)

/-- Each known member of an object is spelled by what the object gives for its name. -/
inductive RespellsSlots : List Slot → (broken : Bool) → List (String × Json) → Prop where
  | nil {members : List (String × Json)} : RespellsSlots [] false members
  | cons {name : String} {presence : Presence} {layout : Layout} {slots : List Slot} {b bs : Bool}
    {members : List (String × Json)}
    (hslot : RespellsSlot presence layout b (valuesOf members name)) (hslots : RespellsSlots slots bs members) :
    RespellsSlots ((name, presence, layout) :: slots) (b || bs) members

/-- Values of one name are a spelling of the member of that name. -/
inductive RespellsSlot : Presence → Layout → (broken : Bool) → List Json → Prop where
  | given {presence : Presence} {layout : Layout} {b : Bool} {j : Json} (hwritten : presence ≠ .unwritten)
    (h : Respells layout b j) : RespellsSlot presence layout b [j]
  | idle {layout : Layout} : RespellsSlot .idle layout false []
  | unwritten {layout : Layout} : RespellsSlot .unwritten layout false []
  | missing {layout : Layout} : RespellsSlot .needed layout true []
  | repeated {presence : Presence} {layout : Layout} {j k : Json} {js : List Json} :
    RespellsSlot presence layout true (j :: k :: js)

end

/-! ## What makes a spelling -/

section

variable {slots : List Slot} {broken : Bool} {members : List (String × Json)} {name : String} {presence : Presence}
  {layout : Layout}

theorem RespellsSlots.congr {found : List (String × Json)} (h : RespellsSlots slots broken members)
    (heq : ∀ name ∈ slots.map Prod.fst, valuesOf found name = valuesOf members name) :
    RespellsSlots slots broken found := by
  induction slots generalizing broken with
  | nil =>
    cases h
    exact .nil
  | cons slot slots ih =>
    rw [List.map_cons, List.forall_mem_cons] at heq
    cases h with
    | cons hslot hslots => exact .cons (heq.1 ▸ hslot) (ih hslots heq.2)

/-- A name that is known and belongs to a whole spelling is there once at most. -/
theorem RespellsSlots.once (h : RespellsSlots slots broken members) (hwhole : broken = false) :
    ∀ name ∈ slots.map Prod.fst, (valuesOf members name).length ≤ 1 := by
  induction slots generalizing broken with
  | nil => exact List.forall_mem_nil _
  | cons slot slots ih =>
    cases h with
    | cons hslot hslots =>
      rw [Bool.or_eq_false_iff] at hwhole
      rw [List.map_cons, List.forall_mem_cons]
      refine ⟨?_, ih hslots hwhole.2⟩
      generalize valuesOf members _ = values at hslot
      cases hslot with
      | given | idle | unwritten => simp
      | missing | repeated => exact absurd hwhole.1 (by decide)

theorem RespellsSlot.perm {b : Bool} {js ks : List Json} (h : RespellsSlot presence layout b js)
    (hperm : ks.Perm js) : RespellsSlot presence layout b ks := by
  cases h with
  | given hwritten h =>
    rw [List.perm_singleton.1 hperm]
    exact .given hwritten h
  | idle => exact hperm.eq_nil ▸ .idle
  | unwritten => exact hperm.eq_nil ▸ .unwritten
  | missing => exact hperm.eq_nil ▸ .missing
  | repeated =>
    obtain _ | ⟨j, _ | ⟨k, ks⟩⟩ := ks
    · exact absurd hperm.length_eq (by simp)
    · exact absurd hperm.length_eq (by simp)
    · exact .repeated

/-- Values in a whole spelling of a member are spellings of what is written. -/
theorem RespellsSlot.of_mem {b : Bool} {js : List Json} {j : Json} (h : RespellsSlot presence layout b js)
    (hwhole : b = false) (hj : j ∈ js) :
    presence ≠ .unwritten ∧ Respells layout b j := by
  cases h with
  | given hwritten h => exact ⟨hwritten, List.mem_singleton.1 hj ▸ h⟩
  | idle | unwritten => exact absurd hj List.not_mem_nil
  | missing | repeated => exact absurd hwhole (by decide)

/-- The values of a needed member spell it, or there is not one of them. -/
theorem RespellsSlot.needed_cases {b : Bool} {js : List Json} (h : RespellsSlot .needed layout b js) :
    (∃ j, js = [j] ∧ Respells layout b j) ∨ b = true ∧ js.length ≠ 1 := by
  cases h with
  | given hwritten h => exact .inl ⟨_, rfl, h⟩
  | missing => exact .inr ⟨rfl, by simp⟩
  | repeated => exact .inr ⟨rfl, by simp⟩

theorem respells_record :
    Respells (.record slots) broken (.record members) ↔
      RespellsSlots slots broken members ∧
        ∀ member ∈ members, member.1 ∉ slots.map Prod.fst → member.2.IsPlain := by
  constructor
  · intro h
    generalize hj : Json.record members = j at h
    cases h with
    | record hslots hothers =>
      obtain rfl := record_inj.1 hj
      exact ⟨hslots, hothers⟩
  · exact fun h => .record h.1 h.2

/-- The order of the members does not matter. -/
theorem Respells.perm {others : List (String × Json)} (h : Respells (.record slots) broken (.record members))
    (hperm : others.Perm members) : Respells (.record slots) broken (.record others) := by
  obtain ⟨hslots, hothers⟩ := respells_record.1 h
  refine .record ?_ fun member hmem => hothers member (hperm.subset hmem)
  clear h hothers
  induction slots generalizing broken with
  | nil =>
    cases hslots
    exact .nil
  | cons slot slots ih =>
    cases hslots with
    | cons hslot hslots => exact .cons (hslot.perm ((hperm.filter _).map _)) (ih hslots)

/-- A plain member that the reader does not know does not matter. -/
theorem Respells.cons_plain (h : Respells (.record slots) broken (.record members)) {j : Json}
    (hname : name ∉ slots.map Prod.fst) (hplain : j.IsPlain) :
    Respells (.record slots) broken (.record ((name, j) :: members)) := by
  obtain ⟨hslots, hothers⟩ := respells_record.1 h
  refine .record (hslots.congr fun known hknown => ?_) ?_
  · rw [valuesOf_cons, if_neg fun heq : name = known => hname (heq ▸ hknown)]
  · rw [List.forall_mem_cons]
    exact ⟨fun _ => hplain, hothers⟩

/-- Other values of one name make the spelling as broken as they are. -/
theorem RespellsSlots.replace {b : Bool} {others : List (String × Json)}
    (h : RespellsSlots slots broken members) (hnodup : (slots.map Prod.fst).Nodup)
    (hmem : (name, presence, layout) ∈ slots) (hslot : RespellsSlot presence layout b (valuesOf others name))
    (hothers : ∀ other, other ≠ name → valuesOf others other = valuesOf members other) :
    ∃ changed, RespellsSlots slots changed others ∧ (b = true → changed = true) ∧
      (b = false → broken = false → changed = false) := by
  induction slots generalizing broken with
  | nil => exact absurd hmem List.not_mem_nil
  | cons slot slots ih =>
    rw [List.map_cons, List.nodup_cons] at hnodup
    cases h with
    | @cons first _ _ _ c cs _ hfirst hslots =>
      obtain heq | hmem := List.mem_cons.1 hmem
      · obtain ⟨rfl, rfl, rfl⟩ := heq
        have hrest : ∀ other ∈ slots.map Prod.fst, valuesOf others other = valuesOf members other :=
          fun other hother => hothers other fun heq => hnodup.1 (heq ▸ hother)
        refine ⟨b || cs, .cons hslot (hslots.congr hrest), fun hb => ?_, fun hb hbroken => ?_⟩
        · rw [hb, Bool.true_or]
        · rw [hb, Bool.false_or]
          exact (Bool.or_eq_false_iff.1 hbroken).2
      · have hne : first ≠ name := fun heq => hnodup.1 (List.mem_map.2 ⟨_, hmem, heq.symm⟩)
        obtain ⟨changed, hchanged, htrue, hfalse⟩ := ih hslots hnodup.2 hmem
        refine ⟨c || changed, .cons ((hothers first hne).symm ▸ hfirst) hchanged, fun hb => ?_,
          fun hb hbroken => ?_⟩
        · rw [htrue hb, Bool.or_true]
        · rw [Bool.or_eq_false_iff] at hbroken ⊢
          exact ⟨hbroken.1, hfalse hb hbroken.2⟩

/-- A spelling is broken by a known member that is there already. -/
theorem Respells.twice (h : Respells (.record slots) broken (.record members))
    (hnodup : (slots.map Prod.fst).Nodup) {j k : Json} (hname : name ∈ slots.map Prod.fst)
    (hmem : (name, j) ∈ members) : Respells (.record slots) true (.record ((name, k) :: members)) := by
  obtain ⟨hslots, hothers⟩ := respells_record.1 h
  obtain ⟨⟨known, presence, layout⟩, hslot, hknown⟩ := List.mem_map.1 hname
  subst hknown
  obtain ⟨l, ls, hvalues⟩ := List.exists_cons_of_ne_nil (List.ne_nil_of_mem (mem_valuesOf.2 hmem))
  have hrepeated : valuesOf ((known, k) :: members) known = k :: l :: ls := by
    rw [valuesOf_cons, if_pos rfl, hvalues]
  have hrest : ∀ other, other ≠ known → valuesOf ((known, k) :: members) other = valuesOf members other := by
    intro other hne
    rw [valuesOf_cons, if_neg hne.symm]
  obtain ⟨changed, hchanged, htrue, -⟩ := hslots.replace hnodup hslot (b := true)
    (by rw [hrepeated]; exact .repeated) hrest
  obtain rfl := htrue rfl
  exact .record hchanged (List.forall_mem_cons.2 ⟨fun hnot => absurd hname hnot, hothers⟩)

/-- A spelling is broken without a needed member. -/
theorem Respells.without_needed (h : Respells (.record slots) broken (.record members))
    (hnodup : (slots.map Prod.fst).Nodup) (hslot : (name, .needed, layout) ∈ slots) :
    Respells (.record slots) true (.record (members.filter fun member => member.1 ≠ name)) := by
  obtain ⟨hslots, hothers⟩ := respells_record.1 h
  obtain ⟨changed, hchanged, htrue, -⟩ := hslots.replace hnodup hslot (b := true)
    (by rw [valuesOf_without_self]; exact .missing)
    fun other hne => valuesOf_filter fun j => decide_eq_true hne
  obtain rfl := htrue rfl
  exact .record hchanged fun member hmem => hothers member (List.mem_filter.1 hmem).1

/-- A whole spelling is whole without a member whose value is its default. -/
theorem Respells.without_idle (h : Respells (.record slots) false (.record members))
    (hnodup : (slots.map Prod.fst).Nodup) (hslot : (name, .idle, layout) ∈ slots) :
    Respells (.record slots) false (.record (members.filter fun member => member.1 ≠ name)) := by
  obtain ⟨hslots, hothers⟩ := respells_record.1 h
  obtain ⟨changed, hchanged, -, hfalse⟩ := hslots.replace hnodup hslot (b := false)
    (by rw [valuesOf_without_self]; exact .idle)
    fun other hne => valuesOf_filter fun j => decide_eq_true hne
  obtain rfl := hfalse rfl rfl
  exact .record hchanged fun member hmem => hothers member (List.mem_filter.1 hmem).1

end

/-! ## What is written -/

theorem valuesOf_slotsToJson_of_notMem {slots : List Slot} {name : String}
    (h : name ∉ slots.map Prod.fst) : valuesOf (slotsToJson slots) name = [] := by
  induction slots with
  | nil => rfl
  | cons slot slots ih =>
    obtain ⟨other, presence, layout⟩ := slot
    rw [List.map_cons, List.mem_cons, not_or] at h
    rw [slotsToJson]
    split
    · exact ih h.2
    · rw [valuesOf_cons, if_neg fun heq => h.1 heq.symm]
      exact ih h.2

theorem respellsSlots_slotsToJson {slots : List Slot}
    (hnodup : (slots.map Prod.fst).Nodup) (hself : ∀ slot ∈ slots, Respells slot.2.2 false slot.2.2.toJson) :
    RespellsSlots slots false (slotsToJson slots) := by
  induction slots with
  | nil => exact .nil
  | cons slot slots ih =>
    obtain ⟨name, presence, layout⟩ := slot
    rw [List.map_cons, List.nodup_cons] at hnodup
    rw [List.forall_mem_cons] at hself
    have hrest := ih hnodup.2 hself.2
    have hnone := valuesOf_slotsToJson_of_notMem hnodup.1
    rw [slotsToJson]
    split
    · rename_i hunwritten
      subst hunwritten
      exact .cons (b := false) (hnone ▸ .unwritten) hrest
    · rename_i hwritten
      refine .cons (b := false) ?_ (hrest.congr fun known hknown => ?_)
      · rw [valuesOf_cons, if_pos rfl, hnone]
        exact .given hwritten hself.1
      · rw [valuesOf_cons, if_neg fun heq : name = known => hnodup.1 (heq ▸ hknown)]

mutual

/-- By induction on the layout: what is written is a spelling of it. -/
theorem respells_self : (layout : Layout) → layout.isDistinct → Respells layout false layout.toJson
  | .leaf j, _ => .leaf j
  | .list items, h => .list (respellsItems_self items h)
  | .record slots, h => by
    rw [isDistinct, Bool.and_eq_true, decide_eq_true_eq] at h
    refine .record (respellsSlots_slotsToJson h.1 (respells_slots slots h.2)) fun member hmem hnot => ?_
    have hvalues := valuesOf_slotsToJson_of_notMem hnot
    exact absurd (mem_valuesOf.2 hmem) (hvalues ▸ List.not_mem_nil)

theorem respellsItems_self : (items : List Layout) → areDistinct items →
    RespellsItems items false (itemsToJson items)
  | [], _ => .nil
  | item :: rest, h => by
    rw [areDistinct, Bool.and_eq_true] at h
    exact .cons (b := false) (respells_self item h.1) (respellsItems_self rest h.2)

theorem respells_slots : (slots : List Slot) → slotsDistinct slots →
    ∀ slot ∈ slots, Respells slot.2.2 false slot.2.2.toJson
  | [], _ => List.forall_mem_nil _
  | (_, _, layout) :: rest, h => by
    rw [slotsDistinct, Bool.and_eq_true] at h
    exact List.forall_mem_cons.2 ⟨respells_self layout h.1, respells_slots rest h.2⟩

end

/-! ## Whole spellings can be kept -/

theorem IsPlain.sound {j : Json} (h : j.IsPlain) (limit : Nat) : j.sound limit := by
  rw [sound_iff]
  cases h with
  | null | bool b => exact ⟨rfl, Nat.zero_le limit⟩
  | text s => exact ⟨isIntact_ofText s, Nat.zero_le limit⟩
  | integer n hleast hgreatest => exact ⟨isIntact_ofInt (by omega), Nat.zero_le limit⟩

mutual

/-- By induction on the layout: what is known spells what is written, and what is not known is plain. -/
theorem Respells.sound : {layout : Layout} → {broken : Bool} → {j : Json} → {limit : Nat} →
    Respells layout broken j → broken = false → layout.toJson.sound limit → j.sound limit
  | .leaf _, _, _, _, .leaf _, _, hwritten => hwritten
  | .list _, _, _, 0, .list _, _, hwritten => absurd hwritten (not_sound_array_zero _)
  | .list items, _, _, limit + 1, .list h, hbroken, hwritten => by
    rw [toJson, sound_array_succ] at hwritten
    exact sound_array_succ.2 (RespellsItems.sound h hbroken hwritten)
  | .record _, _, _, 0, .record _ _, _, hwritten => absurd hwritten (not_sound_record_zero _)
  | .record slots, _, _, limit + 1, .record hslots hothers, hbroken, hwritten => by
    rw [toJson, sound_record_succ] at hwritten
    refine sound_record_succ.2 fun member hmem => ?_
    by_cases hknown : member.1 ∈ slots.map Prod.fst
    · exact RespellsSlots.sound hslots hbroken hwritten member.1 hknown member.2 (mem_valuesOf.2 hmem)
    · exact (hothers member hmem hknown).sound limit

theorem RespellsItems.sound : {items : List Layout} → {broken : Bool} → {js : List Json} → {limit : Nat} →
    RespellsItems items broken js → broken = false → (∀ item ∈ itemsToJson items, item.sound limit) →
    ∀ j ∈ js, j.sound limit
  | [], _, _, _, .nil, _, _ => List.forall_mem_nil _
  | item :: rest, _, _, _, .cons hitem hitems, hbroken, hwritten => by
    rw [Bool.or_eq_false_iff] at hbroken
    rw [itemsToJson, List.forall_mem_cons] at hwritten
    rw [List.forall_mem_cons]
    exact ⟨Respells.sound hitem hbroken.1 hwritten.1, RespellsItems.sound hitems hbroken.2 hwritten.2⟩

theorem RespellsSlots.sound : {slots : List Slot} → {broken : Bool} →
    {members : List (String × Json)} → {limit : Nat} → RespellsSlots slots broken members → broken = false →
    (∀ member ∈ slotsToJson slots, member.2.sound limit) →
    ∀ name ∈ slots.map Prod.fst, ∀ j ∈ valuesOf members name, j.sound limit
  | [], _, _, _, .nil, _, _ => List.forall_mem_nil _
  | (name, presence, layout) :: rest, _, members, limit, .cons hslot hslots, hbroken, hwritten => by
    rw [Bool.or_eq_false_iff] at hbroken
    rw [forall_mem_slotsToJson_cons (p := fun j => j.sound limit)] at hwritten
    rw [List.map_cons, List.forall_mem_cons]
    refine ⟨?_, RespellsSlots.sound hslots hbroken.2 hwritten.2⟩
    intro j hj
    obtain ⟨hpresence, h⟩ := RespellsSlot.of_mem hslot hbroken.1 hj
    exact Respells.sound h hbroken.1 (hwritten.1 hpresence)

end

end ClassDeps.Json
