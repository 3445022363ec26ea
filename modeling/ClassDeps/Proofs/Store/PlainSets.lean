import ClassDeps.Proofs.Cache.Committed
import ClassDeps.Proofs.Key.Decoding
import ClassDeps.Proofs.Store.MultiValue
import Mathlib.Data.Set.List

/-!
# Multi-value stores as plain sets

A store of sets of numbers whose keys are told apart by their encodings answers as plain sets do: a number is in the
set under a key if the last operation that affects the pair was an addition. A handle can be closed at any time, and
the file can be opened again.

## Main definitions

* `MultiValueStore.Operation`, `Answer` — what can be asked of a store
* `MultiValueStore.Operation.Affects` — the pairs whose fate an operation decides
* `MultiValueStore.Present` — pairs that are there after some operations
* `MultiValueStore.Represents` — a store that stands for sets
* `MultiValueStore.Serves` — what a handle of a file, and those opened after it, answer

## Main statements

* `present_cons`, `present_append` — operations one after the other
* `Represents.run` — one operation
* `Serves.answered` — all operations of a handle and of those opened after it
* `Ready.exists_serves` — a store that was opened can be used, closed and opened again without end
-/

namespace ClassDeps.MultiValueStore

variable {κ : Type} [StoreKey κ]

/-! ## Operations -/

/-- What can be asked of a store. -/
inductive Operation (κ : Type) where
  | add (k : κ) (value : Int32)
  | removeValue (k : κ) (value : Int32)
  | remove (k : κ)
  | purge (value : Int32)
  | values (k : κ)

/-- What a store answers. -/
inductive Answer where
  | done
  | removed (count : Nat)
  | listed (values : List Int32)
  deriving DecidableEq

namespace Operation

/-- What a store does. -/
def run : Operation κ → MultiValueStore κ → Answer × MultiValueStore κ
  | add k value, s => (.done, s.add k value)
  | removeValue k value, s => (.done, s.removeValue k value)
  | remove k, s => (.removed (s.remove k).1, (s.remove k).2)
  | purge value, s => (.removed (s.purge value).1, (s.purge value).2)
  | values k, s => (.listed (s.values k), s)

/-- Whether an operation decides if a number is in the set under a key. -/
def Affects : Operation κ → κ → Int32 → Prop
  | add k value, k', value' | removeValue k value, k', value' => k' = k ∧ value' = value
  | remove k, k', _ => k' = k
  | purge value, _, value' => value' = value
  | values _, _, _ => False

/-- Whether the pairs that an operation affects are there afterwards. -/
def adds : Operation κ → Bool
  | add _ _ => true
  | _ => false

/-- What sets become: an operation leaves all pairs alone that it does not affect. -/
def effect (op : Operation κ) (m : κ → Int32 → Prop) (k : κ) (value : Int32) : Prop :=
  op.Affects k value ∧ op.adds ∨ ¬op.Affects k value ∧ m k value

/-- What sets answer. What was removed is counted pair by pair. -/
def Answers (m : κ → Int32 → Prop) (op : Operation κ) (answer : Answer) : Prop :=
  match op with
  | add _ _ | removeValue _ _ => answer = .done
  | remove _ | purge _ => ∃ pairs : List (κ × Int32), pairs.Nodup ∧ answer = .removed pairs.length ∧
    ∀ k value, (k, value) ∈ pairs ↔ op.Affects k value ∧ m k value
  | values k => ∃ values, answer = .listed values ∧ values.Pairwise (· < ·) ∧ ∀ value, value ∈ values ↔ m k value

/-- The key that an operation is about, if it is about one. -/
def key? : Operation κ → Option κ
  | add k _ | removeValue k _ | remove k | values k => some k
  | purge _ => none

end Operation

/-- Whether a number is in the set under a key after some operations: the last one that affects the pair was an
addition, or none affects it and it was there before. -/
def Present (m : κ → Int32 → Prop) (ops : List (Operation κ)) (k : κ) (value : Int32) : Prop :=
  (∃ before op after, ops = before ++ op :: after ∧ op.Affects k value ∧ (∀ other ∈ after, ¬other.Affects k value) ∧
    op.adds) ∨
  (∀ op ∈ ops, ¬op.Affects k value) ∧ m k value

section Present

omit [StoreKey κ]

variable {m : κ → Int32 → Prop} {ops : List (Operation κ)} {k k' : κ} {value value' : Int32}

theorem present_nil : Present m [] = m := by
  funext k value
  refine propext ⟨?_, fun h => .inr ⟨nofun, h⟩⟩
  rintro (⟨before, op, after, heq, -⟩ | ⟨-, h⟩)
  · exact absurd heq.symm (List.append_ne_nil_of_right_ne_nil _ (List.cons_ne_nil op after))
  · exact h

theorem present_cons (op : Operation κ) : Present m (op :: ops) = Present (op.effect m) ops := by
  funext k value
  refine propext ⟨?_, ?_⟩
  · rintro (⟨before, last, after, heq, haffects, hnone, hadds⟩ | ⟨hnone, hm⟩)
    · cases before with
      | nil =>
        cases heq
        exact .inr ⟨hnone, .inl ⟨haffects, hadds⟩⟩
      | cons first before =>
        cases heq
        exact .inl ⟨before, last, after, rfl, haffects, hnone, hadds⟩
    · rw [List.forall_mem_cons] at hnone
      exact .inr ⟨hnone.2, .inr ⟨hnone.1, hm⟩⟩
  · rintro (⟨before, last, after, rfl, hlast⟩ | ⟨hnone, ⟨haffects, hadds⟩ | ⟨hleaves, hm⟩⟩)
    · exact .inl ⟨op :: before, last, after, rfl, hlast⟩
    · exact .inl ⟨[], op, ops, rfl, haffects, hnone, hadds⟩
    · exact .inr ⟨List.forall_mem_cons.2 ⟨hleaves, hnone⟩, hm⟩

theorem present_append (ops others : List (Operation κ)) :
    Present m (ops ++ others) = Present (Present m ops) others := by
  induction ops generalizing m with
  | nil => rw [List.nil_append, present_nil]
  | cons op ops ih => rw [List.cons_append, present_cons, ih, present_cons]

theorem effect_of_not_affects {op : Operation κ} (h : ¬op.Affects k value) : op.effect m k value ↔ m k value := by
  rw [Operation.effect]
  exact ⟨fun heffect => heffect.elim (fun hadded => absurd hadded.1 h) And.right, fun hm => .inr ⟨h, hm⟩⟩

/-- Other pairs do not matter. -/
theorem present_congr {m' : κ → Int32 → Prop} (h : m k value ↔ m' k value) :
    Present m ops k value ↔ Present m' ops k value := by
  rw [Present, Present, h]

/-- Operations that do not affect a pair can be left out. -/
theorem present_filter {test : Operation κ → Bool} (h : ∀ op ∈ ops, op.Affects k value → test op) :
    Present m (ops.filter test) k value ↔ Present m ops k value := by
  induction ops generalizing m with
  | nil => rfl
  | cons op ops ih =>
    rw [List.forall_mem_cons] at h
    by_cases htest : test op
    · rw [List.filter_cons_of_pos htest, present_cons, present_cons, ih h.2]
    · have hleaves : ¬op.Affects k value := fun haffects => htest (h.1 haffects)
      rw [List.filter_cons_of_neg htest, ih h.2, present_cons]
      exact present_congr (effect_of_not_affects hleaves).symm

theorem effect_add : (Operation.add k value).effect m k' value' ↔ (k' = k ∧ value' = value) ∨ m k' value' := by
  simp only [Operation.effect, Operation.Affects, Operation.adds, and_true]
  exact ⟨Or.imp_right And.right, fun h => or_iff_not_imp_left.2 fun hpair => ⟨hpair, h.resolve_left hpair⟩⟩

theorem effect_of_not_adds {op : Operation κ} (h : op.adds = false) :
    op.effect m k value ↔ ¬op.Affects k value ∧ m k value := by
  simp only [Operation.effect, h, Bool.false_eq_true, and_false, false_or]

theorem effect_eq_of_not_adds {op : Operation κ} (h : op.adds = false) :
    op.effect m = fun k value => ¬op.Affects k value ∧ m k value := by
  funext k value
  exact propext (effect_of_not_adds h)

/-- Adding a pair that is not there and removing it again changes nothing. -/
theorem present_add_removeValue (h : ¬m k value) : Present m [.add k value, .removeValue k value] = m := by
  rw [present_cons, present_cons, present_nil]
  funext k' value'
  rw [effect_of_not_adds rfl, effect_add]
  refine propext ⟨fun ⟨hpair, hm⟩ => hm.resolve_left hpair, fun hm => ⟨?_, .inr hm⟩⟩
  rintro ⟨rfl, rfl⟩
  exact h hm

/-- It does not matter which one of two pairs is added first. -/
theorem present_add_add : Present m [.add k value, .add k' value'] = Present m [.add k' value', .add k value] := by
  simp only [present_cons, present_nil]
  funext k'' value''
  rw [effect_add, effect_add, effect_add, effect_add, or_left_comm]

end Present

/-! ## Answers -/

section Answers

omit [StoreKey κ]

variable {m : κ → Int32 → Prop} {ops : List (Operation κ)} {answers answers' : List Answer}

/-- What sets answer to operations, one after the other. -/
inductive Answered : (κ → Int32 → Prop) → List (Operation κ) → List Answer → Prop where
  | nil {m : κ → Int32 → Prop} : Answered m [] []
  | cons {m : κ → Int32 → Prop} {op : Operation κ} {ops : List (Operation κ)} {answer : Answer}
      {answers : List Answer} :
    op.Answers m answer → Answered (op.effect m) ops answers → Answered m (op :: ops) (answer :: answers)

/-- Each answer is by what the operations before it have left. -/
theorem Answered.at {before after : List (Operation κ)} {op : Operation κ} (h : Answered m ops answers)
    (hops : ops = before ++ op :: after) :
    ∃ front answer back, answers = front ++ answer :: back ∧ front.length = before.length ∧
      op.Answers (Present m before) answer := by
  induction h generalizing before with
  | nil => cases before <;> cases hops
  | @cons m first ops answer answers hfirst _ ih =>
    cases before with
    | nil =>
      cases hops
      exact ⟨[], answer, answers, rfl, rfl, present_nil ▸ hfirst⟩
    | cons _ before =>
      cases hops
      obtain ⟨front, answer', back, rfl, hlength, hanswer⟩ := ih rfl
      exact ⟨answer :: front, answer', back, rfl, congrArg (· + 1) hlength, present_cons first ▸ hanswer⟩

theorem Answered.append {before after : List (Operation κ)} (h : Answered m (before ++ after) answers) :
    ∃ front back, answers = front ++ back ∧ front.length = before.length ∧ Answered (Present m before) after back := by
  induction before generalizing m answers with
  | nil => exact ⟨[], answers, rfl, rfl, present_nil.symm ▸ h⟩
  | cons op before ih =>
    cases h with
    | @cons _ _ _ answer answers hanswer hrest =>
      obtain ⟨front, back, rfl, hlength, hback⟩ := ih hrest
      exact ⟨answer :: front, back, rfl, congrArg (· + 1) hlength, (present_cons op).symm ▸ hback⟩

/-- Sets answer in one way only. -/
theorem Operation.Answers.unique {op : Operation κ} {a b : Answer} (ha : op.Answers m a) (hb : op.Answers m b) :
    a = b := by
  have hcount {pairs pairs' : List (κ × Int32)} (hpairs : pairs.Nodup) (hpairs' : pairs'.Nodup)
      (hmem : ∀ k value, (k, value) ∈ pairs ↔ op.Affects k value ∧ m k value)
      (hmem' : ∀ k value, (k, value) ∈ pairs' ↔ op.Affects k value ∧ m k value) : pairs.length = pairs'.length :=
    ((List.perm_ext_iff_of_nodup hpairs hpairs').2 fun pair =>
      (hmem pair.1 pair.2).trans (hmem' pair.1 pair.2).symm).length_eq
  cases op with
  | add | removeValue => exact ha.trans hb.symm
  | remove | purge =>
    obtain ⟨pairs, hpairs, rfl, hmem⟩ := ha
    obtain ⟨pairs', hpairs', rfl, hmem'⟩ := hb
    rw [hcount hpairs hpairs' hmem hmem']
  | values k =>
    obtain ⟨values, rfl, hascending, hmem⟩ := ha
    obtain ⟨values', rfl, hascending', hmem'⟩ := hb
    have hnodup {xs : List Int32} (hxs : xs.Pairwise (· < ·)) : xs.Nodup :=
      hxs.imp fun hlt => Int32.ne_of_lt hlt
    have hsame := (List.perm_ext_iff_of_nodup (hnodup hascending) (hnodup hascending')).2 fun value =>
      (hmem value).trans (hmem' value).symm
    have hvalues : values = values' :=
      hsame.eq_of_pairwise (fun _ _ _ _ hlt hgt => absurd hgt (Int32.lt_asymm hlt)) hascending hascending'
    rw [hvalues]

theorem Answered.unique (h : Answered m ops answers) (h' : Answered m ops answers') :
    answers = answers' := by
  induction h generalizing answers' with
  | nil =>
    cases h'
    rfl
  | cons hfirst _ ih =>
    cases h' with
    | cons hfirst' hrest' => rw [hfirst.unique hfirst', ih hrest']

end Answers

/-! ## Stores that stand for sets -/

/-- The links of a store are those of some sets. -/
structure Represents (s : MultiValueStore κ) (m : κ → Int32 → Prop) : Prop where
  link : ∀ k value, ⟨StoreKey.encode k, value⟩ ∈ s.links ↔ m k value
  key_of_link : ∀ link ∈ s.links, ∃ k : κ, link.key = StoreKey.encode k

namespace Represents

variable {s : MultiValueStore κ} {m m' : κ → Int32 → Prop}

theorem values (h : s.Represents m) (k : κ) : (Operation.values k).Answers m (.listed (s.values k)) :=
  ⟨s.values k, rfl, s.pairwise_values k, fun _ => mem_values.trans (h.link k _)⟩

variable [LawfulStoreKey κ]

/-- The link of a pair. -/
def toLink (pair : κ × Int32) : Link :=
  ⟨StoreKey.encode pair.1, pair.2⟩

theorem toLink_injective : Function.Injective (toLink (κ := κ)) := by
  intro pair pair' heq
  obtain ⟨hkey, hvalue⟩ := Link.mk.inj heq
  exact Prod.ext (StoreKey.encode_eq_iff.1 hkey) hvalue

theorem exists_pairs (h : s.Represents m) :
    ∃ pairs : List (κ × Int32), pairs.map toLink = s.links.elements ∧ pairs.Nodup ∧
      ∀ k value, (k, value) ∈ pairs ↔ m k value := by
  have hlinks : s.links.elements ∈ Set.range (List.map (toLink (κ := κ))) := by
    rw [Set.range_list_map]
    intro link hlink
    obtain ⟨k, hk⟩ := h.key_of_link link hlink
    exact ⟨(k, link.value), by rw [toLink, ← hk]⟩
  obtain ⟨pairs, hpairs⟩ := hlinks
  refine ⟨pairs, hpairs, ?_, fun k value => ?_⟩
  · refine List.Nodup.of_map toLink ?_
    rw [hpairs]
    exact s.links.nodup
  · rw [← h.link, ← Ordered.Set.mem_elements, ← hpairs]
    exact (List.mem_map_of_injective toLink_injective).symm

/-- What is not kept is counted pair by pair. -/
theorem keep (h : s.Represents m) (op : Operation κ) (test : Link → Bool)
    (htest : ∀ pair, test (toLink pair) = true ↔ ¬op.Affects pair.1 pair.2) :
    (∃ pairs : List (κ × Int32), pairs.Nodup ∧ (s.keep test).1 = pairs.length ∧
      ∀ k value, (k, value) ∈ pairs ↔ op.Affects k value ∧ m k value) ∧
    (s.keep test).2.Represents fun k value => ¬op.Affects k value ∧ m k value := by
  refine ⟨?_, fun k value => ?_, fun link hlink => ?_⟩
  · obtain ⟨pairs, hpairs, hnodup, hmem⟩ := h.exists_pairs
    refine ⟨pairs.filter fun pair => !test (toLink pair), hnodup.filter _, ?_, fun k value => ?_⟩
    · have hcount := List.length_eq_length_filter_add (l := s.links.elements) test
      have hgone : (s.links.elements.filter fun link => !test link).length =
          (pairs.filter fun pair => !test (toLink pair)).length := by
        rw [← hpairs, List.filter_map, List.length_map]
        rfl
      change s.links.elements.length - (s.links.elements.filter test).length = _
      omega
    · rw [List.mem_filter, hmem, Bool.not_eq_true', ← Bool.not_eq_true, htest (k, value), not_not, and_comm]
  · have hkept := htest (k, value)
    rw [MultiValueStore.keep, Ordered.Set.mem_filter, h.link, and_comm]
    exact and_congr_left fun _ => hkept
  · exact h.key_of_link link (Ordered.Set.mem_filter.1 hlink).1

/-- An operation answers what sets answer, and does what sets do. -/
theorem run (h : s.Represents m) (op : Operation κ) :
    op.Answers m (op.run s).1 ∧ (op.run s).2.Represents (op.effect m) := by
  cases op with
  | add k value =>
    refine ⟨rfl, fun k' value' => ?_, fun link hlink => ?_⟩
    · rw [effect_add, ← mem_values, ← h.link, ← mem_values]
      exact mem_values_add
    · obtain rfl | hlink := Ordered.Set.mem_insert.1 hlink
      · exact ⟨k, rfl⟩
      · exact h.key_of_link link hlink
  | removeValue k value =>
    refine ⟨rfl, fun k' value' => ?_, fun link hlink => ?_⟩
    · rw [effect_of_not_adds rfl, ← mem_values, ← h.link, ← mem_values, and_comm]
      exact mem_values_removeValue
    · exact h.key_of_link link (Ordered.Set.mem_erase.1 hlink).1
  | remove k =>
    have htest (pair : κ × Int32) : decide ((toLink pair).key ≠ StoreKey.encode k) = true ↔
        ¬(Operation.remove k).Affects pair.1 pair.2 := by
      rw [decide_eq_true_iff, toLink, Ne, StoreKey.encode_eq_iff]
      rfl
    obtain ⟨⟨pairs, hnodup, hcount, hmem⟩, hkept⟩ := h.keep (.remove k) (fun link => link.key ≠ StoreKey.encode k) htest
    rw [effect_eq_of_not_adds rfl]
    exact ⟨⟨pairs, hnodup, congrArg Answer.removed hcount, hmem⟩, hkept⟩
  | purge value =>
    have htest (pair : κ × Int32) : decide ((toLink pair).value ≠ value) = true ↔
        ¬(Operation.purge (κ := κ) value).Affects pair.1 pair.2 := by
      rw [decide_eq_true_iff]
      rfl
    obtain ⟨⟨pairs, hnodup, hcount, hmem⟩, hkept⟩ := h.keep (.purge value) (fun link => link.value ≠ value) htest
    rw [effect_eq_of_not_adds rfl]
    exact ⟨⟨pairs, hnodup, congrArg Answer.removed hcount, hmem⟩, hkept⟩
  | values k =>
    refine ⟨h.values k, ?_⟩
    rw [effect_eq_of_not_adds rfl]
    simp only [Operation.Affects, not_false_eq_true, true_and]
    exact h

end Represents

/-! ## Handles of a file -/

/-- What is done with a store: it is asked something, or its handle is closed and its file is opened again. -/
inductive Event (κ : Type) where
  | ask (op : Operation κ)
  | reopen (journal : JournalMode)

/-- The operations among some events. -/
def operations (events : List (Event κ)) : List (Operation κ) :=
  events.filterMap fun
    | .ask op => some op
    | .reopen _ => none

/-- A handle, and the ones that are opened after it was closed, answer operations one after the other; nothing but
these handles uses the tree. -/
inductive Serves : OpenStore (MultiValueStore κ) → Files → List (Event κ) → List Answer →
    OpenStore (MultiValueStore κ) → Files → Prop where
  | nil {s : OpenStore (MultiValueStore κ)} {t : Files} : Serves s t [] [] s t
  | ask {s s' : OpenStore (MultiValueStore κ)} {t t' : Files} {op : Operation κ} {events : List (Event κ)}
      {answers : List Answer} :
    Serves (s.run op.run t).2.1 (s.run op.run t).2.2 events answers s' t' →
      Serves s t (.ask op :: events) ((s.run op.run t).1 :: answers) s' t'
  | reopen {s r s' : OpenStore (MultiValueStore κ)} {t u t' : Files} {journal : JournalMode} {events : List (Event κ)}
      {answers : List Answer} :
    MultiValueStore.open s.store.path journal (s.close t) = (.ok r, u) → r.file.id = s.file.id →
      Serves r u events answers s' t' → Serves s t (.reopen journal :: events) answers s' t'

/-- A handle of a file that the tree has, whose links are those of some sets. -/
structure Holds (m : κ → Int32 → Prop) (s : OpenStore (MultiValueStore κ)) (t : Files) : Prop where
  known : s.file.id < t.stores.length
  represents : (s.refreshed t).Represents m

section Handles

variable {m : κ → Int32 → Prop} {s r s' r' : OpenStore (MultiValueStore κ)} {t u t' u' : Files} {path : String}
  {journal : JournalMode} {events others : List (Event κ)} {answers answers' : List Answer}

/-- A file without links holds empty sets. -/
theorem Holds.of_empty (hknown : s.file.id < t.stores.length) (h : (t.contents s.file.id).links = .empty) :
    Holds (fun _ _ => False) s t where
  known := hknown
  represents := by
    have hlinks : (s.refreshed t).links = .empty := h
    refine ⟨fun k value => ?_, fun link hlink => ?_⟩
    · rw [hlinks]
      exact iff_of_false (Ordered.Set.not_mem_empty _) not_false
    · rw [hlinks] at hlink
      exact absurd hlink (Ordered.Set.not_mem_empty _)

theorem Holds.run [LawfulStoreKey κ] (h : Holds m s t) (op : Operation κ) :
    op.Answers m (s.run op.run t).1 ∧ Holds (op.effect m) (s.run op.run t).2.1 (s.run op.run t).2.2 := by
  obtain ⟨hanswer, hrepresents⟩ := h.represents.run op
  refine ⟨hanswer, ?_, ?_⟩
  · rw [OpenStore.length_run]
    exact h.known
  · rw [OpenStore.refreshed_run h.known fun _ => rfl]
    exact hrepresents

/-- Closing a handle and opening its file again leave the links. -/
theorem Holds.reopen (h : Holds m s t) (hopen : MultiValueStore.open path journal (s.close t) = (.ok r, u))
    (hid : r.file.id = s.file.id) : Holds m r u := by
  have hkeeps := (s.keeps_close t).trans (of_open hopen).1
  have hlinks : (r.refreshed u).links = (s.refreshed t).links := by
    change (u.contents r.file.id).links = (t.contents s.file.id).links
    rw [hid, hkeeps.contents h.known]
  refine ⟨?_, fun k value => ?_, fun link hlink => ?_⟩
  · rw [hid]
    exact Nat.lt_of_lt_of_le h.known hkeeps.length
  · rw [hlinks]
    exact h.represents.link k value
  · rw [hlinks] at hlink
    exact h.represents.key_of_link link hlink

/-- A handle and those after it answer as sets do. -/
theorem Serves.answered [LawfulStoreKey κ] (h : Serves s t events answers s' t') (hs : Holds m s t) :
    Answered m (operations events) answers := by
  induction h generalizing m with
  | nil => exact .nil
  | @ask s s' t t' op events answers _ ih =>
    obtain ⟨hanswer, hnext⟩ := hs.run op
    exact .cons hanswer (ih hnext)
  | reopen hopen hid _ ih => exact ih (hs.reopen hopen hid)

/-! ## Opening again -/

/-- A handle whose file stands at the place of its path, where it can be opened again. -/
structure Ready (journal : JournalMode) (path : String) (s : OpenStore (MultiValueStore κ)) (t : Files) : Prop where
  sound : t.Sound
  accessible : Files.Accessible path t
  held : Files.Held journal path .multiValue s.file t
  confined : Files.Confined (· ∈ Files.logPlaces (some (t.target path))) s.file.user t
  path_eq : s.store.path = path

namespace Ready

omit [StoreKey κ] in
theorem of_open (ht : t.Sound) (haccess : Files.Accessible path t)
    (hopen : MultiValueStore.open path journal t = (.ok s, u)) : Ready journal path s u := by
  have hopened := haccess.opened ht (open_eq_ok hopen)
  refine ⟨ht.openStore haccess (open_eq_ok hopen), haccess.of_directories hopened.working hopened.directory,
    hopened.held, ?_, ?_⟩
  · rw [hopened.user, Files.target_of_working hopened.working]
    exact hopened.confined (fun _ h => h) ht.confined
  · rw [(MultiValueStore.of_open hopen).2]

theorem run (h : Ready journal path s t) (op : Operation κ) :
    Ready journal path (s.run op.run t).2.1 (s.run op.run t).2.2 := by
  have hcommit : Files.Commit [(s.file, .multiValue)] t (s.run op.run t).2.2 :=
    OpenCache.commit_of_mem (s := ⟨s.file, (op.run (s.refreshed t)).2⟩) rfl (List.mem_singleton_self _) t
  have hcommits : Files.Commits [(s.file, .multiValue)] t (s.run op.run t).2.2 := .single hcommit
  have hattached : Files.Attached [(s.file, .multiValue)] t := by
    rw [Files.Attached, List.forall_mem_singleton]
    exact ⟨StoreFile.kind_of_check h.held.standing.check, h.held.joined⟩
  have hamended := hcommits.amended hattached
  have hfollows : Files.Follows (fun _ => False) t (s.run op.run t).2.2 := hamended.follows
  refine ⟨?_, h.accessible.of_directories hfollows.working hfollows.directory, hamended.held h.held, ?_, ?_⟩
  · have husers : ∀ handle ∈ [(s.file, StoreKind.multiValue)], handle.1.user < t.users :=
      List.forall_mem_singleton.2 h.held.user
    have hchanges : Files.Changes (fun _ => False) (fun _ => False) t (s.run op.run t).2.2 := hcommits.changes husers
    exact hchanges.sound h.sound
  · rw [Files.target_of_working hfollows.working]
    exact hamended.confined h.confined
  · rw [← h.path_eq]
    cases op <;> rfl

omit [StoreKey κ] in
theorem reopen (h : Ready journal path s t) : ∃ (r : OpenStore (MultiValueStore κ)) (u : Files),
    MultiValueStore.open s.store.path journal (s.close t) = (.ok r, u) ∧ r.file.id = s.file.id ∧
      Ready journal path r u := by
  have hgone : ∀ user, decide (user = s.file.user) = true → s.file.user ≤ user :=
    fun user huser => Nat.le_of_eq (of_decide_eq_true huser).symm
  have hfollows := (h.confined.leaveStores hgone).1
  have hchanges : Files.Changes (fun _ => False) (fun _ => False) t (s.close t) := Files.changes_leaveStores t _
  have hsound := hchanges.sound h.sound
  have hstanding := h.held.standing.follows hfollows (Files.notMem_logPlaces _)
  obtain ⟨u, hjoined, -⟩ := hstanding.openStore fun _ _ => trivial
  obtain ⟨r, hfile, hopen⟩ := exists_open (κ := κ) hjoined
  rw [h.path_eq]
  refine ⟨r, u, hopen, by rw [hfile], ?_⟩
  exact of_open hsound (h.accessible.of_directories hfollows.working hfollows.directory) hopen

/-- A store can be used, closed and opened again without end. -/
theorem exists_serves (h : Ready journal path s t) (hevents : ∀ other, .reopen other ∈ events → other = journal) :
    ∃ answers s' t', Serves s t events answers s' t' := by
  induction events generalizing s t with
  | nil => exact ⟨[], s, t, .nil⟩
  | cons event events ih =>
    have hrest : ∀ other, .reopen other ∈ events → other = journal := fun other h => hevents other (.tail _ h)
    cases event with
    | ask op =>
      obtain ⟨answers, s', t', hserves⟩ := ih (h.run op) hrest
      exact ⟨_, s', t', .ask hserves⟩
    | reopen other =>
      obtain rfl := hevents other (.head _)
      obtain ⟨r, u, hopen, hid, hready⟩ := h.reopen
      obtain ⟨answers, s', t', hserves⟩ := ih hready hrest
      exact ⟨answers, s', t', .reopen hopen hid hserves⟩

end Ready

/-! ## All answers -/

/-- Operations that leave the same pairs are followed by the same answers. -/
theorem Holds.same_answers [LawfulStoreKey κ] (hs : Holds m s t) (hserves : Serves s t events answers s' t')
    (hr : Holds m r u) (hserves' : Serves r u others answers' r' u') {before before' after : List (Operation κ)}
    (hevents : operations events = before ++ after) (hothers : operations others = before' ++ after)
    (hpresent : Present m before = Present m before') :
    answers.drop before.length = answers'.drop before'.length := by
  have hanswered := hserves.answered hs
  have hanswered' := hserves'.answered hr
  rw [hevents] at hanswered
  rw [hothers] at hanswered'
  obtain ⟨front, back, rfl, hlength, hback⟩ := hanswered.append
  obtain ⟨front', back', rfl, hlength', hback'⟩ := hanswered'.append
  rw [← hlength, ← hlength', List.drop_left, List.drop_left]
  exact hback.unique (hpresent ▸ hback')

/-- A handle answers as sets do, whenever it is closed and its file opened again. -/
structure ActsAsSets (m : κ → Int32 → Prop) (s : OpenStore (MultiValueStore κ)) (t : Files) : Prop where
  /-- The answer to any operation is by what the last operation on each pair before it was. -/
  answers : ∀ {events answers s' t'}, Serves s t events answers s' t' → ∀ {before op after},
    operations events = before ++ op :: after →
      ∃ front answer back, answers = front ++ answer :: back ∧ front.length = before.length ∧
        op.Answers (Present m before) answer
  /-- Two queries around an operation differ only in what it affects. -/
  spared : ∀ {events answers s' t'}, Serves s t events answers s' t' → ∀ {before k op after},
    operations events = before ++ .values k :: op :: .values k :: after →
      ∃ front values answer values' back, answers = front ++ .listed values :: answer :: .listed values' :: back ∧
        front.length = before.length ∧ ∀ value, ¬op.Affects k value → (value ∈ values' ↔ value ∈ values)
  /-- Whether a pair that was not there was added and removed again shows in no answer. -/
  restored : ∀ {events answers s' t' others answers' r' u'}, Serves s t events answers s' t' →
    Serves s t others answers' r' u' → ∀ {before k value after},
      operations events = before ++ [.add k value, .removeValue k value] ++ after →
        operations others = before ++ after → ¬Present m before k value →
          answers.drop (before.length + 2) = answers'.drop before.length
  /-- Which one of two pairs was added first shows in no answer. -/
  commuted : ∀ {events answers s' t' others answers' r' u'}, Serves s t events answers s' t' →
    Serves s t others answers' r' u' → ∀ {before k value k' value' after},
      operations events = before ++ [.add k value, .add k' value'] ++ after →
        operations others = before ++ [.add k' value', .add k value] ++ after →
          answers.drop (before.length + 2) = answers'.drop (before.length + 2)

theorem Holds.actsAsSets [LawfulStoreKey κ] (h : Holds m s t) : ActsAsSets m s t where
  answers hserves _ _ _ hevents := (hserves.answered h).at hevents
  spared := by
    intro events answers s' t' hserves before k op after hevents
    have hanswered := hserves.answered h
    rw [hevents] at hanswered
    obtain ⟨front, back, rfl, hlength, hback⟩ := hanswered.append
    cases hback with
    | cons hfirst hback =>
      cases hback with
      | @cons _ _ _ answer _ _ hback =>
        cases hback with
        | cons hlast hback =>
          obtain ⟨values, rfl, -, hmem⟩ := hfirst
          obtain ⟨values', rfl, -, hmem'⟩ := hlast
          refine ⟨front, values, answer, values', _, rfl, hlength, fun value hleaves => ?_⟩
          have hquery : ¬(Operation.values k).Affects k value := not_false
          rw [hmem', hmem, effect_of_not_affects hleaves, effect_of_not_affects hquery]
  restored := by
    intro events answers s' t' others answers' r' u' hserves hserves' before k value after hevents hothers habsent
    have hpresent : Present m (before ++ [.add k value, .removeValue k value]) = Present m before := by
      rw [present_append, present_add_removeValue habsent]
    have hsame := h.same_answers hserves h hserves' hevents hothers hpresent
    rwa [List.length_append] at hsame
  commuted := by
    intro events answers s' t' others answers' r' u' hserves hserves' before k value k' value' after hevents hothers
    have hpresent : Present m (before ++ [.add k value, .add k' value']) =
        Present m (before ++ [.add k' value', .add k value]) := by
      rw [present_append, present_append, present_add_add]
    have hsame := h.same_answers hserves h hserves' hevents hothers hpresent
    rwa [List.length_append, List.length_append] at hsame

/-! ## Declarations -/

/-- Whether an operation is about a key that passes a test, or about no single key. -/
def Operation.isAbout (test : κ → Bool) (op : Operation κ) : Bool :=
  op.key?.all test

omit [StoreKey κ] in
theorem Operation.Affects.isAbout {op : Operation κ} {k : κ} {value : Int32} (h : op.Affects k value) {test : κ → Bool}
    (htest : test k) : op.isAbout test := by
  cases op with
  | add k' | removeValue k' =>
    obtain ⟨rfl, rfl⟩ := h
    exact htest
  | remove k' =>
    obtain rfl := h
    exact htest
  | purge => rfl
  | values => exact h.elim

end Handles

/-- Stores whose keys are told apart by their encodings act as sets under keys. Those that are opened at a path to
which there is a way can be used, closed and opened again without end. In a store of declarations nothing shows of
what was done with declarations of other variants, whatever their names. -/
theorem acts_as_sets :
    (∀ {κ : Type} [StoreKey κ] [LawfulStoreKey κ] {m : κ → Int32 → Prop} {s : OpenStore (MultiValueStore κ)}
      {t : Files}, Holds m s t → ActsAsSets m s t) ∧
    (∀ {κ : Type} [StoreKey κ] {path : String} {journal : JournalMode} {s : OpenStore (MultiValueStore κ)}
      {before t : Files}, before.Sound → Files.Accessible path before →
        MultiValueStore.open path journal before = (.ok s, t) → ∀ {events : List (Event κ)},
          (∀ other, .reopen other ∈ events → other = journal) → ∃ answers s' t', Serves s t events answers s' t') ∧
    ∀ {m : Declaration Int32 → Int32 → Prop} {s s' : OpenStore (MultiValueStore (Declaration Int32))} {t t' : Files}
      {events : List (Event (Declaration Int32))} {answers : List Answer}, Holds m s t →
        Serves s t events answers s' t' → ∀ {before k after}, operations events = before ++ .values k :: after →
          ∃ front values back, answers = front ++ .listed values :: back ∧ front.length = before.length ∧
            values.Pairwise (· < ·) ∧ ∀ value, value ∈ values ↔
              Present m (before.filter (·.isAbout fun other => other.tag = k.tag)) k value := by
  refine ⟨Holds.actsAsSets, fun ht haccess hopen _ => (Ready.of_open ht haccess hopen).exists_serves, ?_⟩
  intro m s s' t t' events answers hs hserves before k after hevents
  obtain ⟨front, answer, back, rfl, hlength, values, rfl, hascending, hmem⟩ := (hserves.answered hs).at hevents
  let sameVariant (other : Declaration Int32) : Bool := other.tag = k.tag
  have hself : sameVariant k = true := decide_eq_true rfl
  refine ⟨front, values, back, rfl, hlength, hascending, fun value => (hmem value).trans ?_⟩
  exact (present_filter fun op _ haffects => haffects.isAbout hself).symm

/-- A number under a field is still there after the file was opened again, and those of a method with the same names
are not. A file that was not there before can be opened again, too. -/
theorem acts_as_sets_reopened :
    (∃ (s s' : OpenStore (MultiValueStore (Declaration Int32))) (t t' : Files), Holds (fun _ _ => False) s t ∧
      Serves s t [.ask (.add (.field 1 2) 3), .ask (.add (.method 1 2 3) 4), .reopen .wal, .ask (.values (.field 1 2)),
        .ask (.purge 4)] [.done, .done, .listed [3], .removed 1] s' t' ∧
      ∀ value, value ∈ [3] ↔
        Present (fun (_ : Declaration Int32) _ => False) [.add (.field 1 2) 3] (.field 1 2) value) ∧
    ∃ (s : OpenStore (MultiValueStore (Declaration Int32))) (t : Files),
      MultiValueStore.open "referencers.db" .wal .empty = (.ok s, t) ∧ ∃ answers s' t',
        Serves s t [.ask (.add (.field 1 2) 3), .reopen .wal, .ask (.values (.field 1 2))] answers s' t' := by
  have hopened : ∃ (s : OpenStore (MultiValueStore (Declaration Int32))) (t : Files), Holds (fun _ _ => False) s t ∧
      ∃ s' t', Serves s t [.ask (.add (.field 1 2) 3), .ask (.add (.method 1 2 3) 4), .reopen .wal,
        .ask (.values (.field 1 2)), .ask (.purge 4)] [.done, .done, .listed [3], .removed 1] s' t' :=
    ⟨⟨⟨0, 0⟩, ⟨"referencers.db", .empty⟩⟩,
      (MultiValueStore.open (κ := Declaration Int32) "referencers.db" .wal .empty).2,
      .of_empty (by decide +kernel) rfl, _, _, .ask (.ask (.reopen rfl rfl (.ask (.ask .nil))))⟩
  obtain ⟨s, t, hholds, s', t', hserves⟩ := hopened
  have hoperations : operations (κ := Declaration Int32) [.ask (.add (.field 1 2) 3), .ask (.add (.method 1 2 3) 4),
      .reopen .wal, .ask (.values (.field 1 2)), .ask (.purge 4)] =
      [.add (.field 1 2) 3, .add (.method 1 2 3) 4] ++ .values (.field 1 2) :: [.purge 4] := rfl
  have haccess : Files.Accessible "referencers.db" .empty := by
    have haddress : Address.ofPath? "referencers.db" = some (.file "referencers.db" true) := by decide +kernel
    have htarget : Files.empty.target "referencers.db" = [] ++ ["referencers.db"] := by decide +kernel
    refine ⟨rfl, fun address h => ?_, ?_⟩
    · rw [haddress] at h
      exact (Option.some.inj h).symm
    · rw [htarget]
      exact Place.aside_concat [] (by decide) (by decide)
  obtain ⟨front, values, back, hanswers, hlength, -, hmem⟩ := acts_as_sets.2.2 hholds hserves hoperations
  obtain ⟨r, u, hopen⟩ : ∃ (r : OpenStore (MultiValueStore (Declaration Int32))) (u : Files),
      MultiValueStore.open "referencers.db" .wal .empty = (.ok r, u) := ⟨_, _, rfl⟩
  refine ⟨⟨s, s', t, t', hholds, hserves, fun value => ?_⟩, r, u, hopen, ?_⟩
  · obtain ⟨first, second, rfl⟩ := List.length_eq_two.1 hlength
    cases hanswers
    exact hmem value
  · refine acts_as_sets.2.1 Files.sound_empty haccess hopen fun other hother => ?_
    simpa using hother

end ClassDeps.MultiValueStore
