import ClassDeps.Proofs.Class.Renaming
import ClassDeps.Proofs.Key.Injective

/-!
# Bytes that decode as keys

The bytes of a key are read from front to back, and what is left over at the end is refused. So exactly the
encodings of keys are accepted, and no encoding goes on with more bytes to another one.

## Main definitions

* `Key.Reader.int32s` — several integers, one after the other
* `Key.int32Fault?`, `Declaration.fault?` — what is wrong with bytes that are no key
* `StoreKey.Canonical` — keys whose decoding accepts their encodings and nothing else

## Main statements

* `Key.Reader.int32s_of_append`, `int32s_of_short` — integers are read until the bytes run out
* `StoreKey.Canonical.of_tail` — what is made of an encoding and of more bytes after it decides all else
* `canonical_keys` — declarations and numbers are such keys
-/

namespace ClassDeps

namespace Key

/-! ## Integers in a row -/

namespace Reader

variable {r : Reader} {tail : Bytes}

/-- A reader that is some bytes further. -/
def skip (r : Reader) (count : Nat) : Reader :=
  { r with position := r.position + count }

theorem rest_skip (r : Reader) (count : Nat) : (r.skip count).rest = r.rest.drop count := by
  simp only [rest, skip, List.drop_drop]

theorem skip_skip (r : Reader) (count more : Nat) : (r.skip count).skip more = r.skip (count + more) := by
  simp only [skip, Nat.add_assoc]

theorem int32_of_append {x : Int32} (h : r.rest = Bytes.ofInt32 x ++ tail) :
    r.int32 = .ok (x, r.skip 4) ∧ (r.skip 4).rest = tail := by
  constructor
  · obtain ⟨a, b, c, d, hx⟩ : ∃ a b c d, Bytes.ofInt32 x = [a, b, c, d] := ⟨_, _, _, _, rfl⟩
    rw [hx] at h
    simp only [int32, h, List.cons_append, Bytes.ofInt32_eq_iff.1 hx]
    rfl
  · rw [rest_skip, h]
    rfl

theorem int32_of_short (h : r.rest.length < 4) :
    r.int32 = .error (.truncated r.position r.bytes.length) := by
  unfold int32
  split
  · rename_i hrest
    simp only [hrest, List.length_cons] at h
    omega
  · rfl

/-- Enough bytes begin with an integer. -/
theorem exists_int32 {bytes : Bytes} (h : 4 ≤ bytes.length) : ∃ x tail, bytes = Bytes.ofInt32 x ++ tail := by
  match bytes, h with
  | a :: b :: c :: d :: tail, _ => exact ⟨Bytes.toInt32 a b c d, tail, by rw [Bytes.ofInt32_toInt32]; rfl⟩

/-- Reads some integers. -/
def int32s : Nat → Reader → Except KeyFault (List Int32 × Reader)
  | 0, r => .ok ([], r)
  | count + 1, r => do
    let (x, r) ← r.int32
    let (xs, r) ← int32s count r
    return (x :: xs, r)

theorem bind_int32s_succ {β : Type} (r : Reader) (count : Nat) (next : List Int32 × Reader → Except KeyFault β) :
    (r.int32s (count + 1)).bind next =
      r.int32.bind fun p => (p.2.int32s count).bind fun q => next (p.1 :: q.1, q.2) := by
  simp only [int32s, bind, Except.bind]
  cases r.int32 with
  | error fault => rfl
  | ok p =>
    simp only
    cases p.2.int32s count with
    | error fault => rfl
    | ok q => rfl

theorem int32s_of_append {xs : List Int32} (h : r.rest = xs.flatMap Bytes.ofInt32 ++ tail) :
    r.int32s xs.length = .ok (xs, r.skip (4 * xs.length)) := by
  induction xs generalizing r with
  | nil => rfl
  | cons x xs ih =>
    rw [List.flatMap_cons, List.append_assoc] at h
    obtain ⟨hread, hrest⟩ := int32_of_append h
    have hposition : 4 + 4 * xs.length = 4 * (xs.length + 1) := by omega
    simp only [List.length_cons, int32s, hread, bind, Except.bind, ih hrest]
    simp only [skip, Nat.add_assoc, hposition]
    rfl

/-- The first integer that is cut off says where it begins. -/
theorem int32s_of_short {count : Nat} (h : r.rest.length < 4 * count) :
    r.int32s count = .error (.truncated (r.position + 4 * (r.rest.length / 4)) r.bytes.length) := by
  induction count generalizing r with
  | zero => omega
  | succ count ih =>
    by_cases hshort : r.rest.length < 4
    · have hzero : r.rest.length / 4 = 0 := Nat.div_eq_of_lt hshort
      simp only [int32s, int32_of_short hshort, hzero]
      rfl
    · obtain ⟨x, tail, hrest⟩ := exists_int32 (Nat.le_of_not_lt hshort)
      obtain ⟨hread, hskip⟩ := int32_of_append hrest
      have hlength : r.rest.length = 4 + tail.length := by
        rw [hrest, List.length_append, Bytes.length_ofInt32]
      have hplaces : 4 + 4 * (tail.length / 4) = 4 * (r.rest.length / 4) := by omega
      have hnext := ih (r := r.skip 4) (by rw [hskip]; omega)
      simp only [int32s, hread, bind, Except.bind, hnext, hskip]
      simp only [skip, Nat.add_assoc, hplaces]

theorem exists_int32s {count : Nat} {bytes : Bytes} (h : 4 * count ≤ bytes.length) :
    ∃ xs : List Int32, ∃ tail, xs.length = count ∧ bytes = xs.flatMap Bytes.ofInt32 ++ tail := by
  induction count generalizing bytes with
  | zero => exact ⟨[], bytes, rfl, rfl⟩
  | succ count ih =>
    have hfirst : 4 ≤ bytes.length := by omega
    obtain ⟨x, rest, rfl⟩ := exists_int32 hfirst
    rw [List.length_append, Bytes.length_ofInt32] at h
    have hrest : 4 * count ≤ rest.length := by omega
    obtain ⟨xs, tail, rfl, rfl⟩ := ih hrest
    exact ⟨x :: xs, tail, rfl, by rw [List.flatMap_cons, List.append_assoc]⟩

end Reader

/-- What is wrong with bytes of which a key takes `length`, where the integers of the key begin at `start`. -/
def lengthFault? (start length : Nat) (bytes : Bytes) : Option KeyFault :=
  if bytes.length < length then
    some (.truncated (start + 4 * ((bytes.length - start) / 4)) bytes.length)
  else if length < bytes.length then some (.trailing (bytes.length - length))
  else none

/-- What is wrong with bytes that are no number. -/
def int32Fault? : Bytes → Option KeyFault :=
  lengthFault? 0 4

end Key

/-! ## Keys -/

namespace StoreKey

/-- Bytes decode as a key exactly if they are its encoding, and no encoding begins with that of another key. All
other bytes are refused with an encoding fault, which `fault?` computes. -/
structure Canonical (κ : Type) [StoreKey κ] (fault? : Bytes → Option KeyFault) : Prop where
  decode_eq_ok_iff : ∀ (bytes : Bytes) (k : κ), decode bytes = .ok k ↔ bytes = encode k
  decode_eq_error_iff : ∀ (bytes : Bytes) (fault : KeyFault),
    (decode bytes : Except KeyFault κ) = .error fault ↔ fault? bytes = some fault
  refused_iff : ∀ bytes : Bytes, (∃ fault, fault? bytes = some fault) ↔ ∀ k : κ, bytes ≠ encode k
  encode_eq_iff : ∀ a b : κ, encode a = encode b ↔ a = b
  encode_prefix_iff : ∀ a b : κ, encode a <+: encode b ↔ a = b

/-- It is enough to say what decoding makes of an encoding with more bytes after it, and that all other bytes are
refused. -/
theorem Canonical.of_tail {κ : Type} [StoreKey κ] {fault? : Bytes → Option KeyFault}
    (hencode : ∀ (k : κ) (tail : Bytes),
      decode (encode k ++ tail) = if tail = [] then .ok k else .error (.trailing tail.length))
    (hfault : ∀ bytes : Bytes,
      (∃ (k : κ) (tail : Bytes), bytes = encode k ++ tail ∧
        fault? bytes = if tail = [] then none else some (.trailing tail.length)) ∨
      ∃ fault, fault? bytes = some fault ∧ (decode bytes : Except KeyFault κ) = .error fault) :
    Canonical κ fault? := by
  have hself (k : κ) : decode (encode k) = .ok k := by
    have htail := hencode k []
    rwa [List.append_nil, if_pos rfl] at htail
  -- Each byte string is an encoding, and then nothing is wrong with it, or refused for the reason that is given.
  have hcases (bytes : Bytes) : (∃ k : κ, bytes = encode k ∧ fault? bytes = none) ∨
      ∃ fault, fault? bytes = some fault ∧ (decode bytes : Except KeyFault κ) = .error fault := by
    obtain ⟨k, tail, rfl, hnone⟩ | hrefused := hfault bytes
    · by_cases htail : tail = []
      · rw [if_pos htail] at hnone
        exact .inl ⟨k, by rw [htail, List.append_nil], hnone⟩
      · rw [if_neg htail] at hnone
        exact .inr ⟨_, hnone, by rw [hencode, if_neg htail]⟩
    · exact .inr hrefused
  have hinjective {a b : κ} (heq : encode a = encode b) : a = b :=
    Except.ok.inj ((hself a).symm.trans (heq ▸ hself b))
  refine ⟨fun bytes k => ?_, fun bytes fault => ?_, fun bytes => ?_, fun a b => ⟨hinjective, congrArg _⟩,
    fun a b => ⟨fun hprefix => ?_, fun heq => heq ▸ List.prefix_rfl⟩⟩
  · obtain ⟨k', rfl, -⟩ | ⟨fault, -, herror⟩ := hcases bytes
    · rw [hself, Except.ok.injEq]
      exact ⟨congrArg _, hinjective⟩
    · refine iff_of_false (by rw [herror]; exact nofun) fun heq => ?_
      rw [heq, hself] at herror
      cases herror
  · obtain ⟨k, rfl, hnone⟩ | ⟨reason, hreason, herror⟩ := hcases bytes
    · exact iff_of_false (by rw [hself]; exact nofun) (by rw [hnone]; exact nofun)
    · rw [hreason, herror, Except.error.injEq, Option.some.injEq]
  · obtain ⟨k, rfl, hnone⟩ | ⟨fault, hsome, herror⟩ := hcases bytes
    · exact iff_of_false (by simp [hnone]) fun hne => hne k rfl
    · refine iff_of_true ⟨fault, hsome⟩ fun k heq => ?_
      rw [heq, hself] at herror
      cases herror
  · obtain ⟨tail, htail⟩ := hprefix
    have hdecode := hencode a tail
    rw [htail, hself] at hdecode
    split at hdecode
    · exact (Except.ok.inj hdecode).symm
    · cases hdecode

end StoreKey

/-! ## Numbers -/

namespace Key

theorem Reader.finish_skip (bytes : Bytes) (count : Nat) :
    ((Reader.ofBytes bytes).skip count).finish =
      if count = bytes.length then .ok () else .error (.trailing (bytes.length - count)) := by
  simp only [Reader.finish, Reader.skip, Reader.ofBytes, Nat.zero_add]

/-- After all that belongs to a key the reader must be at the end. -/
theorem Reader.finish_append (front tail : Bytes) :
    ((Reader.ofBytes (front ++ tail)).skip front.length).finish =
      if tail = [] then .ok () else .error (.trailing tail.length) := by
  rw [finish_skip, List.length_append, Nat.add_sub_cancel_left]
  cases tail with
  | nil => simp
  | cons b tail => simp

theorem lengthFault?_append (start : Nat) (front tail : Bytes) :
    lengthFault? start front.length (front ++ tail) = if tail = [] then none else some (.trailing tail.length) := by
  rw [lengthFault?, List.length_append, if_neg (Nat.not_lt.2 (Nat.le_add_right _ _)), Nat.add_sub_cancel_left]
  cases tail with
  | nil => simp
  | cons b tail => simp

end Key

theorem canonical_int32 : StoreKey.Canonical Int32 Key.int32Fault? := by
  refine .of_tail (fun x tail => ?_) fun bytes => ?_
  · have hread := (Key.Reader.int32_of_append (r := .ofBytes (Bytes.ofInt32 x ++ tail)) rfl).1
    have hfinish := Key.Reader.finish_append (Bytes.ofInt32 x) tail
    simp only [StoreKey.encode, StoreKey.decode, Key.encode, List.flatMap_singleton, Key.Component.toBytes, hread, bind,
      Except.bind]
    rw [Bytes.length_ofInt32] at hfinish
    rw [hfinish]
    cases tail with
    | nil => rfl
    | cons b tail => rfl
  · by_cases hshort : bytes.length < 4
    · have hread := Key.Reader.int32_of_short (r := .ofBytes bytes) hshort
      refine .inr ⟨.truncated 0 bytes.length, ?_, ?_⟩
      · have hzero : 4 * ((bytes.length - 0) / 4) = 0 := by omega
        rw [Key.int32Fault?, Key.lengthFault?, if_pos hshort, hzero]
      · simp only [StoreKey.decode, hread]
        rfl
    · obtain ⟨x, tail, rfl⟩ := Key.Reader.exists_int32 (Nat.le_of_not_lt hshort)
      have hencode : StoreKey.encode x = Bytes.ofInt32 x := rfl
      exact .inl ⟨x, tail, by rw [hencode], Key.lengthFault?_append 0 (Bytes.ofInt32 x) tail⟩

/-! ## Declarations -/

namespace Declaration

/-- How many numbers follow a tag. -/
def arity? (tag : UInt8) : Option Nat :=
  match tag with
  | 1 => some 1
  | 2 => some 2
  | 3 => some 3
  | _ => none

def tag {ν : Type} : Declaration ν → UInt8
  | type _ => 1
  | field _ _ => 2
  | method _ _ _ => 3

/-- What is wrong with bytes that are no declaration. -/
def fault? : Bytes → Option KeyFault
  | [] => some .noTag
  | tag :: rest =>
    match arity? tag with
    | none => some (.unknownTag tag)
    | some count => Key.lengthFault? 1 (1 + 4 * count) (tag :: rest)

theorem encode_eq (k : Declaration Int32) : StoreKey.encode k = k.tag :: k.names.flatMap Bytes.ofInt32 := by
  cases k <;> rfl

theorem length_encode (k : Declaration Int32) : (StoreKey.encode k).length = 1 + 4 * k.names.length := by
  cases k <;> rfl

theorem arity?_tag (k : Declaration Int32) : arity? k.tag = some k.names.length := by
  cases k <;> rfl

theorem exists_of_arity? {tag : UInt8} {xs : List Int32} (h : arity? tag = some xs.length) :
    ∃ k : Declaration Int32, k.tag = tag ∧ k.names = xs := by
  unfold arity? at h
  split at h
  · obtain ⟨owner, rfl⟩ := List.length_eq_one_iff.1 (Option.some.inj h).symm
    exact ⟨type owner, rfl, rfl⟩
  · match xs, h with
    | [owner, name], _ => exact ⟨field owner name, rfl, rfl⟩
  · match xs, h with
    | [owner, name, descriptor], _ => exact ⟨method owner name descriptor, rfl, rfl⟩
  · cases h

/-- The declaration with some names. -/
def ofNames? : List Int32 → Option (Declaration Int32)
  | [owner] => some (type owner)
  | [owner, name] => some (field owner name)
  | [owner, name, descriptor] => some (method owner name descriptor)
  | _ => none

theorem ofNames?_names (k : Declaration Int32) : ofNames? k.names = some k := by
  cases k <;> rfl

theorem ne_of_arity?_eq_none {tag : UInt8} (h : arity? tag = none) : tag ≠ 1 ∧ tag ≠ 2 ∧ tag ≠ 3 := by
  refine ⟨?_, ?_, ?_⟩ <;> rintro rfl <;> cases h

theorem decode_of_unknown {tag : UInt8} (h : arity? tag = none) (rest : Bytes) :
    decode (tag :: rest) = .error (.unknownTag tag) := by
  have htag : (Key.Reader.ofBytes (tag :: rest)).tag = .ok (tag, (Key.Reader.ofBytes (tag :: rest)).skip 1) := rfl
  obtain ⟨htype, hfield, hmethod⟩ := ne_of_arity?_eq_none h
  rw [decode, htag]
  simp only [bind, Except.bind]
  rfl

/-- Decoding reads a tag, as many numbers as it asks for, and nothing else. -/
theorem decode_cons {tag : UInt8} {count : Nat} (htag : arity? tag = some count) (rest : Bytes) :
    decode (tag :: rest) = (((Key.Reader.ofBytes (tag :: rest)).skip 1).int32s count).bind fun p =>
      p.2.finish.bind fun _ => (ofNames? p.1).elim (.error .noTag) .ok := by
  unfold arity? at htag
  split at htag <;> cases htag <;> simp only [Key.Reader.bind_int32s_succ] <;> rfl

/-- Decoding an encoding with more bytes after it reads the key and counts these bytes. -/
theorem decode_encode_append (k : Declaration Int32) (tail : Bytes) :
    decode (StoreKey.encode k ++ tail) = if tail = [] then .ok k else .error (.trailing tail.length) := by
  have hfinish := Key.Reader.finish_append (StoreKey.encode k) tail
  rw [length_encode] at hfinish
  rw [encode_eq, List.cons_append] at hfinish ⊢
  have hrest : ((Key.Reader.ofBytes (k.tag :: (k.names.flatMap Bytes.ofInt32 ++ tail))).skip 1).rest =
      k.names.flatMap Bytes.ofInt32 ++ tail := rfl
  have hread := Key.Reader.int32s_of_append hrest
  rw [decode_cons (arity?_tag k), hread]
  simp only [Except.bind, Key.Reader.skip_skip, hfinish, ofNames?_names]
  cases tail with
  | nil => rfl
  | cons b tail => rfl

theorem decode_of_short {tag : UInt8} {count : Nat} (htag : arity? tag = some count) {rest : Bytes}
    (h : rest.length < 4 * count) :
    decode (tag :: rest) = .error (.truncated (1 + 4 * (rest.length / 4)) (rest.length + 1)) := by
  have hread := Key.Reader.int32s_of_short (r := (Key.Reader.ofBytes (tag :: rest)).skip 1) h
  rw [decode_cons htag, hread]
  rfl

theorem canonical : StoreKey.Canonical (Declaration Int32) fault? := by
  refine .of_tail decode_encode_append fun bytes => ?_
  cases bytes with
  | nil => exact .inr ⟨.noTag, rfl, rfl⟩
  | cons tag rest =>
    simp only [fault?]
    cases htag : arity? tag with
    | none => exact .inr ⟨.unknownTag tag, rfl, decode_of_unknown htag rest⟩
    | some count =>
      by_cases hshort : rest.length < 4 * count
      · refine .inr ⟨_, ?_, decode_of_short htag hshort⟩
        have hlength : (tag :: rest).length < 1 + 4 * count := by
          rw [List.length_cons]
          omega
        change Key.lengthFault? 1 (1 + 4 * count) (tag :: rest) = _
        rw [Key.lengthFault?, if_pos hlength, List.length_cons, Nat.add_sub_cancel]
      · obtain ⟨xs, tail, rfl, rfl⟩ := Key.Reader.exists_int32s (Nat.le_of_not_lt hshort)
        obtain ⟨k, rfl, rfl⟩ := exists_of_arity? htag
        have hencode : k.tag :: (k.names.flatMap Bytes.ofInt32 ++ tail) = StoreKey.encode k ++ tail := by
          rw [encode_eq, List.cons_append]
        refine .inl ⟨k, tail, hencode, ?_⟩
        change Key.lengthFault? 1 (1 + 4 * k.names.length) _ = _
        rw [hencode, ← length_encode]
        exact Key.lengthFault?_append 1 (StoreKey.encode k) tail

example : fault? [2, 0, 0, 0, 1] = some (.truncated 5 5) := by decide

end Declaration

/-- Declarations and numbers are decoded from their encodings and from nothing else. -/
theorem canonical_keys :
    StoreKey.Canonical (Declaration Int32) Declaration.fault? ∧ StoreKey.Canonical Int32 Key.int32Fault? :=
  ⟨Declaration.canonical, canonical_int32⟩

end ClassDeps
