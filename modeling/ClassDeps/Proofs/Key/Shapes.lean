import ClassDeps.Proofs.Key.Decoding
import Mathlib.Algebra.GroupWithZero.Nat

/-!
# Keys read by their shape

The shape of a key is the list of the kinds of its components. A reader takes a component off the bytes that are left,
or there are too few for one, and then it stays where it is. So the lengths alone decide whether all of a shape is read
up to the end of the bytes, and what is read then is what was written.

## Main definitions

* `Key.Kind`, `Kind.size` — what a component is, and how many bytes it takes
* `Key.Reading`, `Reader.perform` — reading in place, and what it leaves also when it fails
* `Key.Reader.read`, `readAll`, `reached` — reads of one component and of several by the same reader
* `Key.Reader.Within` — a reader that has not gone beyond the end
* `Key.Reader.Reads` — all reads succeed, and nothing is left

## Main statements

* `Reader.perform_tag`, `perform_int32` — reading in place is `tag` and `int32`, with the reader kept after a fault
* `Reader.read_cases` — what one read can do
* `Reader.Within.readAll` — no reads lead beyond the end
* `Reader.Within.reads_iff` — a shape is read from the encodings of components of these kinds and from nothing else
* `Reader.readAll_by_shape` — all that reading by a shape does
-/

namespace ClassDeps.Key

/-! ## Kinds of components -/

/-- What a component is, without its value. -/
inductive Kind where
  | tag
  | int32
  deriving DecidableEq

/-- How many bytes a component takes. -/
def Kind.size : Kind → Nat
  | tag => 1
  | int32 => 4

namespace Component

def kind : Component → Kind
  | tag _ => .tag
  | int32 _ => .int32

theorem length_toBytes (c : Component) : c.toBytes.length = c.kind.size := by
  cases c <;> rfl

/-- Components of one kind are told apart by their bytes, whatever comes after them. -/
theorem toBytes_append_inj {c d : Component} (hkind : c.kind = d.kind) {s t : Bytes}
    (h : c.toBytes ++ s = d.toBytes ++ t) : c = d ∧ s = t := by
  have hlength : c.toBytes.length = d.toBytes.length := by
    rw [length_toBytes, length_toBytes, hkind]
  obtain ⟨hbytes, htail⟩ := List.append_inj h hlength
  refine ⟨?_, htail⟩
  cases c <;> cases d
  case tag.tag => rw [(List.cons.inj hbytes).1]
  case int32.int32 => rw [Bytes.ofInt32_injective hbytes]
  all_goals cases hkind

/-- Enough bytes begin with a component of a kind. -/
theorem exists_of_size_le {kind : Kind} {bytes : Bytes} (h : kind.size ≤ bytes.length) :
    ∃ c : Component, ∃ tail, c.kind = kind ∧ bytes = c.toBytes ++ tail := by
  cases kind with
  | tag =>
    obtain ⟨b, tail, rfl⟩ := List.exists_cons_of_length_pos h
    exact ⟨tag b, tail, rfl, rfl⟩
  | int32 =>
    obtain ⟨x, tail, rfl⟩ := Reader.exists_int32 h
    exact ⟨int32 x, tail, rfl, rfl⟩

end Component

theorem encode_cons (c : Component) (components : List Component) :
    encode (c :: components) = c.toBytes ++ encode components := rfl

theorem length_encode (components : List Component) :
    (encode components).length = ((components.map Component.kind).map Kind.size).sum := by
  induction components with
  | nil => rfl
  | cons c components ih =>
    rw [encode_cons, List.length_append, Component.length_toBytes, ih, List.map_cons, List.map_cons, List.sum_cons]

/-- Bytes of the right number are the encoding of components of any kinds. -/
theorem exists_encode {kinds : List Kind} {bytes : Bytes} (h : (kinds.map Kind.size).sum = bytes.length) :
    ∃ components : List Component, components.map Component.kind = kinds ∧ encode components = bytes := by
  induction kinds generalizing bytes with
  | nil => exact ⟨[], rfl, (List.length_eq_zero_iff.1 h.symm).symm⟩
  | cons kind kinds ih =>
    rw [List.map_cons, List.sum_cons] at h
    have hfirst : kind.size ≤ bytes.length := by omega
    obtain ⟨c, tail, rfl, rfl⟩ := Component.exists_of_size_le hfirst
    rw [List.length_append, Component.length_toBytes] at h
    have htail : (kinds.map Kind.size).sum = tail.length := by omega
    obtain ⟨components, rfl, rfl⟩ := ih htail
    exact ⟨c :: components, rfl, rfl⟩

/-! ## Reading in place -/

/-- Reads from a key, which leave the reader where they have come to also when they fail. -/
abbrev Reading := ExceptT KeyFault (StateM Reader)

/-- The bytes from `start` up to `stop`, if they are all there. -/
def slice? (bytes : Bytes) (start stop : Nat) : Option Bytes :=
  if start ≤ stop ∧ stop ≤ bytes.length then some ((bytes.drop start).take (stop - start)) else none

namespace Reading

/-- Reads a tag and moves behind it. -/
def tag : Reading UInt8 := do
  let r ← getThe Reader
  match r.bytes[r.position]? with
  | none => throw .noTag
  | some value =>
    set (r.skip 1)
    return value

/-- Reads an integer and moves behind it. -/
def int32 : Reading Int32 := do
  let r ← getThe Reader
  let stop := r.position + 4
  match slice? r.bytes r.position stop with
  | some [a, b, c, d] =>
    set { r with position := stop }
    return Bytes.toInt32 a b c d
  -- There is no slice of four places with another number of bytes.
  | _ => throw (.truncated r.position r.bytes.length)

end Reading

/-- Some bytes from `start` on are there if they do not go beyond the end. -/
theorem slice?_add (bytes : Bytes) (start count : Nat) :
    slice? bytes start (start + count) =
      if start + count ≤ bytes.length then some ((bytes.drop start).take count) else none := by
  simp only [slice?, Nat.le_add_right, true_and, Nat.add_sub_cancel_left]

namespace Reader

variable {r : Reader} {tail : Bytes}

/-- What reading in place gives, and where it leaves the reader. -/
def perform {α : Type} (r : Reader) (reading : Reading α) : Except KeyFault α × Reader :=
  reading.run.run r

/-- What a read gives, and the reader after it, which is still there if the read fails. -/
def keep {α : Type} (r : Reader) : Except KeyFault (α × Reader) → Except KeyFault α × Reader
  | .ok (value, next) => (.ok value, next)
  | .error fault => (.error fault, r)

theorem perform_get_bind {α : Type} (r : Reader) (next : Reader → Reading α) :
    r.perform (getThe Reader >>= next) = r.perform (next r) := rfl

theorem perform_tag (r : Reader) : r.perform Reading.tag = r.keep r.tag := by
  rw [Reading.tag, perform_get_bind, ← List.head?_drop, tag, rest]
  cases r.bytes.drop r.position with
  | nil => rfl
  | cons b tail => rfl

theorem perform_int32 (r : Reader) : r.perform Reading.int32 = r.keep r.int32 := by
  rw [Reading.int32, perform_get_bind]
  simp only [slice?_add]
  have hlength : r.rest.length = r.bytes.length - r.position := List.length_drop
  by_cases hshort : r.rest.length < 4
  · rw [int32_of_short hshort, if_neg (by omega)]
    rfl
  · obtain ⟨x, tail, hrest⟩ := exists_int32 (Nat.le_of_not_lt hshort)
    have htake : (r.bytes.drop r.position).take 4 = Bytes.ofInt32 x := by
      change r.rest.take 4 = _
      rw [hrest]
      rfl
    obtain ⟨a, b, c, d, hx⟩ : ∃ a b c d, Bytes.ofInt32 x = [a, b, c, d] := ⟨_, _, _, _, rfl⟩
    rw [(int32_of_append hrest).1, if_pos (by omega), htake, hx, ← Bytes.ofInt32_eq_iff.1 hx]
    rfl

/-- Reads a component. -/
def read (r : Reader) : Kind → Except KeyFault Component × Reader
  | .tag => (r.perform Reading.tag).map (Except.map .tag) id
  | .int32 => (r.perform Reading.int32).map (Except.map .int32) id

/-- Why no component of a kind can be read where there are too few bytes for it. -/
def shortage (r : Reader) : Kind → KeyFault
  | .tag => .noTag
  | .int32 => .truncated r.position r.bytes.length

theorem read_of_append {c : Component} (h : r.rest = c.toBytes ++ tail) :
    r.read c.kind = (.ok c, r.skip c.kind.size) := by
  cases c with
  | tag value =>
    have htag : r.tag = .ok (value, r.skip 1) := by
      rw [tag, h]
      rfl
    rw [Component.kind, read, perform_tag, htag]
    rfl
  | int32 x =>
    rw [Component.kind, read, perform_int32, (int32_of_append h).1]
    rfl

theorem read_of_short {kind : Kind} (h : r.rest.length < kind.size) :
    r.read kind = (.error (r.shortage kind), r) := by
  cases kind with
  | tag =>
    have hrest : r.rest = [] := List.length_eq_zero_iff.1 (Nat.lt_one_iff.1 h)
    have htag : r.tag = .error .noTag := by
      rw [tag, hrest]
    rw [read, perform_tag, htag]
    rfl
  | int32 =>
    rw [read, perform_int32, int32_of_short h]
    rfl

/-- A component of the kind is taken off what is left, or too little is left and nothing happens. -/
theorem read_cases (r : Reader) (kind : Kind) :
    (∃ c : Component, ∃ tail, c.kind = kind ∧ r.rest = c.toBytes ++ tail ∧
        r.read kind = (.ok c, r.skip kind.size)) ∨
      (r.rest.length < kind.size ∧ r.read kind = (.error (r.shortage kind), r)) := by
  by_cases hshort : r.rest.length < kind.size
  · exact .inr ⟨hshort, read_of_short hshort⟩
  · obtain ⟨c, tail, rfl, hrest⟩ := Component.exists_of_size_le (Nat.le_of_not_lt hshort)
    exact .inl ⟨c, tail, rfl, hrest, read_of_append hrest⟩

/-! ## Positions -/

/-- A reader of some bytes that has not gone beyond their end. -/
structure Within (r : Reader) (bytes : Bytes) : Prop where
  bytes_eq : r.bytes = bytes
  position_le : r.position ≤ bytes.length

namespace Within

variable {bytes : Bytes}

theorem ofBytes (bytes : Bytes) : (ofBytes bytes).Within bytes :=
  ⟨rfl, Nat.zero_le _⟩

theorem length_rest (h : r.Within bytes) : r.position + r.rest.length = bytes.length := by
  have hle := h.position_le
  rw [rest, h.bytes_eq, List.length_drop]
  omega

theorem skip (h : r.Within bytes) {count : Nat} (hcount : count ≤ r.rest.length) : (r.skip count).Within bytes := by
  have hlength := h.length_rest
  exact ⟨h.bytes_eq, by simp only [Reader.skip]; omega⟩

theorem read (h : r.Within bytes) (kind : Kind) : (r.read kind).2.Within bytes := by
  obtain ⟨c, tail, rfl, hrest, hread⟩ | ⟨-, hread⟩ := r.read_cases kind
  · rw [hread]
    refine h.skip ?_
    rw [hrest, List.length_append, Component.length_toBytes]
    exact Nat.le_add_right _ _
  · rw [hread]
    exact h

/-- At the end there is nothing left, and before it the fault counts what is left. -/
theorem finish_eq (h : r.Within bytes) :
    r.finish = if r.rest = [] then .ok () else .error (.trailing r.rest.length) := by
  have hlength := h.length_rest
  have hend : r.position = bytes.length ↔ r.rest = [] := by
    rw [← List.length_eq_zero_iff]
    omega
  have hcount : bytes.length - r.position = r.rest.length := by omega
  simp only [finish, h.bytes_eq, hend, hcount]

end Within

/-! ## Several reads -/

/-- Reads of several kinds, one after the other, and after those that failed too. -/
def readAll (r : Reader) : List Kind → List (Except KeyFault Component) × Reader
  | [] => ([], r)
  | kind :: kinds =>
    let first := r.read kind
    let rest := first.2.readAll kinds
    (first.1 :: rest.1, rest.2)

theorem Within.readAll {bytes : Bytes} (h : r.Within bytes) (kinds : List Kind) :
    (r.readAll kinds).2.Within bytes := by
  induction kinds generalizing r with
  | nil => exact h
  | cons kind kinds ih => exact ih (h.read kind)

/-- All reads succeed, they give some components, and then nothing is left. -/
def Reads (r : Reader) (kinds : List Kind) (components : List Component) : Prop :=
  (r.readAll kinds).1 = components.map .ok ∧ (r.readAll kinds).2.finish = .ok ()

variable {kind : Kind} {kinds : List Kind} {c : Component} {components : List Component}

theorem reads_nil : r.Reads [] components ↔ components = [] ∧ r.finish = .ok () := by
  rw [Reads, readAll, eq_comm, List.map_eq_nil_iff]

theorem reads_cons_nil : ¬r.Reads (kind :: kinds) [] :=
  fun h => nomatch h.1

theorem reads_cons : r.Reads (kind :: kinds) (c :: components) ↔
    (r.read kind).1 = .ok c ∧ (r.read kind).2.Reads kinds components := by
  rw [Reads, readAll, List.map_cons, List.cons.injEq, and_assoc]
  rfl

/-- Reading to the end is the inverse of encoding. -/
theorem Within.reads_iff {bytes : Bytes} (h : r.Within bytes) :
    r.Reads kinds components ↔ components.map Component.kind = kinds ∧ encode components = r.rest := by
  -- On the shape. That the reader is within the bytes is what makes `finish` say that nothing is left.
  induction kinds generalizing r components with
  | nil =>
    rw [reads_nil, h.finish_eq, List.map_eq_nil_iff]
    refine and_congr_right ?_
    rintro rfl
    split
    · rename_i hend
      exact iff_of_true rfl hend.symm
    · rename_i hleft
      exact iff_of_false nofun fun hend => hleft hend.symm
  | cons kind kinds ih =>
    cases components with
    | nil => exact iff_of_false reads_cons_nil nofun
    | cons c components =>
      rw [reads_cons, encode_cons]
      obtain ⟨first, tail, rfl, hrest, hread⟩ | ⟨hshort, hread⟩ := r.read_cases kind
      · have hnext : (r.read first.kind).2.Reads kinds components ↔ _ := ih (h.read first.kind)
        rw [hread] at hnext ⊢
        have hskip : (r.skip first.kind.size).rest = tail := by
          rw [rest_skip, hrest, ← Component.length_toBytes, List.drop_left]
        rw [hnext, hskip, hrest, List.map_cons, List.cons.injEq]
        constructor
        · rintro ⟨hfirst, hkinds, rfl⟩
          cases hfirst
          exact ⟨⟨rfl, hkinds⟩, rfl⟩
        · rintro ⟨⟨hkind, hkinds⟩, hbytes⟩
          obtain ⟨rfl, htail⟩ := Component.toBytes_append_inj hkind hbytes
          exact ⟨rfl, hkinds, htail⟩
      · rw [hread]
        refine iff_of_false nofun fun ⟨hkinds, hbytes⟩ => ?_
        obtain ⟨rfl, -⟩ := List.cons.inj hkinds
        rw [← hbytes, List.length_append, Component.length_toBytes] at hshort
        omega

/-- The reader of some bytes after reads of several kinds. -/
def reached (bytes : Bytes) (kinds : List Kind) : Reader :=
  ((ofBytes bytes).readAll kinds).2

/-- After any reads the reader is in its bytes, stays where it is if one more read fails, and counts exactly what is
left. A shape is read up to the end if and only if it has the length of the bytes; these are then the encoding of what
was read, and what has been encoded is read again by its shape. -/
theorem readAll_by_shape (bytes : Bytes) (kinds : List Kind) :
    (reached bytes kinds).position ≤ bytes.length ∧
      (∀ kind fault, ((reached bytes kinds).read kind).1 = .error fault →
        ((reached bytes kinds).read kind).2 = reached bytes kinds) ∧
      (∀ count, (reached bytes kinds).finish = .error (.trailing count) →
        (reached bytes kinds).position + count = bytes.length) ∧
      ((∃ components, (ofBytes bytes).Reads kinds components) ↔ (kinds.map Kind.size).sum = bytes.length) ∧
      (∀ components, (ofBytes bytes).Reads kinds components → encode components = bytes) ∧
      ∀ components, (ofBytes (encode components)).Reads (components.map Component.kind) components := by
  have hreads (bytes : Bytes) (kinds : List Kind) (components : List Component) :
      (ofBytes bytes).Reads kinds components ↔ components.map Component.kind = kinds ∧ encode components = bytes :=
    (Within.ofBytes bytes).reads_iff
  have hreached : (reached bytes kinds).Within bytes := (Within.ofBytes bytes).readAll kinds
  refine ⟨hreached.position_le, fun kind fault hfault => ?_, fun count hcount => ?_, ?_, fun components h => ?_,
    fun components => (hreads _ _ _).2 ⟨rfl, rfl⟩⟩
  · obtain ⟨c, tail, -, -, hread⟩ | ⟨-, hread⟩ := (reached bytes kinds).read_cases kind
    · rw [hread] at hfault
      cases hfault
    · rw [hread]
  · rw [hreached.finish_eq] at hcount
    split at hcount
    · cases hcount
    · cases hcount
      exact hreached.length_rest
  · simp only [hreads]
    constructor
    · rintro ⟨components, rfl, rfl⟩
      exact (length_encode components).symm
    · exact exists_encode
  · exact ((hreads _ _ _).1 h).2

/-- A tag can still be read where an integer is cut off. -/
example : (ofBytes [2, 0, 7]).readAll [.tag, .int32, .tag] =
    ([.ok (.tag 2), .error (.truncated 1 3), .ok (.tag 0)], ⟨[2, 0, 7], 2⟩) := rfl

end Reader

end ClassDeps.Key
