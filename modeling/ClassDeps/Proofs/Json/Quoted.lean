import ClassDeps.Json.Quoted
import Mathlib.Data.Option.Basic

/-!
# Literals read back

Reading the literal of a byte string gives the byte string, whatever bytes it has and whatever follows the
closing quote.

## Main statements

* `Quoted.span?_encodeTail` — what is written is read
-/

namespace ClassDeps.Json.Quoted

/-- The control characters that have an escape of one letter. -/
def lettered : List UInt8 :=
  [8, 9, 10, 12, 13]

/-- The piece that a written byte is read as. -/
def piece (b : UInt8) : Piece :=
  if b < 32 ∧ b ∉ lettered then .unit b.toNat else .byte b

theorem hexDigit?_hexByte : ∀ n < 16, Bytes.hexDigit? (hexByte n) = some n := by
  decide

theorem unit?_escaped (n : Nat) (h : n < 256) :
    unit? 48 48 (hexByte (n / 16)) (hexByte (n % 16)) = some n := by
  have zero : Bytes.hexDigit? 48 = some 0 := by decide
  have high := hexDigit?_hexByte (n / 16) (by omega)
  have low := hexDigit?_hexByte (n % 16) (by omega)
  simp only [unit?, zero, high, low, Option.bind_eq_bind, Option.bind_some, Option.pure_def]
  congr 1
  omega

/-- A byte that is neither a quote nor a backslash nor a control character stands for itself. -/
theorem scan?_plain {b : UInt8} (hquote : b ≠ 34) (hslash : b ≠ 92) (hlow : ¬ b < 32) (rest : Bytes) :
    scan? (b :: rest) = (scan? rest).map fun read => (.byte b :: read.1, read.2) := by
  have h32 : 32 ≤ b := by simpa using hlow
  rw [scan?.eq_def]
  split
  -- The first four branches need a quote or a backslash in front.
  · simp_all
  · simp_all
  · simp_all
  · simp_all
  · rename_i heq
    obtain ⟨rfl, rfl⟩ := List.cons.inj heq
    cases scan? rest <;> simp [h32, hslash, guard]

theorem scan?_unit (b : UInt8) (rest : Bytes) :
    scan? (92 :: 117 :: 48 :: 48 :: hexByte (b.toNat / 16) :: hexByte (b.toNat % 16) :: rest) =
      (scan? rest).map fun read => (.unit b.toNat :: read.1, read.2) := by
  rw [scan?, unit?_escaped b.toNat b.toNat_lt]
  cases scan? rest <;> simp

theorem scan?_letter {letter b : UInt8} (h : unescape? letter = some b) (hu : letter ≠ 117)
    (rest : Bytes) :
    scan? (92 :: letter :: rest) = (scan? rest).map fun read => (.byte b :: read.1, read.2) := by
  rw [scan?.eq_def]
  split
  · simp_all
  · simp_all
  · simp_all
  · rename_i heq
    obtain ⟨-, heq⟩ := List.cons.inj heq
    obtain ⟨rfl, rfl⟩ := List.cons.inj heq
    rw [h]
    cases scan? rest <;> simp
  · rename_i hother heq
    obtain ⟨hslash, hrest⟩ := List.cons.inj heq
    exact absurd hrest.symm (hother letter rest hslash.symm)

/-- Each byte is read as one piece. -/
theorem scan?_escape (b : UInt8) (rest : Bytes) :
    scan? (escape b ++ rest) = (scan? rest).map fun read => (piece b :: read.1, read.2) := by
  unfold escape
  split
  -- All branches but the last write a letter behind a backslash.
  case h_8 hquote hslash h8 h9 h10 h12 h13 =>
    split
    · rename_i hlow
      have hpiece : piece b = .unit b.toNat := by simp_all [piece, lettered]
      rw [hpiece]
      exact scan?_unit b rest
    · rename_i hlow
      have hpiece : piece b = .byte b := by simp [piece, hlow]
      rw [hpiece]
      exact scan?_plain hquote hslash hlow rest
  all_goals exact scan?_letter rfl (by decide) rest

theorem scan?_encodeTail (b rest : Bytes) :
    scan? (encodeTail b ++ rest) = some (b.map piece, rest) := by
  induction b with
  | nil => simp [encodeTail, scan?]
  | cons x b ih =>
    have tail : encodeTail (x :: b) ++ rest = escape x ++ (encodeTail b ++ rest) := by
      simp [encodeTail]
    rw [tail, scan?_escape, ih]
    rfl

/-- A unit below the first halves of pairs is a byte of its own. -/
theorem assemble_unit {n : Nat} (h : n < 128) (rest : List Piece) :
    assemble (.unit n :: rest) = n.toUInt8 :: assemble rest := by
  have hbytes : codePointBytes n = [n.toUInt8] := by simp [codePointBytes, h]
  have hhigh : isHigh n = false := by simp [isHigh]; omega
  match rest with
  | [] => simp [assemble, hbytes]
  | .byte b :: rest => simp [assemble, hbytes]
  | .unit low :: rest => rw [assemble, hhigh, hbytes]; rfl

theorem assemble_pieces (b : Bytes) : assemble (b.map piece) = b := by
  induction b with
  | nil => rfl
  | cons x b ih =>
    rw [List.map_cons, piece]
    split
    · rename_i hlow
      -- A unit this small has no second half that the next piece could be taken for.
      have hsmall : x.toNat < 32 := UInt8.lt_iff_toNat_lt.1 hlow.1
      rw [assemble_unit (by omega), ih]
      simp
    · rw [assemble, ih]

/-- A literal is read back, and reading stops behind its closing quote. -/
theorem span?_encodeTail (b rest : Bytes) : span? (encodeTail b ++ rest) = some (b, rest) := by
  rw [span?, scan?_encodeTail]
  exact congrArg some (Prod.ext (assemble_pieces b) rfl)

end ClassDeps.Json.Quoted
