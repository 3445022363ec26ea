/-!
# Byte strings

Keys, stored values and file contents are finite sequences of octets. They are kept as lists, so that
they can be taken apart by recursion and compared by the lexicographic order of the core library.

## Main definitions

* `Bytes` — a byte string
* `Bytes.ofText`, `Bytes.toText?` — the UTF-8 form of a text and its partial inverse
* `Bytes.hexDigit?` — the digit that a byte stands for
* `Bytes.ofInt32`, `Bytes.toInt32` — four bytes of a two's complement integer, most significant first
-/

namespace ClassDeps

/-- A finite sequence of octets. -/
abbrev Bytes := List UInt8

namespace Bytes

/-- The UTF-8 encoding of a text. -/
def ofText (s : String) : Bytes :=
  s.toByteArray.data.toList

/-- The text whose UTF-8 encoding is `b`, if `b` is well-formed UTF-8. -/
def toText? (b : Bytes) : Option String :=
  if h : (ByteArray.mk b.toArray).IsValidUTF8 then some (.ofByteArray ⟨b.toArray⟩ h) else none

/-- Reading back an encoded text gives the text. -/
@[simp] theorem toText?_ofText (s : String) : toText? (ofText s) = some s := by
  have h : (ByteArray.mk (ofText s).toArray) = s.toByteArray := by simp [ofText]
  unfold toText?
  rw [dif_pos (h ▸ s.isValidUTF8)]
  exact congrArg some (String.toByteArray_inj.1 h)

/-- Only the encoding of a text reads as that text. -/
theorem ofText_of_toText? {b : Bytes} {s : String} (h : toText? b = some s) : ofText s = b := by
  unfold toText? at h
  split at h
  · cases h; simp [ofText]
  · cases h

theorem ofText_injective {s t : String} (h : ofText s = ofText t) : s = t := by
  have := congrArg toText? h
  simpa using this

/-- The hexadecimal digit that an ASCII byte stands for, in either case. -/
def hexDigit? (b : UInt8) : Option Nat :=
  let n := b.toNat
  if 48 ≤ n ∧ n < 58 then some (n - 48)
  else if 97 ≤ n ∧ n < 103 then some (n - 87)
  else if 65 ≤ n ∧ n < 71 then some (n - 55)
  else none

/-- The four bytes of `x` in two's complement, most significant byte first. -/
def ofInt32 (x : Int32) : Bytes :=
  let n := x.toUInt32.toNat
  [(n / 0x1000000).toUInt8, (n / 0x10000).toUInt8, (n / 0x100).toUInt8, n.toUInt8]

/-- The integer whose big-endian bytes are `a b c d`. -/
def toInt32 (a b c d : UInt8) : Int32 :=
  (UInt32.ofNat (((a.toNat * 256 + b.toNat) * 256 + c.toNat) * 256 + d.toNat)).toInt32

@[simp] theorem length_ofInt32 (x : Int32) : (ofInt32 x).length = 4 := rfl

/-- The bytes that make up an integer are its bytes. -/
@[simp] theorem ofInt32_toInt32 (a b c d : UInt8) : ofInt32 (toInt32 a b c d) = [a, b, c, d] := by
  have ha := a.toNat_lt
  have hb := b.toNat_lt
  have hc := c.toNat_lt
  have hd := d.toNat_lt
  simp only [ofInt32, toInt32, UInt32.toUInt32_toInt32, UInt32.toNat_ofNat', List.cons.injEq,
    ← UInt8.toNat_inj, Nat.toUInt8_eq, UInt8.toNat_ofNat', and_true]
  omega

/-- The bytes of an integer make it up again. -/
theorem ofInt32_eq_iff {x : Int32} {a b c d : UInt8} :
    ofInt32 x = [a, b, c, d] ↔ toInt32 a b c d = x := by
  constructor
  · intro h
    have hx := x.toUInt32.toNat_lt
    simp only [ofInt32, List.cons.injEq, and_true, ← UInt8.toNat_inj, Nat.toUInt8_eq,
      UInt8.toNat_ofNat'] at h
    have same : (toInt32 a b c d).toUInt32 = x.toUInt32 := by
      simp only [toInt32, UInt32.toUInt32_toInt32, ← UInt32.toNat_inj, UInt32.toNat_ofNat']
      omega
    simpa using congrArg UInt32.toInt32 same
  · rintro rfl
    simp

theorem ofInt32_injective {x y : Int32} (h : ofInt32 x = ofInt32 y) : x = y :=
  (ofInt32_eq_iff.1 h).symm.trans (ofInt32_eq_iff.1 rfl)

end Bytes

end ClassDeps
