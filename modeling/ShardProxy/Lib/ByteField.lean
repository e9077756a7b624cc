/-
Fixed-offset fields of a byte string: reading a slice, overwriting a slice in
place, and the big-endian unsigned integers kept in such slices.  Every fact
about an overwritten string goes through its byte at one position, so disjoint
fields need no separate argument for each pair of offsets.
-/
import Mathlib.Data.List.Basic
import Mathlib.Tactic

namespace ByteField

/-- A byte string, as a datagram or a payload carries it. -/
abbrev Bytes := List UInt8

/-- A byte array of a fixed length. -/
@[ext] structure FixedBytes (n : Nat) where
  bytes : Bytes
  size : bytes.length = n
deriving DecidableEq

def FixedBytes.zero (n : Nat) : FixedBytes n :=
  ⟨List.replicate n 0, List.length_replicate⟩

/-- Copy a slice into a zeroed array: what does not fit is cut off, what is
missing stays zero. -/
def FixedBytes.copy (n : Nat) (src : Bytes) : FixedBytes n :=
  ⟨src.takeD n 0, List.takeD_length n src 0⟩

@[simp] theorem FixedBytes.copy_bytes {n : Nat} (array : FixedBytes n) :
    FixedBytes.copy n array.bytes = array := by
  ext1
  have hsize := array.size
  simp only [FixedBytes.copy]
  rw [List.takeD_eq_take 0 (by omega), List.take_of_length_le (by omega)]

/-- The number a big-endian byte string spells. -/
def readNat (bytes : Bytes) : Nat :=
  bytes.foldl (fun value byte => value * 256 + byte.toNat) 0

/-- The low `width` bytes of a number, most significant first. -/
def spellNat : Nat → Nat → Bytes
  | 0, _ => []
  | width + 1, value => spellNat width (value / 256) ++ [UInt8.ofNat (value % 256)]

@[simp] theorem length_spellNat (width value : Nat) :
    (spellNat width value).length = width := by
  induction width generalizing value with
  | zero => rfl
  | succ width ih =>
      simp only [spellNat, List.length_append, ih, List.length_singleton]

theorem readNat_concat (bytes : Bytes) (byte : UInt8) :
    readNat (bytes ++ [byte]) = readNat bytes * 256 + byte.toNat := by
  simp only [readNat, List.foldl_append, List.foldl_cons, List.foldl_nil]

/-- Reading back what was spelt loses only what the width cannot hold. -/
theorem readNat_spellNat (width value : Nat) :
    readNat (spellNat width value) = value % 256 ^ width := by
  induction width generalizing value with
  | zero => simp [spellNat, readNat, Nat.mod_one]
  | succ width ih =>
      have hbyte : (UInt8.ofNat (value % 256)).toNat = value % 256 := by simp
      rw [spellNat, readNat_concat, ih, hbyte]
      have hsplit : value % (256 * 256 ^ width) =
          value % 256 + 256 * (value / 256 % 256 ^ width) := Nat.mod_mul
      rw [pow_succ, Nat.mul_comm (256 ^ width) 256, hsplit]
      omega

/-- The `width` bytes at offset `off`. -/
def field (raw : Bytes) (off width : Nat) : Bytes :=
  (raw.drop off).take width

/-- Overwrite the bytes at offset `off` with `value`, in place. -/
def overwrite (raw : Bytes) (off : Nat) (value : Bytes) : Bytes :=
  raw.take off ++ value ++ raw.drop (off + value.length)

theorem getElem?_field (raw : Bytes) (off width i : Nat) :
    (field raw off width)[i]? = if i < width then raw[off + i]? else none := by
  simp only [field, List.getElem?_take, List.getElem?_drop]

theorem field_append_left {raw : Bytes} {off width : Nat} (hfit : off + width ≤ raw.length)
    (rest : Bytes) : field (raw ++ rest) off width = field raw off width := by
  rw [field, field, List.drop_append_of_le_length (by omega), List.take_append_of_le_length]
  rw [List.length_drop]
  omega

theorem length_overwrite (raw : Bytes) (off : Nat) (value : Bytes)
    (hfit : off + value.length ≤ raw.length) :
    (overwrite raw off value).length = raw.length := by
  simp only [overwrite, List.length_append, List.length_take, List.length_drop]
  omega

/-- An overwritten string, one position at a time: the new bytes inside the
field and the old ones everywhere else. -/
theorem getElem?_overwrite (raw : Bytes) (off : Nat) (value : Bytes)
    (hfit : off + value.length ≤ raw.length) (i : Nat) :
    (overwrite raw off value)[i]? =
      if off ≤ i ∧ i < off + value.length then value[i - off]? else raw[i]? := by
  have htake : (raw.take off).length = off := by
    rw [List.length_take]
    omega
  by_cases hbefore : i < off
  · have hin : ¬ (off ≤ i ∧ i < off + value.length) := by omega
    rw [overwrite, List.append_assoc, List.getElem?_append_left (by omega),
      List.getElem?_take_of_lt hbefore, if_neg hin]
  · rw [overwrite, List.append_assoc, List.getElem?_append_right (by omega),
      htake]
    by_cases hinside : i < off + value.length
    · rw [List.getElem?_append_left (by omega), if_pos ⟨by omega, hinside⟩]
    · have hin : ¬ (off ≤ i ∧ i < off + value.length) := by omega
      rw [List.getElem?_append_right (by omega), List.getElem?_drop,
        if_neg hin]
      congr 1
      omega

theorem field_overwrite_self (raw : Bytes) (off : Nat) (value : Bytes)
    (hfit : off + value.length ≤ raw.length) :
    field (overwrite raw off value) off value.length = value := by
  apply List.ext_getElem?
  intro i
  rw [getElem?_field, getElem?_overwrite raw off value hfit]
  by_cases hi : i < value.length
  · rw [if_pos hi, if_pos ⟨by omega, by omega⟩, Nat.add_sub_cancel_left]
  · rw [if_neg hi, List.getElem?_eq_none (Nat.le_of_not_lt hi)]

/-- Overwriting one field leaves every field disjoint from it alone. -/
theorem field_overwrite_of_disjoint (raw : Bytes) {off other width : Nat}
    {value : Bytes} (hfit : off + value.length ≤ raw.length)
    (hdisjoint : other + width ≤ off ∨ off + value.length ≤ other) :
    field (overwrite raw off value) other width = field raw other width := by
  apply List.ext_getElem?
  intro i
  rw [getElem?_field, getElem?_field]
  by_cases hi : i < width
  · have hout : ¬ (off ≤ other + i ∧ other + i < off + value.length) := by omega
    rw [if_pos hi, if_pos hi, getElem?_overwrite raw off value hfit, if_neg hout]
  · rw [if_neg hi, if_neg hi]

theorem overwrite_overwrite_self (raw : Bytes) {off : Nat} {old new : Bytes}
    (hfit : off + old.length ≤ raw.length) (hsame : new.length = old.length) :
    overwrite (overwrite raw off old) off new = overwrite raw off new := by
  apply List.ext_getElem?
  intro i
  have hlen := length_overwrite raw off old hfit
  rw [getElem?_overwrite _ off new (by omega), getElem?_overwrite raw off new
    (by omega), getElem?_overwrite raw off old hfit, hsame]
  by_cases hin : off ≤ i ∧ i < off + old.length
  · rw [if_pos hin, if_pos hin]
  · rw [if_neg hin, if_neg hin, if_neg hin]

theorem getElem?_set (raw : Bytes) (pos : Nat) (byte : UInt8) (i : Nat)
    (hne : i ≠ pos) : (raw.set pos byte)[i]? = raw[i]? :=
  List.getElem?_set_ne (Ne.symm hne)

theorem field_set_of_disjoint (raw : Bytes) {pos off width : Nat} (byte : UInt8)
    (hdisjoint : pos < off ∨ off + width ≤ pos) :
    field (raw.set pos byte) off width = field raw off width := by
  apply List.ext_getElem?
  intro i
  rw [getElem?_field, getElem?_field]
  by_cases hi : i < width
  · rw [if_pos hi, if_pos hi, getElem?_set raw pos byte _ (by omega)]
  · rw [if_neg hi, if_neg hi]

/-- A byte ahead of a field may be set before or after it is overwritten. -/
theorem set_overwrite (raw : Bytes) {pos off : Nat} (byte : UInt8) {value : Bytes}
    (hpos : pos < off) (hfit : off + value.length ≤ raw.length) :
    (overwrite raw off value).set pos byte = overwrite (raw.set pos byte) off value := by
  have htake : pos < (raw.take off).length := by
    rw [List.length_take]
    omega
  rw [overwrite, overwrite, List.append_assoc, List.set_append_left _ _ htake, List.take_set,
    List.drop_set_of_lt (by omega), List.append_assoc]

/-- The byte at a position, zero past the end. -/
def byteAt (raw : Bytes) (pos : Nat) : UInt8 :=
  raw.getD pos 0

theorem byteAt_append_left {raw : Bytes} {pos : Nat} (hpos : pos < raw.length) (rest : Bytes) :
    byteAt (raw ++ rest) pos = byteAt raw pos := by
  simp only [byteAt, List.getD_eq_getElem?_getD, List.getElem?_append_left hpos]

theorem byteAt_overwrite_of_disjoint (raw : Bytes) {off pos : Nat} {value : Bytes}
    (hfit : off + value.length ≤ raw.length)
    (hout : pos < off ∨ off + value.length ≤ pos) :
    byteAt (overwrite raw off value) pos = byteAt raw pos := by
  have hin : ¬ (off ≤ pos ∧ pos < off + value.length) := by omega
  simp only [byteAt, List.getD_eq_getElem?_getD, getElem?_overwrite raw off value hfit,
    hin, ↓reduceIte]

theorem byteAt_set_self (raw : Bytes) {pos : Nat} (byte : UInt8)
    (hpos : pos < raw.length) : byteAt (raw.set pos byte) pos = byte := by
  simp [byteAt, hpos]

theorem byteAt_set_ne (raw : Bytes) {pos other : Nat} (byte : UInt8)
    (hne : other ≠ pos) : byteAt (raw.set pos byte) other = byteAt raw other := by
  simp only [byteAt, List.getD_eq_getElem?_getD, getElem?_set raw pos byte other hne]

/-- Part `i` of a layout is the field at the length of the parts before it. -/
theorem field_flatten {parts : List Bytes} (i : Nat) {part : Bytes} {off width : Nat}
    (hpart : parts[i]? = some part) (hoff : (parts.take i).flatten.length = off)
    (hwidth : part.length = width) : field parts.flatten off width = part := by
  subst hoff hwidth
  obtain ⟨hi, rfl⟩ := List.getElem?_eq_some_iff.mp hpart
  have hsplit := List.take_append_drop i parts
  rw [List.drop_eq_getElem_cons hi] at hsplit
  have hflatten : parts.flatten =
      (parts.take i).flatten ++ (parts[i] ++ (parts.drop (i + 1)).flatten) := by
    rw [← List.flatten_cons, ← List.flatten_append, hsplit]
  rw [field, hflatten, List.drop_left, List.take_left]

theorem readNat_flatten {parts : List Bytes} (i : Nat) {value width off : Nat}
    (hpart : parts[i]? = some (spellNat width value))
    (hoff : (parts.take i).flatten.length = off) :
    readNat (field parts.flatten off width) = value % 256 ^ width := by
  rw [field_flatten i hpart hoff (length_spellNat width value), readNat_spellNat]

/-- The big-endian unsigned integers at an offset. -/
def uint16At (raw : Bytes) (off : Nat) : UInt16 :=
  UInt16.ofNat (readNat (field raw off 2))

def uint32At (raw : Bytes) (off : Nat) : UInt32 :=
  UInt32.ofNat (readNat (field raw off 4))

def uint64At (raw : Bytes) (off : Nat) : UInt64 :=
  UInt64.ofNat (readNat (field raw off 8))

theorem uint32At_append_left {raw : Bytes} {off : Nat} (hfit : off + 4 ≤ raw.length)
    (rest : Bytes) : uint32At (raw ++ rest) off = uint32At raw off := by
  rw [uint32At, field_append_left hfit]
  rfl

theorem uint16At_flatten {parts : List Bytes} (i : Nat) {value : UInt16} {off : Nat}
    (hpart : parts[i]? = some (spellNat 2 value.toNat))
    (hoff : (parts.take i).flatten.length = off) : uint16At parts.flatten off = value := by
  have hlt : value.toNat < 256 ^ 2 := value.toNat_lt
  rw [uint16At, readNat_flatten i hpart hoff, Nat.mod_eq_of_lt hlt, UInt16.ofNat_toNat]

theorem uint32At_flatten {parts : List Bytes} (i : Nat) {value : UInt32} {off : Nat}
    (hpart : parts[i]? = some (spellNat 4 value.toNat))
    (hoff : (parts.take i).flatten.length = off) : uint32At parts.flatten off = value := by
  have hlt : value.toNat < 256 ^ 4 := value.toNat_lt
  rw [uint32At, readNat_flatten i hpart hoff, Nat.mod_eq_of_lt hlt, UInt32.ofNat_toNat]

theorem uint64At_flatten {parts : List Bytes} (i : Nat) {value : UInt64} {off : Nat}
    (hpart : parts[i]? = some (spellNat 8 value.toNat))
    (hoff : (parts.take i).flatten.length = off) : uint64At parts.flatten off = value := by
  have hlt : value.toNat < 256 ^ 8 := value.toNat_lt
  rw [uint64At, readNat_flatten i hpart hoff, Nat.mod_eq_of_lt hlt, UInt64.ofNat_toNat]

/-- Write a big-endian 64-bit integer at an offset. -/
def putUint64 (raw : Bytes) (off : Nat) (value : UInt64) : Bytes :=
  overwrite raw off (spellNat 8 value.toNat)

@[simp] theorem length_putUint64 (raw : Bytes) {off : Nat} (value : UInt64)
    (hfit : off + 8 ≤ raw.length) :
    (putUint64 raw off value).length = raw.length :=
  length_overwrite raw off _ (by simpa using hfit)

theorem uint64At_putUint64_self (raw : Bytes) {off : Nat} (value : UInt64)
    (hfit : off + 8 ≤ raw.length) : uint64At (putUint64 raw off value) off = value := by
  have hself := field_overwrite_self raw off (spellNat 8 value.toNat)
    (by simpa using hfit)
  rw [length_spellNat] at hself
  have hlt : value.toNat < 256 ^ 8 := value.toNat_lt
  rw [uint64At, putUint64, hself, readNat_spellNat, Nat.mod_eq_of_lt hlt]
  exact UInt64.ofNat_toNat

theorem field_putUint64_of_disjoint (raw : Bytes) {off other width : Nat}
    (value : UInt64) (hfit : off + 8 ≤ raw.length)
    (hdisjoint : other + width ≤ off ∨ off + 8 ≤ other) :
    field (putUint64 raw off value) other width = field raw other width :=
  field_overwrite_of_disjoint raw (by simpa using hfit) (by simpa using hdisjoint)

theorem uint64At_putUint64_of_disjoint (raw : Bytes) {off other : Nat}
    (value : UInt64) (hfit : off + 8 ≤ raw.length)
    (hdisjoint : other + 8 ≤ off ∨ off + 8 ≤ other) :
    uint64At (putUint64 raw off value) other = uint64At raw other := by
  rw [uint64At, uint64At, field_putUint64_of_disjoint raw value hfit hdisjoint]

theorem byteAt_putUint64_of_disjoint (raw : Bytes) {off pos : Nat} (value : UInt64)
    (hfit : off + 8 ≤ raw.length) (hout : pos < off ∨ off + 8 ≤ pos) :
    byteAt (putUint64 raw off value) pos = byteAt raw pos :=
  byteAt_overwrite_of_disjoint raw (by simpa using hfit) (by simpa using hout)

theorem putUint64_putUint64_self (raw : Bytes) {off : Nat} (old new : UInt64)
    (hfit : off + 8 ≤ raw.length) :
    putUint64 (putUint64 raw off old) off new = putUint64 raw off new :=
  overwrite_overwrite_self raw (by simpa using hfit) (by simp)

theorem set_putUint64 (raw : Bytes) {pos off : Nat} (byte : UInt8) (value : UInt64)
    (hpos : pos < off) (hfit : off + 8 ≤ raw.length) :
    (putUint64 raw off value).set pos byte = putUint64 (raw.set pos byte) off value :=
  set_overwrite raw byte hpos (by simpa using hfit)

theorem uint64At_set_of_disjoint (raw : Bytes) {pos off : Nat} (byte : UInt8)
    (hdisjoint : pos < off ∨ off + 8 ≤ pos) :
    uint64At (raw.set pos byte) off = uint64At raw off := by
  rw [uint64At, uint64At, field_set_of_disjoint raw byte hdisjoint]

end ByteField
