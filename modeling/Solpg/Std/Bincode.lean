import Mathlib.Data.Vector.Basic
import Mathlib.Logic.Equiv.Defs

/-!
# Binary codecs

The part of the `bincode` format that fixed-size states use: integers in little
endian, arrays without a length, and enumerations behind a `u32` tag. A `Codec`
carries the proof that it reads back what it writes, also in front of other
bytes, so every codec that is built from these reads back what it writes.
-/

namespace Solpg.Std

/-- How values are written, and read from the front of a byte sequence. -/
structure Codec (α : Type) where
  write : α → List UInt8
  read : List UInt8 → Option (α × List UInt8)
  read_write : ∀ value rest, read (write value ++ rest) = some (value, rest)

namespace Codec

variable {α β : Type}

/-- `bincode::deserialize`: trailing bytes are allowed. -/
def deserialize (codec : Codec α) (bytes : List UInt8) : Option α :=
  (codec.read bytes).map Prod.fst

/-- What is written is read again, whatever follows. -/
theorem deserialize_write (codec : Codec α) (value : α) (rest : List UInt8) :
    codec.deserialize (codec.write value ++ rest) = some value := by
  rw [deserialize, codec.read_write, Option.map_some]

/-- The value of a type without contents. -/
def unit : Codec Unit where
  write _ := []
  read bytes := some ((), bytes)
  read_write _ _ := rfl

/-- An array of bytes. -/
def array (count : Nat) : Codec (Vector UInt8 count) where
  write value := value.toList
  read bytes :=
    if enough : count ≤ bytes.length then
      some (⟨(bytes.take count).toArray, by simp [enough]⟩, bytes.drop count)
    else none
  read_write value rest := by
    have length : value.toList.length = count := by simp
    have front : (value.toList ++ rest).take count = value.toList := List.take_left' length
    have back : (value.toList ++ rest).drop count = rest := List.drop_left' length
    rw [dif_pos (by simp)]
    simp only [front, back]
    rfl

/-- The bytes of a number, least significant first. -/
def littleEndianBytes : (count number : Nat) → List UInt8
  | 0, _ => []
  | count + 1, number => UInt8.ofNat number :: littleEndianBytes count (number / 256)

/-- The number of bytes, the lowest first. -/
def ofLittleEndianBytes : List UInt8 → Nat
  | [] => 0
  | byte :: rest => byte.toNat + 256 * ofLittleEndianBytes rest

/-- A number is written with as many bytes as there should be. -/
@[simp] theorem length_littleEndianBytes (count number : Nat) :
    (littleEndianBytes count number).length = count := by
  induction count generalizing number with
  | zero => rfl
  | succ count ih => simp [littleEndianBytes, ih]

/-- A number that fits is read again. -/
theorem ofLittleEndianBytes_littleEndianBytes {count number : Nat} (fits : number < 256 ^ count) :
    ofLittleEndianBytes (littleEndianBytes count number) = number := by
  induction count generalizing number with
  | zero =>
      have zero : number = 0 := by simpa using fits
      rw [zero]
      rfl
  | succ count ih =>
      have rest : number / 256 < 256 ^ count := by
        rw [Nat.div_lt_iff_lt_mul (by omega), ← Nat.pow_succ]
        exact fits
      have low : (UInt8.ofNat number).toNat = number % 256 := by simp
      rw [littleEndianBytes, ofLittleEndianBytes, ih rest, low]
      omega

/-- The number of some bytes fits into them. -/
theorem ofLittleEndianBytes_lt (bytes : List UInt8) :
    ofLittleEndianBytes bytes < 256 ^ bytes.length := by
  induction bytes with
  | nil => simp [ofLittleEndianBytes]
  | cons byte rest ih =>
      have low : byte.toNat < 256 := byte.toNat_lt
      rw [ofLittleEndianBytes, List.length_cons, Nat.pow_succ]
      omega

/-- A `u32`, which is also the tag of an enumeration. -/
def u32 : Codec UInt32 where
  write value := littleEndianBytes 4 value.toNat
  read bytes :=
    if 4 ≤ bytes.length then
      some (UInt32.ofNat (ofLittleEndianBytes (bytes.take 4)), bytes.drop 4)
    else none
  read_write value rest := by
    have fits : value.toNat < 256 ^ 4 := value.toNat_lt
    rw [if_pos (by simp), List.take_left' (by simp), List.drop_left' (by simp),
      ofLittleEndianBytes_littleEndianBytes fits, UInt32.ofNat_toNat]

/-- Eight bytes, the lowest first. -/
def u64 : Codec UInt64 where
  write value := littleEndianBytes 8 value.toNat
  read bytes :=
    if 8 ≤ bytes.length then
      some (UInt64.ofNat (ofLittleEndianBytes (bytes.take 8)), bytes.drop 8)
    else none
  read_write value rest := by
    have fits : value.toNat < 256 ^ 8 := value.toNat_lt
    rw [if_pos (by simp), List.take_left' (by simp), List.drop_left' (by simp),
      ofLittleEndianBytes_littleEndianBytes fits, UInt64.ofNat_toNat]

/-- One value after the other. -/
def pair (first : Codec α) (second : Codec β) : Codec (α × β) where
  write value := first.write value.1 ++ second.write value.2
  read bytes := do
    let (left, rest) ← first.read bytes
    let (right, rest) ← second.read rest
    return ((left, right), rest)
  read_write value rest := by
    simp [List.append_assoc, first.read_write, second.read_write]

/-- An enumeration of two variants, numbered 0 and 1. Any other tag is an error. -/
def either (first : Codec α) (second : Codec β) : Codec (α ⊕ β) where
  write
    | .inl value => u32.write 0 ++ first.write value
    | .inr value => u32.write 1 ++ second.write value
  read bytes := do
    let (tag, rest) ← u32.read bytes
    if tag = 0 then
      let (value, rest) ← first.read rest
      return (.inl value, rest)
    else if tag = 1 then
      let (value, rest) ← second.read rest
      return (.inr value, rest)
    else none
  read_write value rest := by
    cases value with
    | inl value => simp [List.append_assoc, u32.read_write, first.read_write]
    | inr value => simp [List.append_assoc, u32.read_write, second.read_write]

/-- The same bytes, for a type with the same values. -/
def ofEquiv (codec : Codec α) (equiv : α ≃ β) : Codec β where
  write value := codec.write (equiv.symm value)
  read bytes := (codec.read bytes).map fun (value, rest) => (equiv value, rest)
  read_write value rest := by simp [codec.read_write]

/-- What is read of an enumeration is behind the tag of its variant. -/
theorem of_read_either {first : Codec α} {second : Codec β} {bytes rest : List UInt8}
    {value : α ⊕ β} (read : (first.either second).read bytes = some (value, rest)) :
    ∃ tag others, u32.read bytes = some (tag, others) ∧
      ((∃ left, value = .inl left ∧ tag = 0 ∧ first.read others = some (left, rest)) ∨
        ∃ right, value = .inr right ∧ tag = 1 ∧ second.read others = some (right, rest)) := by
  simp only [either, Option.bind_eq_bind, Option.bind_eq_some_iff] at read
  obtain ⟨⟨tag, others⟩, tagged, read⟩ := read
  refine ⟨tag, others, tagged, ?_⟩
  simp only at read
  split at read
  next zero =>
    obtain ⟨⟨left, after⟩, found, same⟩ := Option.bind_eq_some_iff.mp read
    cases same
    exact .inl ⟨left, rfl, zero, found⟩
  next =>
    split at read
    next one =>
      obtain ⟨⟨right, after⟩, found, same⟩ := Option.bind_eq_some_iff.mp read
      cases same
      exact .inr ⟨right, rfl, one, found⟩
    next => cases read

/-- What is read through an equivalence is read by the codec. -/
theorem of_read_ofEquiv {codec : Codec α} {equiv : α ≃ β} {bytes rest : List UInt8} {value : β}
    (read : (codec.ofEquiv equiv).read bytes = some (value, rest)) :
    codec.read bytes = some (equiv.symm value, rest) := by
  obtain ⟨⟨inner, after⟩, found, same⟩ := Option.map_eq_some_iff.mp read
  cases same
  rw [found, equiv.symm_apply_apply]

/-- A number that is read stands in the first four bytes. -/
theorem of_read_u32 {bytes rest : List UInt8} {value : UInt32}
    (read : u32.read bytes = some (value, rest)) :
    4 ≤ bytes.length ∧ value.toNat = ofLittleEndianBytes (bytes.take 4) ∧
      rest = bytes.drop 4 := by
  simp only [u32] at read
  split at read
  next enough =>
    cases read
    refine ⟨enough, UInt32.toNat_ofNat_of_lt ?_, rfl⟩
    have small := ofLittleEndianBytes_lt (bytes.take 4)
    rw [List.length_take, Nat.min_eq_left enough] at small
    exact small
  next => cases read

end Codec
end Solpg.Std
