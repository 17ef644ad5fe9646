import Solpg.Std.Text
import Mathlib.Data.List.Nodup

/-!
# Base64

The URL-safe alphabet without padding. The bits that the last letter has left over have to be
zero, so a text that can be decoded is the only one of its bytes.
-/

namespace Solpg.Std.Base64

/-- Bytes in order. -/
abbrev Bytes := List UInt8

/-- The alphabet for texts that stand in a URL. -/
def letters : List Char :=
  "ABCDEFGHIJKLMNOPQRSTUVWXYZabcdefghijklmnopqrstuvwxyz0123456789-_".toList

/-- The letter of six bits. -/
def letter (value : Nat) : Char := (letters[value]?).getD 'A'

/-- The six bits of a letter. -/
def value (char : Char) : Option Nat := letters.idxOf? char

/-- Four letters for three bytes, without padding. -/
def encode : Bytes → Text
  | [] => []
  | [a] => [letter (a.toNat / 4), letter (a.toNat % 4 * 16)]
  | [a, b] =>
      [letter (a.toNat / 4), letter (a.toNat % 4 * 16 + b.toNat / 16), letter (b.toNat % 16 * 4)]
  | a :: b :: c :: rest =>
      letter (a.toNat / 4) :: letter (a.toNat % 4 * 16 + b.toNat / 16) ::
        letter (b.toNat % 16 * 4 + c.toNat / 64) :: letter (c.toNat % 64) :: encode rest

/-- The bytes of letters, if the unused bits are zero. -/
def decode : Text → Option Bytes
  | [] => some []
  | [_] => none
  | [w, x] => do
      let w ← value w
      let x ← value x
      if x % 16 = 0 then some [UInt8.ofNat (w * 4 + x / 16)] else none
  | [w, x, y] => do
      let w ← value w
      let x ← value x
      let y ← value y
      if y % 4 = 0 then some [UInt8.ofNat (w * 4 + x / 16), UInt8.ofNat (x % 16 * 16 + y / 4)]
      else none
  | w :: x :: y :: z :: rest => do
      let w ← value w
      let x ← value x
      let y ← value y
      let z ← value z
      let rest ← decode rest
      some (UInt8.ofNat (w * 4 + x / 16) :: UInt8.ofNat (x % 16 * 16 + y / 4) ::
        UInt8.ofNat (y % 4 * 64 + z) :: rest)

/-- No letter stands for two values. -/
theorem letters_nodup : letters.Nodup := by decide

/-- The letter of six bits has them for its value. -/
theorem value_letter {bits : Nat} (small : bits < 64) : value (letter bits) = some bits := by
  have inside : bits < letters.length := small
  rw [value, letter, List.getElem?_eq_getElem inside, Option.getD_some, List.idxOf?_eq_some_iff]
  refine ⟨inside, rfl, fun other before same => ?_⟩
  have := (List.Nodup.getElem_inj_iff letters_nodup).mp same
  omega

/-- A value is six bits, and their letter is the one that is read. -/
theorem letter_of_value {char : Char} {bits : Nat} (found : value char = some bits) :
    bits < 64 ∧ letter bits = char := by
  obtain ⟨inside, same, -⟩ := List.idxOf?_eq_some_iff.mp found
  refine ⟨inside, ?_⟩
  rw [letter, List.getElem?_eq_getElem inside, Option.getD_some, same]

/-- All letters are of the alphabet. -/
theorem letter_mem (bits : Nat) : letter bits ∈ letters := by
  rw [letter]
  cases found : letters[bits]? with
  | none => exact List.mem_cons_self
  | some char => exact List.mem_of_getElem? found

/-- A text has letters only. -/
theorem mem_letters_of_mem_encode {bytes : Bytes} {char : Char} (among : char ∈ encode bytes) :
    char ∈ letters := by
  induction bytes using encode.induct with
  | case1 => cases among
  | case2 a =>
      simp only [encode, List.mem_cons, List.not_mem_nil, or_false] at among
      rcases among with rfl | rfl <;> exact letter_mem _
  | case3 a b =>
      simp only [encode, List.mem_cons, List.not_mem_nil, or_false] at among
      rcases among with rfl | rfl | rfl <;> exact letter_mem _
  | case4 a b c rest ih =>
      simp only [encode, List.mem_cons] at among
      rcases among with rfl | rfl | rfl | rfl | later
      · exact letter_mem _
      · exact letter_mem _
      · exact letter_mem _
      · exact letter_mem _
      · exact ih later

/-- A byte is known by its number. -/
theorem ofNat_eq (byte : UInt8) {value : Nat} (same : value = byte.toNat) : UInt8.ofNat value = byte := by
  rw [same, UInt8.ofNat_toNat]

/-- What is encoded is decoded again. -/
theorem decode_encode (bytes : Bytes) : decode (encode bytes) = some bytes := by
  induction bytes using encode.induct with
  | case1 => rfl
  | case2 a =>
      have := a.toNat_lt
      rw [encode, decode, value_letter (by omega), value_letter (by omega)]
      simp only [Option.bind_eq_bind, Option.bind_some]
      rw [if_pos (by omega), ofNat_eq a (by omega)]
  | case3 a b =>
      have := a.toNat_lt
      have := b.toNat_lt
      rw [encode, decode, value_letter (by omega), value_letter (by omega), value_letter (by omega)]
      simp only [Option.bind_eq_bind, Option.bind_some]
      rw [if_pos (by omega), ofNat_eq a (by omega), ofNat_eq b (by omega)]
  | case4 a b c rest ih =>
      have := a.toNat_lt
      have := b.toNat_lt
      have := c.toNat_lt
      rw [encode, decode, value_letter (by omega), value_letter (by omega), value_letter (by omega),
        value_letter (by omega), ih]
      simp only [Option.bind_eq_bind, Option.bind_some]
      rw [ofNat_eq a (by omega), ofNat_eq b (by omega), ofNat_eq c (by omega)]

/-- What can be decoded is the text of its bytes. -/
theorem encode_of_decode {text : Text} {bytes : Bytes} (decoded : decode text = some bytes) :
    encode bytes = text := by
  have small : ∀ {bits : Nat}, bits < 256 → (UInt8.ofNat bits).toNat = bits := fun below =>
    UInt8.toNat_ofNat_of_lt' below
  induction text using decode.induct generalizing bytes with
  | case1 =>
      cases decoded
      rfl
  | case2 => cases decoded
  | case3 w x =>
      simp only [decode, Option.bind_eq_bind, Option.bind_eq_some_iff] at decoded
      obtain ⟨first, isFirst, second, isSecond, rest⟩ := decoded
      obtain ⟨firstSmall, rfl⟩ := letter_of_value isFirst
      obtain ⟨secondSmall, rfl⟩ := letter_of_value isSecond
      split at rest
      · cases rest
        rw [encode, small (by omega)]
        congr 2
        · omega
        · congr 1
          omega
      · cases rest
  | case4 w x y =>
      simp only [decode, Option.bind_eq_bind, Option.bind_eq_some_iff] at decoded
      obtain ⟨first, isFirst, second, isSecond, third, isThird, rest⟩ := decoded
      obtain ⟨firstSmall, rfl⟩ := letter_of_value isFirst
      obtain ⟨secondSmall, rfl⟩ := letter_of_value isSecond
      obtain ⟨thirdSmall, rfl⟩ := letter_of_value isThird
      split at rest
      · cases rest
        rw [encode, small (by omega), small (by omega)]
        have high : (first * 4 + second / 16) / 4 = first := by omega
        have middle : (first * 4 + second / 16) % 4 * 16 + (second % 16 * 16 + third / 4) / 16 =
          second := by omega
        have low : (second % 16 * 16 + third / 4) % 16 * 4 = third := by omega
        rw [high, middle, low]
      · cases rest
  | case5 w x y z rest ih =>
      simp only [decode, Option.bind_eq_bind, Option.bind_eq_some_iff] at decoded
      obtain ⟨first, isFirst, second, isSecond, third, isThird, fourth, isFourth, others, later,
        same⟩ := decoded
      obtain ⟨firstSmall, rfl⟩ := letter_of_value isFirst
      obtain ⟨secondSmall, rfl⟩ := letter_of_value isSecond
      obtain ⟨thirdSmall, rfl⟩ := letter_of_value isThird
      obtain ⟨fourthSmall, rfl⟩ := letter_of_value isFourth
      cases same
      rw [encode, small (by omega), small (by omega), small (by omega), ih later]
      have one : (first * 4 + second / 16) / 4 = first := by omega
      have two : (first * 4 + second / 16) % 4 * 16 + (second % 16 * 16 + third / 4) / 16 =
        second := by omega
      have three : (second % 16 * 16 + third / 4) % 16 * 4 + (third % 4 * 64 + fourth) / 64 =
        third := by omega
      have four : (third % 4 * 64 + fourth) % 64 = fourth := by omega
      rw [one, two, three, four]

end Solpg.Std.Base64
