import Solpg.Std.Text

/-!
# UUIDs

The formats that a UUID is read from, and the two of them that it is written in.
-/

namespace Solpg.Std

/-- Sixteen bytes. -/
structure Uuid where
  bytes : List UInt8
  length_bytes : bytes.length = 16
  deriving DecidableEq

namespace Uuid

/-- A byte as two digits. -/
def hexByte (byte : UInt8) : Text := [Nat.digitChar (byte.toNat / 16), Nat.digitChar (byte.toNat % 16)]

/-- `simple`: all digits without anything between them. -/
def simple (id : Uuid) : Text := id.bytes.flatMap hexByte

/-- Digits with hyphens between their groups. -/
def hyphenate (digits : Text) : Text :=
  digits.take 8 ++ '-' :: ((digits.drop 8).take 4 ++ '-' :: ((digits.drop 12).take 4 ++
    '-' :: ((digits.drop 16).take 4 ++ '-' :: digits.drop 20)))

/-- `hyphenated`, which is also `to_string`. -/
def hyphenated (id : Uuid) : Text := hyphenate id.simple

/-- The value of a hexadecimal digit. -/
def hexValue (char : Char) : Option Nat :=
  if char.isDigit then some (char.toNat - '0'.toNat)
  else if 'a' ≤ char ∧ char ≤ 'f' then some (char.toNat - 'a'.toNat + 10)
  else if 'A' ≤ char ∧ char ≤ 'F' then some (char.toNat - 'A'.toNat + 10)
  else none

/-- The bytes of pairs of digits. -/
def hexBytes : Text → Option (List UInt8)
  | [] => some []
  | [_] => none
  | high :: low :: rest => do
      let high ← hexValue high
      let low ← hexValue low
      let rest ← hexBytes rest
      some (UInt8.ofNat (16 * high + low) :: rest)

/-- A UUID without hyphens. -/
def parseSimple (text : Text) : Option Uuid :=
  (hexBytes text).bind fun bytes =>
    if length_bytes : bytes.length = 16 then some ⟨bytes, length_bytes⟩ else none

/-- The digits with hyphens between their groups. -/
def parseHyphenated (text : Text) : Option Uuid :=
  if [8, 13, 18, 23].all fun index => text[index]? = some '-' then
    parseSimple (text.take 8 ++ (text.drop 9).take 4 ++ (text.drop 14).take 4 ++
      (text.drop 19).take 4 ++ text.drop 24)
  else none

/-- `parse_str`. The digits can also be in braces or behind the name of their namespace. -/
def parseStr (text : Text) : Option Uuid :=
  if text.length = 32 then parseSimple text
  else if text.length = 36 then parseHyphenated text
  else if text.length = 38 ∧ text.head? = some '\x7b' ∧ text.getLast? = some '\x7d' then
    parseHyphenated (text.drop 1).dropLast
  else if text.length = 45 ∧ text.startsWith "urn:uuid:".toList then parseHyphenated (text.drop 9)
  else none

/-- The value of a digit is what it was written for. -/
theorem hexValue_digitChar : ∀ value < 16, hexValue (Nat.digitChar value) = some value := by decide

/-- Bytes are read back from their digits. -/
theorem hexBytes_flatMap (bytes : List UInt8) : hexBytes (bytes.flatMap hexByte) = some bytes := by
  induction bytes with
  | nil => rfl
  | cons byte rest ih =>
      have small := byte.toNat_lt
      have high : byte.toNat / 16 < 16 := by omega
      have low : byte.toNat % 16 < 16 := by omega
      have joined : 16 * (byte.toNat / 16) + byte.toNat % 16 = byte.toNat := Nat.div_add_mod _ _
      simp only [List.flatMap_cons, hexByte, List.cons_append, List.nil_append, hexBytes, ih,
        hexValue_digitChar _ high, hexValue_digitChar _ low, Option.bind_eq_bind, Option.bind_some,
        joined, UInt8.ofNat_toNat]

/-- Each byte has two digits. -/
theorem length_flatMap_hexByte (bytes : List UInt8) :
    (bytes.flatMap hexByte).length = 2 * bytes.length := by
  induction bytes with
  | nil => rfl
  | cons byte rest ih =>
      rw [List.flatMap_cons, List.length_append, ih, List.length_cons]
      simp only [hexByte, List.length_cons, List.length_nil]
      omega

@[simp] theorem length_simple (id : Uuid) : id.simple.length = 32 := by
  rw [simple, length_flatMap_hexByte, id.length_bytes]

@[simp] theorem parseSimple_simple (id : Uuid) : parseSimple id.simple = some id := by
  rw [parseSimple, simple, hexBytes_flatMap, Option.bind_some, dif_pos id.length_bytes]

/-- The simple form is read back. -/
@[simp] theorem parseStr_simple (id : Uuid) : parseStr id.simple = some id := by
  rw [parseStr, if_pos id.length_simple, parseSimple_simple]

/-- Behind a group and its mark comes the rest. -/
theorem drop_group {group rest : Text} {mark : Char} {size : Nat} (length : group.length = size) :
    (group ++ mark :: rest).drop (size + 1) = rest := by
  rw [← List.drop_drop, List.drop_left' length, List.drop_one, List.tail_cons]

/-- The hyphens are where they are looked for, and the digits between them. -/
theorem parseHyphenated_hyphenate {digits : Text} (length : digits.length = 32) :
    parseHyphenated (hyphenate digits) = parseSimple digits := by
  have first : (digits.take 8).length = 8 := by simp [length]
  have second : ((digits.drop 8).take 4).length = 4 := by simp [length]
  have third : ((digits.drop 12).take 4).length = 4 := by simp [length]
  have fourth : ((digits.drop 16).take 4).length = 4 := by simp [length]
  have behindFirst : (hyphenate digits).drop 9 = _ := drop_group first
  have next (start : Nat) : (hyphenate digits).drop (start + 5) =
      ((hyphenate digits).drop start).drop 5 := List.drop_drop.symm
  have behindSecond := (next 9).trans ((congrArg _ behindFirst).trans (drop_group second))
  have behindThird := (next 14).trans ((congrArg _ behindSecond).trans (drop_group third))
  have behindFourth := (next 19).trans ((congrArg _ behindThird).trans (drop_group fourth))
  have hyphens : [8, 13, 18, 23].all (fun index => (hyphenate digits)[index]? = some '-') = true := by
    simp [hyphenate, List.getElem?_append, length]
  have whole : digits.take 8 ++ (digits.drop 8).take 4 ++ (digits.drop 12).take 4 ++
      (digits.drop 16).take 4 ++ digits.drop 20 = digits := by
    have join (start : Nat) : (digits.drop start).take 4 ++ digits.drop (start + 4) =
        digits.drop start := by rw [← List.drop_drop, List.take_append_drop]
    simp only [List.append_assoc, join, List.take_append_drop]
  rw [parseHyphenated, if_pos hyphens, behindFirst, behindSecond, behindThird, behindFourth,
    List.take_left' second, List.take_left' third, List.take_left' fourth, hyphenate,
    List.take_left' first, whole]

/-- The hyphenated form is read back. -/
@[simp] theorem parseStr_hyphenated (id : Uuid) : parseStr id.hyphenated = some id := by
  have length : id.hyphenated.length = 36 := by
    simp [hyphenated, hyphenate]
  rw [parseStr, if_neg (by omega), if_pos length, hyphenated,
    parseHyphenated_hyphenate id.length_simple, parseSimple_simple]

/-- Bytes are written with lower-case digits. -/
theorem digitChar_mem : ∀ value < 16, Nat.digitChar value ∈ "0123456789abcdef".toList := by decide

/-- It is written with small digits. -/
theorem mem_digits_of_mem_simple {id : Uuid} {char : Char} (among : char ∈ id.simple) :
    char ∈ "0123456789abcdef".toList := by
  obtain ⟨byte, -, within⟩ := List.mem_flatMap.mp among
  have small := byte.toNat_lt
  rcases List.mem_cons.mp within with rfl | within
  · exact digitChar_mem _ (by omega)
  · rw [List.mem_singleton] at within
    rw [within]
    exact digitChar_mem _ (by omega)

/-! ## What is read -/

/-- What is read as bytes has digits only. -/
theorem isSome_hexValue_of_hexBytes {text : Text} {bytes : List UInt8}
    (read : hexBytes text = some bytes) : ∀ char ∈ text, (hexValue char).isSome := by
  fun_induction hexBytes text generalizing bytes with
  | case1 => exact fun char among => absurd among List.not_mem_nil
  | case2 => cases read
  | case3 high low rest ih =>
      simp only [Option.bind_eq_bind, Option.bind_eq_some_iff] at read
      obtain ⟨first, readFirst, second, readSecond, others, readRest, -⟩ := read
      intro char among
      rcases List.mem_cons.mp among with rfl | among
      · exact Option.isSome_of_mem readFirst
      rcases List.mem_cons.mp among with rfl | among
      · exact Option.isSome_of_mem readSecond
      · exact ih readRest char among

theorem isSome_hexValue_of_parseSimple {text : Text} {id : Uuid}
    (read : parseSimple text = some id) : ∀ char ∈ text, (hexValue char).isSome := by
  obtain ⟨bytes, readBytes, -⟩ := Option.bind_eq_some_iff.mp read
  exact isSome_hexValue_of_hexBytes readBytes

/-- A mark divides the text around it. -/
theorem mem_around {text : Text} {index : Nat} {mark char : Char}
    (found : text[index]? = some mark) (among : char ∈ text) :
    char ∈ text.take index ∨ char = mark ∨ char ∈ text.drop (index + 1) := by
  obtain ⟨inside, rfl⟩ := List.getElem?_eq_some_iff.mp found
  rw [← List.take_append_drop index text, List.drop_eq_getElem_cons inside] at among
  exact (List.mem_append.mp among).imp_right List.mem_cons.mp

/-- What is read with hyphens has digits and hyphens only. -/
theorem mem_of_parseHyphenated {text : Text} {id : Uuid} {char : Char}
    (read : parseHyphenated text = some id) (among : char ∈ text) :
    (hexValue char).isSome ∨ char = '-' := by
  unfold parseHyphenated at read
  split at read
  case isFalse => cases read
  case isTrue hyphens =>
    have digits := isSome_hexValue_of_parseSimple read char
    simp only [List.all_cons, List.all_nil, Bool.and_true, Bool.and_eq_true,
      decide_eq_true_eq] at hyphens
    obtain ⟨first, second, third, fourth⟩ := hyphens
    have hyphenIn (start index : Nat) (found : text[start + index]? = some '-') :
        (text.drop start)[index]? = some '-' := by rw [List.getElem?_drop, found]
    simp only [List.mem_append] at digits
    rcases mem_around first among with here | is | among
    · exact .inl (digits (by simp [here]))
    · exact .inr is
    rcases mem_around (hyphenIn 9 4 second) among with here | is | among
    · exact .inl (digits (by simp [here]))
    · exact .inr is
    rw [List.drop_drop] at among
    rcases mem_around (hyphenIn 14 4 third) among with here | is | among
    · exact .inl (digits (by simp [here]))
    · exact .inr is
    rw [List.drop_drop] at among
    rcases mem_around (hyphenIn 19 4 fourth) among with here | is | among
    · exact .inl (digits (by simp [here]))
    · exact .inr is
    rw [List.drop_drop] at among
    exact .inl (digits (by simp [among]))

/-- Whatever the format, no character but a digit or one of the marks is read. -/
theorem mem_of_parseStr {text : Text} {id : Uuid} {char : Char} (read : parseStr text = some id)
    (among : char ∈ text) : (hexValue char).isSome ∨ char ∈ "-\x7b\x7durn:uuid:".toList := by
  have hyphen : '-' ∈ "-\x7b\x7durn:uuid:".toList := by decide
  unfold parseStr at read
  split at read
  · exact .inl (isSome_hexValue_of_parseSimple read char among)
  split at read
  · exact (mem_of_parseHyphenated read among).imp_right fun is => by rwa [is]
  split at read
  next braced =>
    obtain ⟨length, opened, closed⟩ := braced
    obtain ⟨rest, rfl⟩ := List.head?_eq_some_iff.mp opened
    rcases List.mem_cons.mp among with rfl | among
    · exact .inr (by decide)
    have nonempty : rest ≠ [] := by
      rintro rfl
      simp at length
    rw [List.getLast?_cons, Option.some_inj, List.getLast?_eq_some_getLast nonempty] at closed
    rw [← List.dropLast_append_getLast nonempty] at among
    rcases List.mem_append.mp among with inner | last
    · exact (mem_of_parseHyphenated read inner).imp_right fun is => by rwa [is]
    · rw [List.mem_singleton.mp last, show rest.getLast nonempty = '\x7d' from closed]
      exact .inr (by decide)
  split at read
  next urn =>
    obtain ⟨rest, rfl⟩ := List.isPrefixOf_iff_prefix.mp urn.2
    rcases List.mem_append.mp among with front | among
    · have marks : "urn:uuid:".toList ⊆ "-\x7b\x7durn:uuid:".toList := by decide
      exact .inr (marks front)
    · exact (mem_of_parseHyphenated read among).imp_right fun is => by rwa [is]
  next => cases read

/-- Whatever the format, there are at least the digits. -/
theorem length_of_parseStr {text : Text} {id : Uuid} (read : parseStr text = some id) :
    32 ≤ text.length := by
  unfold parseStr at read
  split at read
  · omega
  split at read
  · omega
  split at read
  next braced => exact braced.1.symm ▸ by decide
  split at read
  next urn => exact urn.1.symm ▸ by decide
  next => cases read

end Uuid
end Solpg.Std
