import Mathlib.Data.List.Basic
import Mathlib.Data.Vector.Basic

/-!
# The text form of IP addresses

The grammar that `IpAddr::from_str` of the Rust standard library accepts: four
decimal octets without leading zeros, or eight hexadecimal groups of which `::`
may leave out some and a dotted quad may replace the last two.
-/

namespace Solpg.Std

/-- An address of either version. -/
inductive IpAddr where
  | v4 (octets : Vector UInt8 4)
  | v6 (groups : Vector UInt16 8)
  deriving DecidableEq, Repr

namespace IpAddr

/-- A parser from the front of a text. On failure nothing is consumed. -/
abbrev Parser (α : Type) := StateT (List Char) Option α

/-- `char::to_digit`. -/
def toDigit (radix : Nat) (char : Char) : Option Nat :=
  let value :=
    if '0' ≤ char ∧ char ≤ '9' then some (char.toNat - '0'.toNat)
    else if 'a' ≤ char ∧ char ≤ 'z' then some (char.toNat - 'a'.toNat + 10)
    else if 'A' ≤ char ∧ char ≤ 'Z' then some (char.toNat - 'A'.toNat + 10)
    else none
  value.filter (· < radix)

/-- A digit of the radix. -/
def isDigit (radix : Nat) (char : Char) : Bool := (toDigit radix char).isSome

/-- The number that a list of digits denotes. -/
def ofDigits (radix : Nat) (digits : List Char) : Nat :=
  digits.foldl (fun value digit => value * radix + (toDigit radix digit).getD 0) 0

/-- `read_number` of all digits at the front, at most `maxDigits` of them, into
a type of `bound` values. -/
def readNumber (radix maxDigits bound : Nat) (allowZeroPrefix : Bool) : Parser Nat := fun text =>
  let digits := text.takeWhile (isDigit radix)
  if digits = [] ∨ maxDigits < digits.length then none
  else if ¬ allowZeroPrefix ∧ digits.head? = some '0' ∧ 1 < digits.length then none
  else if ofDigits radix digits < bound then
    some (ofDigits radix digits, text.dropWhile (isDigit radix))
  else none

/-- `read_given_char`. -/
def readGivenChar (target : Char) : Parser Unit := fun text =>
  match text with
  | char :: rest => if char = target then some ((), rest) else none
  | [] => none

/-- `read_separator`: the separator stands before every item but the first. -/
def readSeparator {α : Type} (separator : Char) (first : Bool) (inner : Parser α) : Parser α :=
  if first then inner else do
    readGivenChar separator
    inner

/-- One of the four numbers, with the dot in front of all but the first. -/
def readOctet (first : Bool) : Parser UInt8 :=
  readSeparator '.' first do
    return UInt8.ofNat (← readNumber 10 3 256 false)

/-- Four numbers with dots between them. -/
def readIpv4Addr : Parser (Vector UInt8 4) := do
  let a ← readOctet true
  let b ← readOctet false
  let c ← readOctet false
  let d ← readOctet false
  return #v[a, b, c, d]

/-- `u16::from_be_bytes`. -/
def fromBeBytes (high low : UInt8) : UInt16 := high.toUInt16 * 256 + low.toUInt16

/-- `read_groups`: at most `limit` groups, and whether the last two of them were
a dotted quad. -/
def readGroups : (limit : Nat) → (first : Bool) → List Char → List UInt16 × Bool × List Char
  | 0, _, text => ([], false, text)
  | limit + 1, first, text =>
      match if 0 < limit then readSeparator ':' first readIpv4Addr text else none with
      | some (octets, rest) =>
          ([fromBeBytes octets[0] octets[1], fromBeBytes octets[2] octets[3]], true, rest)
      | none =>
          match readSeparator ':' first (readNumber 16 4 65536 true) text with
          | some (group, rest) =>
              let (groups, embedded, rest) := readGroups limit false rest
              (UInt16.ofNat group :: groups, embedded, rest)
          | none => ([], false, text)

/-- Eight groups from the ones before and after `::`. -/
def concatGroups (head tail : List UInt16) : Vector UInt16 8 :=
  Vector.ofFn fun index =>
    (head ++ List.replicate (8 - head.length - tail.length) 0 ++ tail).getD index 0

/-- Eight groups, or fewer around a double colon. -/
def readIpv6Addr : Parser (Vector UInt16 8) := fun text =>
  let (head, embedded, rest) := readGroups 8 true text
  if head.length = 8 then some (concatGroups head [], rest)
  else if embedded then none
  else do
    let (_, rest) ← readGivenChar ':' rest
    let (_, rest) ← readGivenChar ':' rest
    let (tail, _, rest) := readGroups (8 - (head.length + 1)) true rest
    return (concatGroups head tail, rest)

/-- `str::parse::<IpAddr>`: one address and nothing after it. -/
def parse (text : List Char) : Option IpAddr := do
  let (address, rest) ← match readIpv4Addr text with
    | some (octets, rest) => some (v4 octets, rest)
    | none => (readIpv6Addr text).map fun (groups, rest) => (v6 groups, rest)
  if rest = [] then some address else none

/-- Decimal digits of an octet. -/
def octetText (octet : UInt8) : List Char := Nat.toDigits 10 octet.toNat

/-- The dotted quad of four octets. -/
def ipv4Text (octets : Vector UInt8 4) : List Char :=
  octetText octets[0] ++ '.' :: (octetText octets[1] ++ '.' :: (octetText octets[2] ++
    '.' :: octetText octets[3]))

/-- The decimal digits of a number are what `read_number` accepts for it. -/
def readsBack (value : Nat) : Bool :=
  let digits := Nat.toDigits 10 value
  digits.all (isDigit 10) && !digits.isEmpty && Nat.ble digits.length 3 &&
    !(digits.head? == some '0' && Nat.blt 1 digits.length) && ofDigits 10 digits == value

/-- The digits of an octet are a number that `read_number` accepts. -/
theorem octetText_digits (octet : UInt8) :
    (∀ digit ∈ octetText octet, isDigit 10 digit = true) ∧ octetText octet ≠ [] ∧
      (octetText octet).length ≤ 3 ∧
      ¬ ((octetText octet).head? = some '0' ∧ 1 < (octetText octet).length) ∧
      ofDigits 10 (octetText octet) = octet.toNat := by
  have every : (List.range 256).all readsBack = true := by decide +kernel
  have member : octet.toNat ∈ List.range 256 := List.mem_range.mpr octet.toNat_lt
  have accepted := List.all_eq_true.mp every octet.toNat member
  simp only [readsBack, Bool.and_eq_true, List.all_eq_true, Bool.not_eq_true',
    List.isEmpty_eq_false_iff, Nat.ble_eq, Bool.and_eq_false_iff, beq_eq_false_iff_ne,
    beq_iff_eq] at accepted
  obtain ⟨⟨⟨⟨digits, nonempty⟩, short⟩, noLeadingZero⟩, value⟩ := accepted
  refine ⟨digits, nonempty, short, ?_, value⟩
  rintro ⟨zero, long⟩
  obtain different | single := noLeadingZero
  · exact different zero
  · exact absurd (Nat.blt_eq.mpr long) (by rw [octetText, single]; exact Bool.false_ne_true)

/-- The characters of a dotted quad. -/
def quadChars : List Char := ['0', '1', '2', '3', '4', '5', '6', '7', '8', '9', '.']

/-- A number is written with digits. -/
theorem mem_quadChars_of_mem_octetText {octet : UInt8} {char : Char}
    (member : char ∈ octetText octet) : char ∈ quadChars := by
  have every : (List.range 256).all (fun value =>
      (Nat.toDigits 10 value).all quadChars.contains) = true := by
    decide +kernel
  have digits := List.all_eq_true.mp every octet.toNat (List.mem_range.mpr octet.toNat_lt)
  simpa using List.all_eq_true.mp digits char member

/-- An IPv4 address is written with digits and dots. -/
theorem mem_quadChars_of_mem_ipv4Text {octets : Vector UInt8 4} {char : Char}
    (member : char ∈ ipv4Text octets) : char ∈ quadChars := by
  have point : '.' ∈ quadChars := by decide
  simp only [ipv4Text, List.mem_append, List.mem_cons] at member
  obtain octet | rfl | octet | rfl | octet | rfl | octet := member
  case inr.inl | inr.inr.inr.inl | inr.inr.inr.inr.inr.inl => exact point
  all_goals exact mem_quadChars_of_mem_octetText octet

/-- An octet is read back from in front of anything that is not a digit. -/
theorem readNumber_octetText (octet : UInt8) {rest : List Char}
    (stops : ∀ char ∈ rest.head?, isDigit 10 char = false) :
    readNumber 10 3 256 false (octetText octet ++ rest) = some (octet.toNat, rest) := by
  obtain ⟨digits, nonempty, short, noZeroPrefix, value⟩ := octetText_digits octet
  have taken : (octetText octet ++ rest).takeWhile (isDigit 10) = octetText octet := by
    rw [List.takeWhile_append_of_pos digits]
    cases rest with
    | nil => simp
    | cons char rest => simp [stops char rfl]
  have dropped : (octetText octet ++ rest).dropWhile (isDigit 10) = rest := by
    rw [List.dropWhile_append_of_pos digits]
    cases rest with
    | nil => simp
    | cons char rest => simp [stops char rfl]
  have bounded : octet.toNat < 256 := octet.toNat_lt
  simp only [readNumber, taken, dropped, nonempty, Nat.not_lt.mpr short, or_self, if_false,
    Bool.false_eq_true, not_false_eq_true, true_and, noZeroPrefix, value, bounded, if_true]

/-- Returning a value leaves the text. -/
theorem pure_apply {α σ : Type} (value : α) (state : σ) :
    (pure value : StateT σ Option α) state = some (value, state) := rfl

/-- The first number is read back in front of what is no digit. -/
theorem readOctet_first (octet : UInt8) {rest : List Char}
    (stops : ∀ char ∈ rest.head?, isDigit 10 char = false) :
    readOctet true (octetText octet ++ rest) = some (octet, rest) := by
  simp [readOctet, readSeparator, StateT.bind, bind, readNumber_octetText octet stops, pure_apply]

/-- A later number is read back behind its dot. -/
theorem readOctet_next (octet : UInt8) {rest : List Char}
    (stops : ∀ char ∈ rest.head?, isDigit 10 char = false) :
    readOctet false ('.' :: (octetText octet ++ rest)) = some (octet, rest) := by
  simp [readOctet, readSeparator, readGivenChar, StateT.bind, bind,
    readNumber_octetText octet stops, pure_apply]

/-- Every dotted quad is the text of its address. -/
theorem parse_ipv4Text (octets : Vector UInt8 4) : parse (ipv4Text octets) = some (v4 octets) := by
  have point : ∀ rest : List Char, ∀ char ∈ ('.' :: rest).head?, isDigit 10 char = false := by
    intro rest char found
    obtain rfl : '.' = char := by simpa using found
    decide
  have first := readOctet_first octets[0] (point (octetText octets[1] ++ '.' ::
    (octetText octets[2] ++ '.' :: octetText octets[3])))
  have second := readOctet_next octets[1] (point (octetText octets[2] ++ '.' :: octetText octets[3]))
  have third := readOctet_next octets[2] (point (octetText octets[3]))
  have fourth : readOctet false ('.' :: octetText octets[3]) = some (octets[3], []) := by
    rw [← List.append_nil (octetText octets[3])]
    exact readOctet_next octets[3] (by simp)
  have read : readIpv4Addr (ipv4Text octets) = some (octets, []) := by
    simp only [readIpv4Addr, ipv4Text, bind, StateT.bind, first, second, third, fourth,
      Option.bind_some, pure_apply, Option.some.injEq, Prod.mk.injEq, and_true]
    ext index inside
    have among : index = 0 ∨ index = 1 ∨ index = 2 ∨ index = 3 := by omega
    rcases among with rfl | rfl | rfl | rfl <;> rfl
  simp [parse, read]

example : parse "2001:db8::192.0.2.1".toList =
    some (v6 #v[0x2001, 0xdb8, 0, 0, 0, 0, 0xc000, 0x201]) := by decide

example : parse "1.2.3.04".toList = none := by decide

example : parse "1::2:3:4:5:6:7:8".toList = none := by decide

end IpAddr
end Solpg.Std
