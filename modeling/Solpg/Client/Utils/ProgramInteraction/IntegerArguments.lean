import Solpg.Client.Utils.ProgramInteraction.IdlPrimitives
import Solpg.Std.Outcome

/-!
# Integer arguments

What the integer types accept and what they make of it. `bn.js` reads a text without its white
space, `parseInt` reads it up to the first character that it does not know, and the bytes of an
integer wider than one byte are those of its absolute value.
-/

namespace Solpg.Client.Utils

open Solpg.Std

/-- The integer types of an IDL. -/
inductive IntegerType where
  | u8 | u16 | u32 | u64 | u128 | i8 | i16 | i32 | i64 | i128
  deriving DecidableEq, Repr

namespace IntegerType

/-- The type as it is registered. -/
def idlType : IntegerType → PgIdlType
  | u8 => Utils.u8
  | u16 => Utils.u16
  | u32 => Utils.u32
  | u64 => Utils.u64
  | u128 => Utils.u128
  | i8 => Utils.i8
  | i16 => Utils.i16
  | i32 => Utils.i32
  | i64 => Utils.i64
  | i128 => Utils.i128

/-- The bytes of a value. -/
def len : IntegerType → Nat
  | u8 | i8 => 1
  | u16 | i16 => 2
  | u32 | i32 => 4
  | u64 | i64 => 8
  | u128 | i128 => 16

/-- Whether the type has negative numbers. -/
def isSigned : IntegerType → Bool
  | u8 | u16 | u32 | u64 | u128 => false
  | i8 | i16 | i32 | i64 | i128 => true

/-- The least number of the type. -/
def least (type : IntegerType) : Int := if type.isSigned then -(256 ^ type.len / 2) else 0

/-- The greatest number of the type. -/
def greatest (type : IntegerType) : Int :=
  if type.isSigned then 256 ^ type.len / 2 - 1 else 256 ^ type.len - 1

/-- The numbers of the type. -/
def InRange (type : IntegerType) (value : Int) : Prop := type.least ≤ value ∧ value ≤ type.greatest

/-- The two's complement, least significant byte first. -/
def encode (type : IntegerType) (value : Int) : Bytes :=
  Codec.littleEndianBytes type.len (value % 256 ^ type.len).toNat

end IntegerType

/-- The integer that a parsed value is. -/
def Value.integer : Value → Option Int
  | .number value => value
  | .bn (.number value) => some value
  | _ => none

/-- What is accepted is an integer in the range of the type, apart from white space around it. It
is the one that was compared with the range, the one that is returned and the one that the bytes
are of. -/
def ReadsInteger (type : IntegerType) (text : Text) : Prop :=
  ∀ value, type.idlType.parse text = .ok value → ∃ number, decimalInt text.trim = some number ∧
    type.InRange number ∧ BN.ofText text = .ok (.number number) ∧ value.integer = some number ∧
    type.idlType.toBuffer value = .ok (type.encode number)

/-- The texts that are read as they should be: those that are refused, and decimals in the range
without white space inside that are not negative, have one byte or are the least of the type. -/
structure PlainInteger (type : IntegerType) (text : Text) : Prop where
  blank : withoutSpace text = [] → text = []
  sign : type.isSigned = true → withoutSpace text ≠ ['-']
  decimal : ∀ number, decimalInt (withoutSpace text) = some number → type.InRange number →
    text.trim = withoutSpace text ∧ (0 ≤ number ∨ type.len = 1 ∨ number = type.least)

variable {type : IntegerType} {text spaces : Text} {number : Int} {bn : BN}

/-! ## Texts -/

/-- No digit is white space. -/
theorem notSpace_of_isDigit {char : Char} (digit : char.isDigit = true) :
    Text.isSpace char = false := by
  have range : 48 ≤ char.toNat ∧ char.toNat ≤ 57 := by
    simpa [Char.isDigit, UInt32.le_iff_toNat_le] using digit
  simp only [Text.isSpace, Bool.or_eq_false_iff, Bool.and_eq_false_imp, beq_eq_false_iff_ne,
    decide_eq_true_eq, decide_eq_false_iff_not]
  omega

/-- Digits are read up to the white space behind them. -/
theorem readUnsigned_append {digits : Text} (nonempty : digits ≠ [])
    (all : digits.all Char.isDigit = true) (blank : Text.Spaces spaces) :
    readUnsigned (digits ++ spaces) = some (Nat.ofDigitChars 10 digits 0) := by
  have digit : ∀ char ∈ digits, char.isDigit = true := List.all_eq_true.mp all
  have stops : spaces.takeWhile Char.isDigit = [] := by
    cases spaces with
    | nil => rfl
    | cons first rest =>
        have notDigit : ¬ first.isDigit = true := fun isDigit => by
          have space := blank first List.mem_cons_self
          rw [notSpace_of_isDigit isDigit] at space
          cases space
        exact List.takeWhile_cons_of_neg notDigit
  have read : readDigits (digits ++ spaces) = some (Nat.ofDigitChars 10 digits 0) := by
    rw [readDigits, List.takeWhile_append_of_pos digit, stops, List.append_nil]
    simp [nonempty]
  have known : ∀ char ∈ digits ++ spaces, char.isDigit = true ∨ Text.isSpace char = true :=
    fun char among => (List.mem_append.mp among).imp (digit char) (blank char)
  unfold readUnsigned
  split
  · next rest same =>
    rw [same] at known
    exact absurd (known 'x' (by simp)) (by decide)
  · next rest same =>
    rw [same] at known
    exact absurd (known 'X' (by simp)) (by decide)
  · exact read

/-- A decimal integer is digits, maybe behind a sign. -/
theorem decimalInt_eq_some (decimal : decimalInt text = some number) :
    ∃ digits, digits ≠ [] ∧ digits.all Char.isDigit = true ∧
      (text = '-' :: digits ∧ number = -(Nat.ofDigitChars 10 digits 0 : Nat) ∨
        text = digits ∧ number = (Nat.ofDigitChars 10 digits 0 : Nat)) := by
  unfold decimalInt at decimal
  split at decimal
  · next digits =>
    split at decimal
    · next both => exact ⟨digits, both.1, both.2, .inl ⟨rfl, (Option.some.inj decimal).symm⟩⟩
    · cases decimal
  · split at decimal
    · next both => exact ⟨text, both.1, both.2, .inr ⟨rfl, (Option.some.inj decimal).symm⟩⟩
    · cases decimal

/-- A decimal is not empty and has no white space. -/
theorem notSpace_of_decimalInt (decimal : decimalInt text = some number) :
    text ≠ [] ∧ ∀ char ∈ text, Text.isSpace char = false := by
  obtain ⟨digits, nonempty, all, ⟨rfl, -⟩ | ⟨rfl, -⟩⟩ := decimalInt_eq_some decimal
  · refine ⟨List.cons_ne_nil _ _, List.forall_mem_cons.mpr ⟨rfl, fun char among => ?_⟩⟩
    exact notSpace_of_isDigit (List.all_eq_true.mp all char among)
  · exact ⟨nonempty, fun char among => notSpace_of_isDigit (List.all_eq_true.mp all char among)⟩

/-- White space behind a decimal integer is not read. -/
theorem parseInt_append (decimal : decimalInt text = some number) (blank : Text.Spaces spaces) :
    parseInt (text ++ spaces) = some number := by
  obtain ⟨some_, notSpace⟩ := notSpace_of_decimalInt decimal
  have stays : (text ++ spaces).dropWhile Text.isSpace = text ++ spaces := by
    obtain ⟨first, rest, rfl⟩ := List.exists_cons_of_ne_nil some_
    exact List.dropWhile_cons_of_neg (by simp [notSpace first List.mem_cons_self])
  rw [parseInt, stays]
  obtain ⟨digits, nonempty, all, ⟨rfl, rfl⟩ | ⟨rfl, rfl⟩⟩ := decimalInt_eq_some decimal
  · have read := readUnsigned_append nonempty all blank
    simp only [List.cons_append, read]
    rfl
  · have read := readUnsigned_append nonempty all blank
    obtain ⟨first, rest, rfl⟩ := List.exists_cons_of_ne_nil nonempty
    have digit : first.isDigit = true := by simpa using List.all_eq_true.mp all first List.mem_cons_self
    split
    · next same =>
      cases (List.cons.inj same).1
      exact absurd digit (by decide)
    · next same =>
      cases (List.cons.inj same).1
      exact absurd digit (by decide)
    · rw [read]
      rfl

/-- A text that is an integer makes that one. -/
theorem BN.ofText_decimal {text : Text} {value : Int}
    (decimal : decimalInt (withoutSpace text) = some value) : BN.ofText text = .ok (.number value) := by
  rw [BN.ofText]
  generalize withoutSpace text = digits at decimal
  unfold BN.ofDigits
  split
  · cases decimal
  · cases decimal
  · rw [decimal]

/-- `parseInt` reads the integer that white space stands around. -/
theorem parseInt_of_trim (decimal : decimalInt text.trim = some number) :
    parseInt text = some number := by
  obtain ⟨front, back, spacesFront, spacesBack, padded⟩ := Text.spaces_around_trim text
  have behind : parseInt text = parseInt (text.trim ++ back) := by
    rw [parseInt, parseInt, padded, Text.dropWhile_spaces _ spacesFront, ← padded]
  rw [behind, parseInt_append decimal spacesBack]

/-- White space around a decimal integer is all there is. -/
theorem withoutSpace_of_trim (decimal : decimalInt text.trim = some number) :
    withoutSpace text = text.trim := by
  obtain ⟨front, back, spacesFront, spacesBack, padded⟩ := Text.spaces_around_trim text
  have none : ∀ {spaces : Text}, Text.Spaces spaces → withoutSpace spaces = [] := by
    intro spaces blank
    refine List.filter_eq_nil_iff.mpr fun char among => ?_
    simp [blank char among]
  have all : withoutSpace text.trim = text.trim := by
    refine List.filter_eq_self.mpr fun char among => ?_
    simp [(notSpace_of_decimalInt decimal).2 char among]
  have split : withoutSpace (front ++ (text.trim ++ back)) =
      withoutSpace front ++ (withoutSpace text.trim ++ withoutSpace back) := by
    simp only [withoutSpace, List.filter_append]
  rw [← padded, none spacesFront, none spacesBack, all] at split
  simpa using split

/-! ## What is accepted -/

namespace IntegerType

/-- The least number by the greatest unsigned one. -/
theorem least_eq : type.least = if type.isSigned then -(maxUint type.len / 2 + 1) else 0 := by
  cases type <;> rfl

/-- The greatest number by the greatest unsigned one. -/
theorem greatest_eq :
    type.greatest = if type.isSigned then maxUint type.len / 2 else maxUint type.len := by
  cases type <;> rfl

/-- A text without digits passes the comparisons, unless it has a sign that the type lacks. -/
def Admits (type : IntegerType) : BN → Prop
  | .number value => type.InRange value
  | .wordless negative => negative = true → type.isSigned = true

/-- `assertUint` or `assertInt`. -/
def check (type : IntegerType) (text : Text) : Except Text Unit :=
  if type.isSigned then assertInt text type.len else assertUint text type.len

/-- A check of a number passes when the text is one and is within the bounds. -/
theorem ofText_bind_ok_iff {error : Text} {compare : BN → Except Text Unit} :
    (if text.isEmpty then .error error else BN.ofText text >>= compare) = .ok () ↔
      text ≠ [] ∧ ∃ bn, BN.ofText text = .ok bn ∧ compare bn = .ok () := by
  cases text with
  | nil => simp
  | cons first rest =>
      cases read : BN.ofText (first :: rest) with
      | error error => simp [bind, Except.bind]
      | ok bn => simp [bind, Except.bind]

/-- What `assertUint` accepts. -/
theorem assertUint_ok_iff : assertUint text type.len = .ok () ↔ text ≠ [] ∧
    ∃ bn, BN.ofText text = .ok bn ∧ bn.isNeg = false ∧ bn.gt (maxUint type.len) = false := by
  refine ofText_bind_ok_iff.trans (and_congr_right fun _ => exists_congr fun bn =>
    and_congr_right fun _ => ?_)
  cases bn.isNeg <;> cases bn.gt (maxUint type.len) <;> simp

/-- What `assertInt` accepts. -/
theorem assertInt_ok_iff : assertInt text type.len = .ok () ↔ text ≠ [] ∧
    ∃ bn, BN.ofText text = .ok bn ∧ bn.gt (maxUint type.len / 2) = false ∧
      bn.lt (-(maxUint type.len / 2 + 1)) = false := by
  simp only [assertInt]
  generalize maxUint type.len / 2 = intMax
  refine ofText_bind_ok_iff.trans (and_congr_right fun _ => exists_congr fun bn =>
    and_congr_right fun _ => ?_)
  cases bn.gt intMax <;> cases bn.lt (-(intMax + 1)) <;> simp

/-- What the check of a type accepts. -/
theorem check_ok_iff : type.check text = .ok () ↔
    text ≠ [] ∧ ∃ bn, BN.ofText text = .ok bn ∧ type.Admits bn := by
  cases signed : type.isSigned with
  | true =>
      have split : type.check text = assertInt text type.len := if_pos signed
      rw [split, assertInt_ok_iff]
      refine and_congr_right fun _ => exists_congr fun bn => and_congr_right fun _ => ?_
      cases bn with
      | number value =>
          simp only [BN.gt, BN.lt, Admits, InRange, least_eq, greatest_eq, signed, if_true,
            decide_eq_false_iff_not]
          omega
      | wordless negative => simp [BN.gt, BN.lt, Admits, signed]
  | false =>
      have split : type.check text = assertUint text type.len := if_neg (by simp [signed])
      rw [split, assertUint_ok_iff]
      refine and_congr_right fun _ => exists_congr fun bn => and_congr_right fun _ => ?_
      cases bn with
      | number value =>
          simp only [BN.isNeg, BN.gt, Admits, InRange, least_eq, greatest_eq, signed,
            Bool.false_eq_true, if_false, decide_eq_false_iff_not]
          omega
      | wordless negative => simp [BN.isNeg, BN.gt, Admits, signed]

/-- Integers of up to four bytes are numbers. -/
def held (type : IntegerType) (text : Text) (bn : BN) : Value :=
  if type.len ≤ 4 then .number (parseInt text) else .bn bn

/-- A type checks a text and parses it, as a number if it is small. -/
theorem parse_eq : type.idlType.parse text = (do
    type.check text
    if type.len ≤ 4 then pure (.number (parseInt text)) else (BN.ofText text).map .bn) := by
  cases type <;> rfl

/-- What a type parses, and to which value. -/
theorem parse_ok_iff {value : Value} : type.idlType.parse text = .ok value ↔
    text ≠ [] ∧ ∃ bn, BN.ofText text = .ok bn ∧ type.Admits bn ∧ value = type.held text bn := by
  rw [parse_eq]
  constructor
  · intro parsed
    obtain ⟨checked, parsed⟩ := Outcome.bind_eq_ok.mp parsed
    obtain ⟨nonempty, bn, read, admits⟩ := check_ok_iff.mp checked
    refine ⟨nonempty, bn, read, admits, ?_⟩
    by_cases narrow : type.len ≤ 4
    · rw [if_pos narrow] at parsed
      rw [held, if_pos narrow]
      exact (Except.ok.inj parsed).symm
    · rw [if_neg narrow, read] at parsed
      rw [held, if_neg narrow]
      exact (Except.ok.inj parsed).symm
  · rintro ⟨nonempty, bn, read, admits, rfl⟩
    rw [check_ok_iff.mpr ⟨nonempty, bn, read, admits⟩, read, held]
    change (if type.len ≤ 4 then _ else _) = _
    split <;> rfl

/-! ## Bytes -/

/-- What is held of an integer in the range. -/
def holding (type : IntegerType) (number : Int) : Value :=
  if type.len ≤ 4 then .number (some number) else .bn (.number number)

/-- A value holds the number it is for. -/
theorem integer_holding : (type.holding number).integer = some number := by
  unfold holding
  split <;> rfl

/-- A small type holds the number that is read. -/
theorem held_of_parseInt (read : parseInt text = some number) :
    type.held text (.number number) = type.holding number := by
  rw [held, holding, read]

/-- The size of a type, of which a range takes no more than what is below it. -/
theorem size_eq : (256 ^ type.len : Int) = ((256 ^ type.len : Nat) : Int) := by push_cast; rfl

/-- The numbers of a type have its size. -/
theorem natAbs_lt (inRange : type.InRange number) : number.natAbs < 256 ^ type.len := by
  obtain ⟨lower, upper⟩ := inRange
  have positive : 0 < 256 ^ type.len := Nat.pow_pos (by omega)
  unfold least at lower
  unfold greatest at upper
  rw [size_eq] at lower upper
  generalize 256 ^ type.len = size at *
  split at lower <;> simp_all <;> omega

/-- One byte has its sign, and more have none. -/
theorem toBuffer_holding (inRange : type.InRange number) :
    type.idlType.toBuffer (type.holding number) = .ok
      (if type.len = 1 then type.encode number
      else Codec.littleEndianBytes type.len number.natAbs) := by
  have fits := natAbs_lt inRange
  cases type with
  | u8 | i8 => rfl
  | u16 | u32 | u64 | u128 | i16 | i32 | i64 | i128 => exact if_pos fits

/-- An integer and its absolute value have the same bytes when it is not negative and when it is
the least of the type. -/
theorem encode_eq_iff (inRange : type.InRange number) :
    Codec.littleEndianBytes type.len number.natAbs = type.encode number ↔
      0 ≤ number ∨ number = type.least := by
  have fits := natAbs_lt inRange
  have positive : 0 < 256 ^ type.len := Nat.pow_pos (by omega)
  have wrapped : (number % 256 ^ type.len).toNat < 256 ^ type.len := by
    rw [size_eq]
    omega
  have same : Codec.littleEndianBytes type.len number.natAbs = type.encode number ↔
      number.natAbs = (number % 256 ^ type.len).toNat := by
    constructor
    · intro bytes
      have values := congrArg Codec.ofLittleEndianBytes bytes
      rwa [encode, Codec.ofLittleEndianBytes_littleEndianBytes fits,
        Codec.ofLittleEndianBytes_littleEndianBytes wrapped] at values
    · intro values
      rw [encode, values]
  rw [same]
  have even : 256 ^ type.len % 2 = 0 := by cases type <;> rfl
  obtain ⟨lower, upper⟩ := inRange
  have negative : number < 0 → type.isSigned = true := fun below => by
    by_contra unsigned
    rw [least, if_neg unsigned] at lower
    omega
  rw [least] at lower ⊢
  rw [size_eq] at lower ⊢
  generalize 256 ^ type.len = size at *
  rcases lt_or_ge number 0 with below | nonnegative
  · rw [if_pos (negative below)] at lower ⊢
    have shifted : number % (size : Int) = number + size := by
      rw [← Int.add_emod_right, Int.emod_eq_of_lt (by omega) (by omega)]
    rw [shifted]
    omega
  · rw [Int.emod_eq_of_lt nonnegative (by omega)]
    omega

end IntegerType

/-! ## The types -/

/-- What `BN` reads: nothing, a sign alone, or a decimal integer. -/
theorem BN.ofText_cases (read : BN.ofText text = .ok bn) :
    withoutSpace text = [] ∧ bn = .wordless false ∨ withoutSpace text = ['-'] ∧ bn = .wordless true ∨
      ∃ number, decimalInt (withoutSpace text) = some number ∧ bn = .number number := by
  rw [BN.ofText] at read
  generalize withoutSpace text = digits at *
  unfold BN.ofDigits at read
  split at read
  · exact .inl ⟨rfl, (Except.ok.inj read).symm⟩
  · exact .inr (.inl ⟨rfl, (Except.ok.inj read).symm⟩)
  · cases decimal : decimalInt digits with
    | none => simp [decimal] at read
    | some number =>
        rw [decimal] at read
        exact .inr (.inr ⟨number, rfl, (Except.ok.inj read).symm⟩)

/-- An integer type reads a text as it should exactly when the text is plain. -/
theorem readsInteger_iff (type : IntegerType) (text : Text) :
    ReadsInteger type text ↔ PlainInteger type text := by
  constructor
  · intro reads
    have accepted : ∀ bn, text ≠ [] → BN.ofText text = .ok bn → type.Admits bn →
        ∃ number, decimalInt text.trim = some number ∧ bn = .number number ∧ type.InRange number ∧
          type.idlType.toBuffer (type.holding number) = .ok (type.encode number) := by
      intro bn nonempty read admits
      obtain ⟨number, decimal, inRange, same, -, bytes⟩ :=
        reads _ (IntegerType.parse_ok_iff.mpr ⟨nonempty, bn, read, admits, rfl⟩)
      obtain rfl : bn = .number number := Except.ok.inj (read.symm.trans same)
      rw [IntegerType.held_of_parseInt (parseInt_of_trim decimal)] at bytes
      exact ⟨number, decimal, rfl, inRange, bytes⟩
    refine ⟨fun blank => ?_, fun signed sign => ?_, fun number decimal inRange => ?_⟩
    · by_contra nonempty
      have read : BN.ofText text = .ok (.wordless false) := by
        rw [BN.ofText, blank]
        rfl
      obtain ⟨_, -, differs, -⟩ := accepted _ nonempty read fun signed => by cases signed
      cases differs
    · have read : BN.ofText text = .ok (.wordless true) := by
        rw [BN.ofText, sign]
        rfl
      have nonempty : text ≠ [] := by
        rintro rfl
        cases sign
      obtain ⟨_, -, differs, -⟩ := accepted _ nonempty read fun _ => signed
      cases differs
    · have nonempty : text ≠ [] := by
        rintro rfl
        cases decimal
      obtain ⟨_, trimmed, same, -, bytes⟩ :=
        accepted _ nonempty (BN.ofText_decimal decimal) inRange
      cases same
      refine ⟨(withoutSpace_of_trim trimmed).symm, ?_⟩
      rw [IntegerType.toBuffer_holding inRange] at bytes
      by_cases one : type.len = 1
      · exact .inr (.inl one)
      · rw [if_neg one] at bytes
        exact ((IntegerType.encode_eq_iff inRange).mp (Except.ok.inj bytes)).imp_right .inr
  · intro plain value parsed
    obtain ⟨nonempty, bn, read, admits, rfl⟩ := IntegerType.parse_ok_iff.mp parsed
    rcases BN.ofText_cases read with ⟨blank, rfl⟩ | ⟨sign, rfl⟩ | ⟨number, decimal, rfl⟩
    · exact absurd (plain.blank blank) nonempty
    · exact absurd sign (plain.sign (admits rfl))
    · obtain ⟨trimmed, signless⟩ := plain.decimal number decimal admits
      have decimalTrim : decimalInt text.trim = some number := trimmed.symm ▸ decimal
      rw [IntegerType.held_of_parseInt (parseInt_of_trim decimalTrim)]
      refine ⟨number, decimalTrim, admits, read, IntegerType.integer_holding, ?_⟩
      rw [IntegerType.toBuffer_holding admits]
      split
      · rfl
      · next wide =>
        have bytes := (IntegerType.encode_eq_iff admits).mpr (by tauto)
        rw [bytes]

/-- The bytes of a negative `i16` are those of its absolute value. -/
theorem not_always_readsInteger :
    ¬ ∀ (type : IntegerType) (text : Text), ReadsInteger type text := by
  intro reads
  have parsed : IntegerType.i16.idlType.parse "-5".toList = .ok (.number (some (-5))) := rfl
  obtain ⟨number, decimal, -, -, -, bytes⟩ := reads .i16 "-5".toList _ parsed
  obtain rfl : -5 = number := Option.some.inj ((by decide : _ = _).trans decimal)
  exact absurd (Except.ok.inj bytes) (by decide)

end Solpg.Client.Utils
