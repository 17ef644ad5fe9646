import Mathlib.Data.Nat.Digits.Defs
import Solpg.Client.Utils.ProgramInteraction.IdlType
import Solpg.Std.Bincode
import Solpg.Std.Random

/-!
# Primitive types of an IDL

The integers of `idl-primitives.ts`: how a value is parsed, serialized and drawn at random.
-/

namespace Solpg.Client.Utils

open Solpg.Std

/-- A `Buffer`. -/
abbrev Bytes := List UInt8

/-- The digits of an integer with a sign or none. -/
def decimalInt : Text → Option Int
  | '-' :: digits =>
      if digits ≠ [] ∧ digits.all Char.isDigit then some (-(Nat.ofDigitChars 10 digits 0 : Nat)) else none
  | digits =>
      if digits ≠ [] ∧ digits.all Char.isDigit then some (Nat.ofDigitChars 10 digits 0 : Nat) else none

/-- `replace(/\s+/g, "")`, with which `bn.js` reads a text. -/
def withoutSpace (text : Text) : Text := text.filter fun char => !Text.isSpace char

/-- A big integer of `bn.js`. Without a digit it has a sign and no words. -/
inductive BN where
  | number (value : Int)
  | wordless (negative : Bool)
  deriving DecidableEq, Repr

namespace BN

/-- `new BN(digits)`, which leaves a number without words for no digits. -/
def ofDigits : Text → Except Text BN
  | [] => .ok (.wordless false)
  | ['-'] => .ok (.wordless true)
  | digits =>
      match decimalInt digits with
      | some value => .ok (.number value)
      | none => .error "Invalid character".toList

/-- `new BN(text)`. -/
def ofText (text : Text) : Except Text BN := ofDigits (withoutSpace text)

/-- `isNeg()`. -/
def isNeg : BN → Bool
  | number value => value < 0
  | wordless negative => negative

/-- `gt` of a number with words: what has none is not greater. -/
def gt (max : Int) : BN → Bool
  | number value => max < value
  | wordless _ => false

/-- `lt` of a negative number with words. -/
def lt (min : Int) : BN → Bool
  | number value => value < min
  | wordless _ => false

/-- `toArrayLike(Buffer, "le", len)`, which has no sign. -/
def toArrayLike (len : Nat) : BN → Except Text Bytes
  | number value =>
      if value.natAbs < 256 ^ len then .ok (Codec.littleEndianBytes len value.natAbs)
      else .error "byte array longer than desired length".toList
  | wordless _ => .error "Cannot read properties of null (reading \x27-1\x27)".toList

end BN

/-- A value of a type as the client holds it. -/
inductive Value where
  | null
  | bool (value : Bool)
  /-- A number, unless it is `NaN`. -/
  | number (value : Option Int)
  | bn (value : BN)
  /-- A number that is no integer, as it was written. -/
  | float (text : Text)
  | string (text : Text)
  | publicKey (bytes : Bytes)
  | buffer (bytes : Bytes)
  | list (items : List Value)
  | object (fields : List (Text × Value))

/-- The integer in decimal. -/
def intText : Int → Text
  | .ofNat value => Nat.toDigits 10 value
  | .negSucc value => '-' :: Nat.toDigits 10 (value + 1)

/-- `PgIdlType`. -/
structure PgIdlType where
  name : Text
  parse : Text → Except Text Value
  /-- What `parse` makes of `undefined`. -/
  parseUndefined : Except Text Value
  toBuffer : Value → Except Text Bytes
  generateRandom : Random Text Text

namespace PgCommon

/-- `generateRandomInt`. -/
def generateRandomInt (min max : Nat) : Random Text Nat := (Random.upTo (max - min)).map (min + ·)

/-- Each byte, from the lowest on, up to what it is; bytes of zero are passed over. -/
def drawBytes : List Nat → Random Text Nat
  | [] => .pure 0
  | byte :: rest =>
      if byte = 0 then (drawBytes rest).map (256 * ·)
      else (generateRandomInt 0 byte).bind fun low => (drawBytes rest).map (low + 256 * ·)

/-- `generateRandomBigInt`. The difference is put into 64 bits. -/
def generateRandomBigInt (min max : Int) : Random Text Int :=
  (drawBytes (Nat.digits 256 ((max - min).toNat % 2 ^ 64))).map fun (value : Nat) => min + (value : Int)

end PgCommon

open PgCommon

/-! ## Numbers -/

/-- The digits at the start of a text, unless there are none. -/
def readDigits (text : Text) : Option Nat :=
  let digits := text.takeWhile Char.isDigit
  if digits.isEmpty then none else some (Nat.ofDigitChars 10 digits 0)

/-- The value of a hexadecimal digit. -/
def hexDigit (char : Char) : Option Nat :=
  if char.isDigit then some (char.toNat - '0'.toNat)
  else if 'a' ≤ char ∧ char ≤ 'f' then some (char.toNat - 'a'.toNat + 10)
  else if 'A' ≤ char ∧ char ≤ 'F' then some (char.toNat - 'A'.toNat + 10)
  else none

/-- The hexadecimal digits at the start of a text. -/
def readHex (text : Text) : Option Nat :=
  match text.map hexDigit |>.takeWhile Option.isSome with
  | [] => none
  | digits => some (digits.foldl (fun acc digit => 16 * acc + digit.getD 0) 0)

/-- The digits `parseInt` reads behind a sign, in base 16 behind `0x`. -/
def readUnsigned : Text → Option Nat
  | '0' :: 'x' :: rest => readHex rest
  | '0' :: 'X' :: rest => readHex rest
  | text => readDigits text

/-- `parseInt`. -/
def parseInt (text : Text) : Option Int :=
  match text.dropWhile Text.isSpace with
  | '-' :: rest => (readUnsigned rest).map fun value => -(value : Int)
  | '+' :: rest => (readUnsigned rest).map fun value => (value : Int)
  | text => (readUnsigned text).map fun value => (value : Int)

/-- The greatest number of the given bytes. -/
def maxUint (len : Nat) : Int := 256 ^ len - 1

/-- `assertUint(value, len)`. -/
def assertUint (value : Text) (len : Nat) : Except Text Unit :=
  if value.isEmpty then .error "Cannot be empty".toList
  else do
    let bn ← BN.ofText value
    if bn.isNeg then .error ("uint cannot be negative: ".toList ++ value)
    else if bn.gt (maxUint len) then .error (value ++ " is not within range".toList)
    else .ok ()

/-- `assertInt(value, len)`. -/
def assertInt (value : Text) (len : Nat) : Except Text Unit :=
  if value.isEmpty then .error "Cannot be empty".toList
  else do
    let bn ← BN.ofText value
    let intMax := maxUint len / 2
    if bn.gt intMax || bn.lt (-(intMax + 1)) then .error (value ++ " is not within range".toList)
    else .ok ()

/-- `generateRandomUint(len)`. -/
def generateRandomUint (len : Nat) : Random Text Text :=
  (generateRandomBigInt 0 (maxUint len)).map intText

/-- `generateRandomInt(len)`. -/
def generateRandomSigned (len : Nat) : Random Text Text :=
  let max := maxUint len / 2
  (generateRandomBigInt (-(max + 1)) max).map intText

/-- The byte a number is stored as in a `Buffer`. -/
def byte (value : Int) : UInt8 := UInt8.ofNat (value % 256).toNat

/-- A buffer of one byte; `NaN` makes it zero. -/
def byteToBuffer : Value → Except Text Bytes
  | .number value => .ok [byte (value.getD 0)]
  | _ => .error "not a number".toList

/-- `new BN(value)` of a number makes zero of `NaN`. -/
def numberToBuffer (len : Nat) : Value → Except Text Bytes
  | .number value => (BN.number (value.getD 0)).toArrayLike len
  | _ => .error "Assertion failed".toList

/-- `value.toArrayLike(Buffer, "le", len)`, which only a `BN` has. -/
def bnToBuffer (len : Nat) : Value → Except Text Bytes
  | .bn value => value.toArrayLike len
  | _ => .error "value.toArrayLike is not a function".toList

/-! ## The types -/

/-- The error of a method of a text, called on `undefined`. -/
def ofUndefined (method : String) : Text :=
  "Cannot read properties of undefined (reading \x27".toList ++ method.toList ++ "\x27)".toList

/-- An unsigned integer that is parsed as a number. `new BN(undefined)` is zero, and in every
range. -/
def numberUint (name : String) (len : Nat) (toBuffer : Value → Except Text Bytes) : PgIdlType where
  name := name.toList
  parse value := do
    assertUint value len
    .ok (.number (parseInt value))
  parseUndefined := .ok (.number none)
  toBuffer := toBuffer
  generateRandom := generateRandomUint len

/-- A signed integer that is parsed as a number. -/
def numberInt (name : String) (len : Nat) (toBuffer : Value → Except Text Bytes) : PgIdlType where
  name := name.toList
  parse value := do
    assertInt value len
    .ok (.number (parseInt value))
  parseUndefined := .ok (.number none)
  toBuffer := toBuffer
  generateRandom := generateRandomSigned len

/-- An unsigned type that is parsed to a `BN`. -/
def bnUint (name : String) (len : Nat) : PgIdlType where
  name := name.toList
  parse value := do
    assertUint value len
    (BN.ofText value).map .bn
  parseUndefined := .ok (.bn (.number 0))
  toBuffer := bnToBuffer len
  generateRandom := generateRandomUint len

/-- A signed type that is parsed to a `BN`. -/
def bnInt (name : String) (len : Nat) : PgIdlType where
  name := name.toList
  parse value := do
    assertInt value len
    (BN.ofText value).map .bn
  parseUndefined := .ok (.bn (.number 0))
  toBuffer := bnToBuffer len
  generateRandom := generateRandomSigned len

def u8 : PgIdlType := numberUint "u8" 1 byteToBuffer

def u16 : PgIdlType := numberUint "u16" 2 (numberToBuffer 2)

def u32 : PgIdlType := numberUint "u32" 4 (numberToBuffer 4)

def u64 : PgIdlType := bnUint "u64" 8

def u128 : PgIdlType := bnUint "u128" 16

def i8 : PgIdlType := numberInt "i8" 1 byteToBuffer

def i16 : PgIdlType := numberInt "i16" 2 (numberToBuffer 2)

def i32 : PgIdlType := numberInt "i32" 4 (numberToBuffer 4)

def i64 : PgIdlType := bnInt "i64" 8

def i128 : PgIdlType := bnInt "i128" 16

end Solpg.Client.Utils
