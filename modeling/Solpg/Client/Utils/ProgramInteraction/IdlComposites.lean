import Solpg.Client.Utils.Common
import Solpg.Client.Utils.ProgramInteraction.IdlPrimitives

/-!
# Composite types of an IDL

Structs, from `idl-composites.ts`. `resolve` is `getIdlType`: it gives the type of a field.
-/

namespace Solpg.Client.Utils

open Solpg.Std

/-- The fields of an enum variant. -/
inductive EnumFields where
  | named (fields : List (Text × IdlType))
  | tuple (fields : List IdlType)

/-- A variant of an enum. -/
structure Variant where
  name : Text
  fields : Option EnumFields

/-- A defined type of the IDL. -/
inductive TypeDef where
  | struct (fields : List (Text × IdlType))
  | enum (variants : List Variant)
  | alias (value : IdlType)

/-- The defined types of an IDL. -/
abbrev Idl := List (Text × TypeDef)

/-- The resolution of a type against an IDL. -/
abbrev ResolveIdlType := IdlType → Idl → Except Text PgIdlType

open PgCommon

/-- `slice(1, -1)`. -/
def inside (text : Text) : Text := (text.drop 1).dropLast

/-- An object or a list is written between its brackets. -/
def isBetween (first last : Char) (text : Text) : Bool :=
  text.head? = some first && text.getLast? = some last

/-! ## Objects -/

/-- The number that a key is when it is an array index. -/
def arrayIndex (key : Text) : Option Nat :=
  let index := Nat.ofDigitChars 10 key 0
  if key = Nat.toDigits 10 index ∧ index < 2 ^ 32 - 1 then some index else none

/-- A new key goes in front of another one: array indices come first, in their order. -/
def precedes (key other : Text) : Bool :=
  match arrayIndex key, arrayIndex other with
  | some index, some held => index < held
  | some _, none => true
  | none, _ => false

/-- `result[key] = value`, the own properties in the order of `Object.entries`. -/
def assign (key : Text) (value : Value) : List (Text × Value) → List (Text × Value)
  | [] => [(key, value)]
  | (other, held) :: rest =>
      if other = key then (key, value) :: rest
      else if precedes key other then (key, value) :: (other, held) :: rest
      else (other, held) :: assign key value rest

/-- `result[key] = value`. Assigning `__proto__` makes no property. -/
def setProperty (key : Text) (value : Value) (result : List (Text × Value)) : List (Text × Value) :=
  if key = protoKey then result else assign key value result

/-! ## Structs -/

/-- The key of a piece of the input and what stands behind it, if anything does. -/
def splitField (input : Text) : Text × Option Text :=
  let parts := (input.splitOn ':').map Text.trim
  (parts.headD [], parts[1]?)

/-- A piece that may be `undefined` is parsed. -/
def parsePiece (type : PgIdlType) : Option Text → Except Text Value
  | some fieldValue => type.parse fieldValue
  | none => type.parseUndefined

/-- The field of this name, or the error that there is none. -/
def findField (fields : List (Text × IdlType)) (key : Text) : Except Text (Text × IdlType) :=
  match fields.find? fun candidate => candidate.1 = key with
  | none => .error ("Field \x60".toList ++ key ++ "\x60 not found".toList)
  | some field => .ok field

/-- One field of a struct is parsed. -/
def parseField (fields : List (Text × IdlType)) (idl : Idl) (resolve : ResolveIdlType)
    (result : List (Text × Value)) (input : Text) : Except Text (List (Text × Value)) := do
  let (key, fieldValue) := splitField input
  let field ← findField fields key
  let value ← parsePiece (← resolve field.2 idl) fieldValue
  .ok (setProperty key value result)

/-- One field of a struct is serialized. -/
def fieldToBuffer (fields : List (Text × IdlType)) (idl : Idl) (resolve : ResolveIdlType)
    (entry : Text × Value) : Except Text Bytes := do
  let field ← findField fields entry.1
  (← resolve field.2 idl).toBuffer entry.2

/-- The text of a field behind the ones before it. -/
def fieldText (index : Nat) (name value : Text) : Text :=
  (if index = 0 then [] else [',']) ++ ' ' :: (name ++ ':' :: ' ' :: value)

/-- `createStructType`. -/
def createStructType (name : Text) (fields : List (Text × IdlType)) (idl : Idl)
    (resolve : ResolveIdlType) : PgIdlType where
  name := name
  parse value :=
    if !isBetween '\x7b' '\x7d' value then .error "Not an object".toList
    else
      let inputFields := (inside value).splitOn ','
      if inputFields.length ≠ fields.length then .error "Struct fields do not match".toList
      else (inputFields.foldlM (parseField fields idl resolve) []).map .object
  parseUndefined := .error (ofUndefined "startsWith")
  toBuffer
    | .object entries => (entries.mapM (fieldToBuffer fields idl resolve)).map List.flatten
    | _ => .error "Cannot convert the value to an object".toList
  generateRandom :=
    (Random.collect (fields.map fun field =>
      (Random.ofExcept (resolve field.2 idl)).bind PgIdlType.generateRandom)).map fun values =>
        '\x7b' :: ((List.zipWith (fun (field : (Text × IdlType) × Nat) value =>
          fieldText field.2 field.1.1 value) fields.zipIdx values).flatten ++ [' ', '\x7d'])

end Solpg.Client.Utils
