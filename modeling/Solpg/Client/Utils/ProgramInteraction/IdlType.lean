import Solpg.Client.Utils.Equality

/-!
# Types of an IDL

`IdlType` of the Anchor package, as the plain object that it is, and the comparison of plain
objects that the client uses.
-/

namespace Solpg.Client.Utils

open Solpg.Std

inductive IdlType where
  | primitive (name : Text)
  | defined (name : Text)
  | option (inner : IdlType)
  | coption (inner : IdlType)
  | vec (inner : IdlType)
  | array (inner : IdlType) (length : Nat)
  deriving DecidableEq

namespace IdlType

def toJson : IdlType → Json
  | primitive name => .string name
  | defined name => .object [("defined".toList, .string name)]
  | option inner => .object [("option".toList, inner.toJson)]
  | coption inner => .object [("coption".toList, inner.toJson)]
  | vec inner => .object [("vec".toList, inner.toJson)]
  | array inner length =>
      .object [("array".toList, .array [inner.toJson, .number (toString length).toList])]

end IdlType

/-- `===` of the lengths in IDL types. Each length is written in one way. -/
def sameLength (first second : Text) : Bool := first = second

namespace PgCommon

@[simp] theorem isEqual_string (first second : Text) :
    isEqual sameLength (.string first) (.string second) = decide (first = second) := by
  simp only [isEqual]

@[simp] theorem isEqual_string_object (text : Text) (fields : List (Text × Json)) :
    isEqual sameLength (.string text) (.object fields) = false := by simp [isEqual]

@[simp] theorem isEqual_object_string (fields : List (Text × Json)) (text : Text) :
    isEqual sameLength (.object fields) (.string text) = false := by simp [isEqual, keysLength]

/-- An object with one key equals only objects with that key. -/
theorem isEqual_single {key : Text} (own : key ≠ protoKey) (value : Json) (other : Text)
    (held : Json) : isEqual sameLength (.object [(key, value)]) (.object [(other, held)]) =
      (decide (key = other) && isEqual sameLength value held) := by
  by_cases same : key = other
  · subst same
    simp [isEqual, isEqualFields, keysLength, property, entries]
  · have missing : (key == other) = false := by simpa using same
    simp [isEqual, isEqualFields, keysLength, property, entries, inherited, List.lookup_cons, missing,
      same, own]

theorem isEqual_pair (first second other held : Json) :
    isEqual sameLength (.array [first, second]) (.array [other, held]) =
      (isEqual sameLength first other && isEqual sameLength second held) := by
  have zero : property (.array [other, held]) (toString 0).toList = some other := rfl
  have one : property (.array [other, held]) (toString 1).toList = some held := rfl
  simp only [isEqual, isEqualItems, keysLength, zero, one]
  simp

end PgCommon

open PgCommon

/-- Types are equal as objects only when they are the same. -/
theorem isEqual_toJson (first second : IdlType) :
    isEqual sameLength first.toJson second.toJson = true ↔ first = second := by
  induction first generalizing second with
  | primitive name => cases second <;> simp [IdlType.toJson]
  | defined name => cases second <;> simp (disch := decide) [IdlType.toJson, isEqual_single]
  | option inner ih => cases second <;> simp (disch := decide) [IdlType.toJson, isEqual_single, ih]
  | coption inner ih => cases second <;> simp (disch := decide) [IdlType.toJson, isEqual_single, ih]
  | vec inner ih => cases second <;> simp (disch := decide) [IdlType.toJson, isEqual_single, ih]
  | array inner length ih =>
      cases second with
      | array other size =>
          have sizes : isEqual sameLength (.number (toString length).toList)
              (.number (toString size).toList) = decide (length = size) := by
            simp only [isEqual, sameLength]
            exact decide_eq_decide.mpr ⟨toString_injective, fun same => same ▸ rfl⟩
          have own : "array".toList ≠ protoKey := by decide
          simp only [IdlType.toJson, isEqual_single own, isEqual_pair, sizes]
          simp [ih]
      | _ => simp (disch := decide) [IdlType.toJson, isEqual_single]

end Solpg.Client.Utils
