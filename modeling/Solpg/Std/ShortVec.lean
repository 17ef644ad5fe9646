import Mathlib.Tactic.Ring

/-!
# Short vectors

A vector behind its length, where the length is written in groups of seven bits:
lowest first, and every byte but the last says that another one follows. No
length has two encodings. Values are trees of JSON whose numbers are natural.
-/

namespace Solpg.Std

/-- A value of JSON without texts, signs and fractions. -/
inductive NatJson where
  | number (value : Nat)
  | array (items : List NatJson)
  | object (fields : List (String × NatJson))

namespace ShortVec

/-! ## Lengths -/

/-- The bytes from the `nth` on, behind those that make up `value`: no byte is out
of range, none after the first is zero, there are three at most, and the length
has 16 bits. -/
def visitBytes (nth value : Nat) : List Nat → Option Nat
  | [] => none
  | byte :: rest =>
      if 256 ≤ byte ∨ (byte = 0 ∧ nth ≠ 0) ∨ 3 ≤ nth ∨ (nth = 2 ∧ 128 ≤ byte) then none
      else if 2 ^ 16 ≤ value + byte % 128 * 128 ^ nth then none
      else if byte < 128 then
        if rest.isEmpty then some (value + byte % 128 * 128 ^ nth) else none
      else visitBytes (nth + 1) (value + byte % 128 * 128 ^ nth) rest

/-- The length that the bytes write. -/
def readLength (bytes : List Nat) : Option Nat := visitBytes 0 0 bytes

end ShortVec

/-! ## Values -/

namespace NatJson

/-- A `u8`. -/
def byte : NatJson → Option Nat
  | number value => if value < 256 then some value else none
  | _ => none

/-- The items of an array. -/
def items : NatJson → Option (List NatJson)
  | array items => some items
  | _ => none

/-- The field of that name, of which there is one. Other fields are ignored. -/
def field (name : String) : NatJson → Option NatJson
  | object fields =>
      match fields.filter (·.1 = name) with
      | [field] => some field.2
      | _ => none
  | _ => none

/-- `Vec<u8>` and arrays of bytes, as lists. -/
def bytes (value : NatJson) : Option (List UInt8) :=
  value.items.bind fun items => (items.mapM byte).map (·.map UInt8.ofNat)

/-- `[u8; count]`. -/
def byteArray (count : Nat) (value : NatJson) : Option (Vector UInt8 count) :=
  value.bytes.bind fun bytes =>
    if exact_ : bytes.length = count then some ⟨bytes.toArray, exact_⟩ else none

/-- A vector behind its length. -/
def shortVec {α : Type} (item : NatJson → Option α) : NatJson → Option (List α)
  | array (length :: items) =>
      ((length.items.bind (·.mapM byte)).bind ShortVec.readLength).bind fun length =>
        if items.length = length then items.mapM item else none
  | _ => none

end NatJson

/-! ## Reading what was written -/

/-- What `write` writes of a value is read as `value` says when it fits, and otherwise as
nothing. -/
def Reads {α β : Type} (write : α → NatJson) (read : NatJson → Option β) (fits : α → Prop)
    (value : α → β) : Prop :=
  ∀ x, (fits x → read (write x) = some (value x)) ∧ (¬ fits x → read (write x) = none)

namespace Reads

variable {α β : Type} {write : α → NatJson} {read : NatJson → Option β} {fits : α → Prop}
  {value : α → β}

/-- Numbers below 256 are read as bytes. -/
theorem byte : Reads NatJson.number NatJson.byte (· < 256) id :=
  fun _ => ⟨fun small => if_pos small, fun large => if_neg large⟩

/-- Items are read one by one, and all of them or none. -/
theorem items (reads : Reads write read fits value) (xs : List α) :
    ((∀ x ∈ xs, fits x) → (xs.map write).mapM read = some (xs.map value)) ∧
      ((¬ ∀ x ∈ xs, fits x) → (xs.map write).mapM read = none) := by
  induction xs with
  | nil => exact ⟨fun _ => rfl, fun never => absurd (List.forall_mem_nil _) never⟩
  | cons x xs ih =>
      rw [List.map_cons, List.mapM_cons, List.forall_mem_cons]
      constructor
      · rintro ⟨first, rest⟩
        rw [(reads x).1 first, ih.1 rest]
        rfl
      · intro some_
        by_cases first : fits x
        · rw [(reads x).1 first, ih.2 fun rest => some_ ⟨first, rest⟩]
          rfl
        · rw [(reads x).2 first]
          rfl

end Reads

end Solpg.Std
