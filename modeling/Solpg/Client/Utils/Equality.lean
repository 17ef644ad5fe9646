import Mathlib.Data.List.Nodup
import Mathlib.Data.List.Perm.Subperm
import Solpg.Std.Text

/-!
# Equality of values

`PgCommon.isEqual` on the values of `JSON.parse`. It compares what objects and arrays have as keys
and reads the second value by the keys of the first one, so that it can find there what is no key:
the length of an array, and the prototype.
-/

namespace Solpg.Client.Utils

open Solpg.Std

namespace PgCommon

/-- The own properties of an object. The keys of an array are its indices. -/
def entries : Json → List (Text × Json)
  | .array items => items.zipIdx.map fun (item, index) => ((toString index).toList, item)
  | .object fields => fields
  | _ => []

/-- `Object.keys(value).length` of an object. -/
def keysLength : Json → Option Nat
  | .array items => some items.length
  | .object fields => some fields.length
  | _ => none

/-- The key that reads the prototype. -/
def protoKey : Text := "__proto__".toList

/-- The key that reads the length of an array. -/
def lengthKey : Text := "length".toList

/-- What an object has besides its keys: an array its length, and both a prototype, which has no
keys. What else is inherited are functions. -/
def inherited : Json → Text → Option Json
  | .array items, key =>
      if key = lengthKey then some (.number (toString items.length).toList)
      else if key = protoKey then some (.object [])
      else none
  | .object _, key => if key = protoKey then some (.object []) else none
  | _, _ => none

/-- `value[key]`, unless it is `undefined` or a function, which equal nothing. -/
def property (value : Json) (key : Text) : Option Json :=
  ((entries value).lookup key).or (inherited value key)

section

variable (same : Text → Text → Bool)

mutual

/-- Whether the given values are equal; `same` is `===` of numbers by how they are written. -/
def isEqual : Json → Json → Bool
  | .null, .null => true
  | .bool first, .bool second => first = second
  | .number first, .number second => same first second
  | .string first, .string second => first = second
  | .array items, other =>
      decide (keysLength other = some items.length) && isEqualItems items 0 other
  | .object fields, other =>
      decide (keysLength other = some fields.length) && isEqualFields fields other
  | _, _ => false

/-- The loop over the items of an array. -/
def isEqualItems : List Json → Nat → Json → Bool
  | [], _, _ => true
  | item :: rest, index, other =>
      (match property other (toString index).toList with
        | some value => isEqual item value
        | none => false) && isEqualItems rest (index + 1) other

/-- The loop over the fields of an object. -/
def isEqualFields : List (Text × Json) → Json → Bool
  | [], _ => true
  | (key, value) :: rest, other =>
      (match property other key with
        | some found => isEqual value found
        | none => false) && isEqualFields rest other

end

end

/-! ## Structural equality -/

/-- The two values have the same kind and the same keys or length. -/
def SameKeys : Json → Json → Prop
  | .array items, .array others => items.length = others.length
  | .object fields, .object others => ∀ key, key ∈ fields.map Prod.fst ↔ key ∈ others.map Prod.fst
  | _, _ => False

/-- No object in the value has a key twice. -/
inductive Distinct : Json → Prop where
  | null : Distinct .null
  | bool (value : Bool) : Distinct (.bool value)
  | number (text : Text) : Distinct (.number text)
  | string (text : Text) : Distinct (.string text)
  | array {items : List Json} (each : ∀ item ∈ items, Distinct item) : Distinct (.array items)
  | object {fields : List (Text × Json)} (keys : (fields.map Prod.fst).Nodup)
      (each : ∀ field ∈ fields, Distinct field.2) : Distinct (.object fields)

/-- Structural equality: the same kind, the same keys or length, and equal components. -/
inductive Same (same : Text → Text → Bool) : Json → Json → Prop where
  | null : Same same .null .null
  | bool (value : Bool) : Same same (.bool value) (.bool value)
  | number {first second : Text} (equal : same first second = true) :
      Same same (.number first) (.number second)
  | string (text : Text) : Same same (.string text) (.string text)
  | keyed {first second : Json} (keys : SameKeys first second)
      (each : ∀ key value other, (key, value) ∈ entries first → (key, other) ∈ entries second →
        Same same value other) : Same same first second

/-- What nothing tells apart when the second value is read by the keys of the first one. -/
inductive Alike (same : Text → Text → Bool) : Json → Json → Prop where
  | null : Alike same .null .null
  | bool (value : Bool) : Alike same (.bool value) (.bool value)
  | number {first second : Text} (equal : same first second = true) :
      Alike same (.number first) (.number second)
  | string (text : Text) : Alike same (.string text) (.string text)
  | keyed {first second : Json} {count : Nat} (length : keysLength first = some count)
      (other : keysLength second = some count)
      (found : ∀ entry ∈ entries first, (property second entry.1).isSome = true)
      (each : ∀ key value other, (key, value) ∈ entries first → property second key = some other →
        Alike same value other) : Alike same first second

/-- Nothing tells the values apart, although somewhere in them the kinds or the keys differ. -/
inductive Confused (same : Text → Text → Bool) : Json → Json → Prop where
  | here {first second : Json} (alike : Alike same first second)
      (keyed : (keysLength first).isSome = true) (differ : ¬ SameKeys first second) :
      Confused same first second
  | inside {first second value other : Json} {key : Text} (alike : Alike same first second)
      (member : (key, value) ∈ entries first) (found : property second key = some other)
      (confused : Confused same value other) : Confused same first second

/-! ## What the comparison finds -/

section

variable {same : Text → Text → Bool} {first second value other : Json} {key : Text} {count : Nat}

/-- The items are equal when each equals what the other has at its index. -/
theorem isEqualItems_iff {items : List Json} {index : Nat} :
    isEqualItems same items index other = true ↔ ∀ entry ∈ items.zipIdx index,
      ∃ value, property other (toString entry.2).toList = some value ∧
        isEqual same entry.1 value = true := by
  induction items generalizing index with
  | nil => simp [isEqualItems]
  | cons item rest ih =>
      rw [isEqualItems, Bool.and_eq_true, ih, List.zipIdx_cons, List.forall_mem_cons]
      refine and_congr_left fun _ => ?_
      cases property other (toString index).toList <;> simp

/-- The fields are equal when each equals what the other has at its key. -/
theorem isEqualFields_iff {fields : List (Text × Json)} :
    isEqualFields same fields other = true ↔ ∀ field ∈ fields,
      ∃ value, property other field.1 = some value ∧ isEqual same field.2 value = true := by
  induction fields with
  | nil => simp [isEqualFields]
  | cons field rest ih =>
      obtain ⟨key, value⟩ := field
      rw [isEqualFields, Bool.and_eq_true, ih, List.forall_mem_cons]
      refine and_congr_left fun _ => ?_
      cases property other key <;> simp

/-- Objects are compared by the keys of the first one. -/
theorem isEqual_keyed (length : keysLength first = some count) :
    isEqual same first second = true ↔ keysLength second = some count ∧
      ∀ entry ∈ entries first, ∃ value, property second entry.1 = some value ∧
        isEqual same entry.2 value = true := by
  cases first with
  | array items =>
      cases length
      rw [isEqual, Bool.and_eq_true, decide_eq_true_eq, isEqualItems_iff, entries, List.forall_mem_map]
  | object fields =>
      cases length
      rw [isEqual, Bool.and_eq_true, decide_eq_true_eq, isEqualFields_iff, entries]
  | _ => cases length

/-- The entries of an array are its items. -/
theorem mem_entries_array {items : List Json} :
    (key, value) ∈ entries (.array items) → value ∈ items := by
  intro member
  obtain ⟨⟨item, index⟩, among, same⟩ := List.mem_map.mp member
  cases same
  exact (List.mem_zipIdx among).2.2 ▸ List.getElem_mem _

/-- Values with keys are alike when their entries are. -/
theorem alike_keyed_iff (length : keysLength first = some count) :
    Alike same first second ↔ keysLength second = some count ∧
      ∀ entry ∈ entries first, ∃ value, property second entry.1 = some value ∧
        Alike same entry.2 value := by
  constructor
  · intro alike
    cases alike with
    | keyed sizes others found each =>
        cases length.symm.trans sizes
        refine ⟨others, fun entry member => ?_⟩
        obtain ⟨value, here⟩ := Option.isSome_iff_exists.mp (found entry member)
        exact ⟨value, here, each _ _ _ member here⟩
    | _ => cases length
  · rintro ⟨others, all⟩
    refine .keyed length others (fun entry member => ?_) fun key value other member here => ?_
    · obtain ⟨value, here, -⟩ := all entry member
      exact Option.isSome_iff_exists.mpr ⟨value, here⟩
    · obtain ⟨found, here', alike⟩ := all _ member
      cases here.symm.trans here'
      exact alike

/-- `isEqual` compares by being alike. -/
theorem isEqual_iff_alike : isEqual same first second = true ↔ Alike same first second := by
  induction first using Json.induction generalizing second with
  | null =>
      constructor
      · intro equal
        cases second <;> first | exact .null | simp [isEqual] at equal
      · rintro (_ | _ | _ | _ | length)
        · simp only [isEqual]
        · cases length
  | bool value =>
      constructor
      · intro equal
        cases second with
        | bool other =>
            obtain rfl : value = other := by simpa [isEqual] using equal
            exact .bool value
        | _ => simp [isEqual] at equal
      · rintro (_ | _ | _ | _ | length)
        · simp [isEqual]
        · cases length
  | number text =>
      constructor
      · intro equal
        cases second with
        | number other => exact .number (by simpa only [isEqual] using equal)
        | _ => simp [isEqual] at equal
      · rintro (_ | _ | equal | _ | length)
        · simpa only [isEqual] using equal
        · cases length
  | string text =>
      constructor
      · intro equal
        cases second with
        | string other =>
            obtain rfl : text = other := by simpa [isEqual] using equal
            exact .string text
        | _ => simp [isEqual] at equal
      · rintro (_ | _ | _ | _ | length)
        · simp [isEqual]
        · cases length
  | array items ih =>
      rw [isEqual_keyed rfl, alike_keyed_iff rfl]
      refine and_congr_right fun _ => forall₂_congr fun entry member => ?_
      exact exists_congr fun value => and_congr_right fun _ => ih _ (mem_entries_array member)
  | object fields ih =>
      rw [isEqual_keyed rfl, alike_keyed_iff rfl]
      refine and_congr_right fun _ => forall₂_congr fun entry member => ?_
      exact exists_congr fun value => and_congr_right fun _ => ih _ member

/-! ## What the comparison should find -/

/-- Different numbers are written differently. -/
theorem toString_injective {first second : Nat}
    (same : (toString first).toList = (toString second).toList) : first = second := by
  have digits : Nat.toDigits 10 first = Nat.toDigits 10 second := by simpa using same
  simpa using congrArg (Nat.ofDigitChars 10 · 0) digits

/-- The keys of an array are its indices. -/
theorem keys_array (items : List Json) : (entries (.array items)).map Prod.fst =
    (List.range items.length).map fun index => (toString index).toList := by
  rw [entries, List.map_map, List.range_eq_range', ← List.zipIdx_map_snd, List.map_map]
  rfl

/-- The keys of a value are distinct. -/
theorem nodup_keys (distinct : Distinct value) : ((entries value).map Prod.fst).Nodup := by
  cases distinct with
  | array each =>
      rw [keys_array]
      exact List.nodup_range.map fun _ _ => toString_injective
  | object keys each => exact keys
  | _ => exact List.nodup_nil

/-- The parts of a value with distinct keys have distinct keys. -/
theorem distinct_part (distinct : Distinct value) (member : (key, other) ∈ entries value) :
    Distinct other := by
  cases distinct with
  | array each => exact each other (mem_entries_array member)
  | object keys each => exact each _ member
  | _ => cases member

/-- A key has what is kept under it. -/
theorem property_of_mem (distinct : Distinct value) (member : (key, other) ∈ entries value) :
    property value key = some other := by
  have found : (entries value).lookup key = some other := by
    obtain ⟨before, after, split⟩ := List.append_of_mem member
    have nodup := nodup_keys distinct
    refine List.lookup_eq_some_iff.mpr ⟨before, after, split, fun entry among => ?_⟩
    rw [split, List.map_append, List.map_cons, List.nodup_middle, List.nodup_cons] at nodup
    refine bne_iff_ne.mpr fun same => nodup.1 ?_
    exact List.mem_append_left _ (List.mem_map.mpr ⟨entry, among, same.symm⟩)
  rw [property, found, Option.some_or]

/-- Both values have the same keys. -/
theorem SameKeys.mem_iff (keys : SameKeys first second) (key : Text) :
    key ∈ (entries first).map Prod.fst ↔ key ∈ (entries second).map Prod.fst := by
  cases first with
  | array items =>
      cases second with
      | array others => rw [keys_array, keys_array, show items.length = others.length from keys]
      | _ => cases keys
  | object fields =>
      cases second with
      | object others => exact keys key
      | _ => cases keys
  | _ => cases keys

/-- A key of one value is a key of the other. -/
theorem SameKeys.exists_other (keys : SameKeys first second) (member : (key, value) ∈ entries first) :
    ∃ other, (key, other) ∈ entries second := by
  have among := (keys.mem_iff key).mp (List.mem_map_of_mem member)
  obtain ⟨⟨key, other⟩, here, rfl⟩ := List.mem_map.mp among
  exact ⟨other, here⟩

/-- Values with the same keys have as many. -/
theorem SameKeys.keysLength (keys : SameKeys first second) (distinct : Distinct first)
    (distinct' : Distinct second) :
    ∃ count, PgCommon.keysLength first = some count ∧ PgCommon.keysLength second = some count := by
  have perm : ((entries first).map Prod.fst).Perm ((entries second).map Prod.fst) :=
    (List.perm_ext_iff_of_nodup (nodup_keys distinct) (nodup_keys distinct')).mpr keys.mem_iff
  have sizes := perm.length_eq
  cases first with
  | array items =>
      cases second with
      | array others => exact ⟨_, rfl, congrArg some (show items.length = others.length from keys).symm⟩
      | _ => cases keys
  | object fields =>
      cases second with
      | object others => exact ⟨_, rfl, congrArg some (by simpa [entries] using sizes.symm)⟩
      | _ => cases keys
  | _ => cases keys

/-- Equal values are alike. -/
theorem Same.alike (equal : Same same first second) (distinct : Distinct first)
    (distinct' : Distinct second) : Alike same first second := by
  induction equal with
  | null => exact .null
  | bool value => exact .bool value
  | number equal => exact .number equal
  | string text => exact .string text
  | @keyed first second keys each ih =>
      obtain ⟨count, length, length'⟩ := keys.keysLength distinct distinct'
      refine .keyed length length' (fun entry member => ?_) fun key value other member found => ?_
      · obtain ⟨other, member'⟩ := keys.exists_other member
        rw [property_of_mem distinct' member']
        rfl
      · obtain ⟨other', member'⟩ := keys.exists_other member
        cases found.symm.trans (property_of_mem distinct' member')
        exact ih key value other member member' (distinct_part distinct member)
          (distinct_part distinct' member')

/-- Values that are alike are equal or confused. -/
theorem Alike.same_or_confused (alike : Alike same first second) (distinct : Distinct first)
    (distinct' : Distinct second) : Same same first second ∨ Confused same first second := by
  induction alike with
  | null => exact .inl .null
  | bool value => exact .inl (.bool value)
  | number equal => exact .inl (.number equal)
  | string text => exact .inl (.string text)
  | @keyed first second count length length' found each ih =>
      have alike : Alike same first second := .keyed length length' found each
      by_cases keys : SameKeys first second
      · refine or_iff_not_imp_right.mpr fun clear => .keyed keys fun key value other member member' => ?_
        have here := property_of_mem distinct' member'
        refine (ih key value other member here (distinct_part distinct member)
          (distinct_part distinct' member')).resolve_right fun confused => clear ?_
        exact .inside alike member here confused
      · exact .inr (.here alike (by rw [length]; rfl) keys)

/-- Confused values are alike. -/
theorem Confused.alike (confused : Confused same first second) : Alike same first second := by
  cases confused with
  | here alike => exact alike
  | inside alike => exact alike

/-- Confused values are not equal. -/
theorem Confused.not_same (confused : Confused same first second) (distinct : Distinct first)
    (distinct' : Distinct second) : ¬ Same same first second := by
  induction confused with
  | here alike keyed differ =>
      intro equal
      cases equal with
      | keyed keys each => exact differ keys
      | _ => cases keyed
  | inside alike member found confused ih =>
      intro equal
      cases equal with
      | keyed keys each =>
          obtain ⟨other, member'⟩ := keys.exists_other member
          cases found.symm.trans (property_of_mem distinct' member')
          exact ih (distinct_part distinct member) (distinct_part distinct' member')
            (each _ _ _ member member')
      | _ => cases member

/-- The comparison finds structural equality unless the values are confused. -/
theorem isEqual_iff_same (distinct : Distinct first) (distinct' : Distinct second) :
    (isEqual same first second = true ↔ Same same first second) ↔ ¬ Confused same first second := by
  rw [isEqual_iff_alike]
  constructor
  · intro agrees confused
    exact confused.not_same distinct distinct' (agrees.mp confused.alike)
  · intro clear
    constructor
    · exact fun alike => (alike.same_or_confused distinct distinct').resolve_right clear
    · exact fun equal => equal.alike distinct distinct'

/-- A list of one value and itself. -/
theorem isEqual_same_list :
    isEqual (fun first second => first = second) (.array [.null]) (.array [.null]) = true ↔
      Same (fun first second => first = second) (.array [.null]) (.array [.null]) := by
  have distinct : Distinct (.array [.null]) := .array fun item member =>
    List.mem_singleton.mp member ▸ .null
  refine (isEqual_iff_same distinct distinct).mpr ?_
  rintro (⟨-, -, differ⟩ | ⟨-, member, found, confused⟩)
  · exact differ rfl
  · obtain ⟨rfl, rfl⟩ := Prod.mk.inj (List.mem_singleton.mp member)
    cases found
    rcases confused with ⟨-, keyed, -⟩ | ⟨-, member, -, -⟩
    · cases keyed
    · cases member

/-- The empty list equals the empty object. -/
theorem not_always_structural : ¬ ∀ (same : Text → Text → Bool) (first second : Json),
    Distinct first → Distinct second →
      (isEqual same first second = true ↔ Same same first second) := by
  intro always
  have distinct : Distinct (.object []) := .object List.nodup_nil nofun
  have equal := (always (fun _ _ => true) (.array []) (.object []) (.array nofun) distinct).mp rfl
  cases equal with
  | keyed keys each => exact keys

end

end PgCommon
end Solpg.Client.Utils
