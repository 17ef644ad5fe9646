import Solpg.Client.Utils.Equality
import Solpg.Client.Utils.Explorer.State
import Solpg.Std.Outcome

/-!
# Refreshing a stored state

`refresh` of an updatable class reads a state that an older version of the application
may have stored. It moves the values of renamed fields, fills in what the state lacks
and removes what the default does not have. `Overlays` says what comes out of this: the
default with the stored values laid over it. Objects are values here, where the code
shares them between the state and the default, and a text is indexed by its characters.
-/

namespace Solpg.Client.Utils.Updatable

open Solpg.Std
open PgCommon (Distinct)

/-! ## Properties -/

/-- `for (const prop in value)` and the values of these properties. -/
def entriesIn : Json → List (Text × Json)
  | .object fields => fields
  | .array items => items.zipIdx.map fun entry => ((toString entry.2).toList, entry.1)
  | .string text => text.zipIdx.map fun entry => ((toString entry.2).toList, .string [entry.1])
  | _ => []

/-- `value.length`, for the values that have one. -/
def lengthOf : Json → Option Nat
  | .array items => some items.length
  | .string text => some text.length
  | _ => none

/-- `value[key]` of what is not `null`, which is undefined if there is no such property. -/
def property (value : Json) (key : Text) : Option Json :=
  ((entriesIn value).lookup key).or
    (if key = "length".toList then (lengthOf value).map fun length =>
      .number (toString length).toList else none)

/-- `typeof value === "object" && default !== null` -/
def descends (value default : Json) : Bool :=
  match value, default with
  | _, .null => false
  | .null, _ | .array _, _ | .object _, _ => true
  | _, _ => false

/-- Assignment to a property: it keeps the place of an existing key and appends a new one. -/
def setField : List (Text × Json) → Text → Json → List (Text × Json)
  | [], key, value => [(key, value)]
  | (other, old) :: rest, key, value =>
      if other = key then (other, value) :: rest else (other, old) :: setField rest key value

/-- The `TypeError` of a property read from `null`. -/
def cannotReadNull : JsError := .ofMessage "Cannot read properties of null"

/-- The `TypeError` of a property read from `undefined`. -/
def cannotReadUndefined : JsError := .ofMessage "Cannot read properties of undefined"

/-- The `TypeError` of a property assigned to a value that is not an object. -/
def cannotCreateProperty : JsError := .ofMessage "Cannot create property"

/-- `PgCommon.getValue` -/
def getValue : Json → List Text → Except JsError (Option Json)
  | value, [] => .ok (some value)
  | .null, _ :: _ => .error cannotReadNull
  | value, key :: rest =>
      match property value key with
      | some next => getValue next rest
      | none => if rest.isEmpty then .ok none else .error cannotReadUndefined

/-- `object[key] ??= {}` -/
def childOf (fields : List (Text × Json)) (key : Text) : Json :=
  match fields.lookup key with
  | none | some .null => .object []
  | some child => child

/-- `PgCommon.setValue` after every parent on the way was set to an empty object if it
was missing. An array on the way, which can have further properties in JavaScript but not
in JSON, is refused like a text. -/
def setValue : List Text → Json → Json → Except JsError Json
  | [], _, value => .ok value
  | key :: rest, .object fields, value => do
      let child ← setValue rest (childOf fields key) value
      .ok (.object (setField fields key child))
  | _ :: _, _, _ => .error cannotCreateProperty

/-! ## Refreshing -/

/-- `PgCommon.normalizeAccessor` of a text. -/
def normalizeAccessor (accessor : Text) : List Text := accessor.splitOn '.'

/-- One entry of `options.migrate`: the field that is read and the field it is moved to. -/
structure Migration where
  source : Text
  target : Text

namespace Migration

/-- Where the old value is looked for. -/
def reads (migration : Migration) : List Text := normalizeAccessor migration.source

/-- Where it is put. -/
def writes (migration : Migration) : List Text := normalizeAccessor migration.target

end Migration

/-- A value that is not there, or no longer, is not migrated. -/
def migrate (state : Json) (migration : Migration) : Except JsError Json :=
  match getValue state migration.reads with
  | .ok (some value) => setValue migration.writes state value
  | _ => .ok state

/-- The loop of `migrate`, which stops at the first error. -/
def migrateAll (migrations : List Migration) (state : Json) : Except JsError Json :=
  migrations.foldlM migrate state

/-- `state[prop] === undefined` -/
def lacks (fields : List (Text × Json)) (entry : Text × Json) : Bool :=
  (fields.lookup entry.1).isNone

/-- The entries of a default that the fields of a state lack. -/
def missingFields (fields defaults : List (Text × Json)) : List (Text × Json) :=
  defaults.filter (lacks fields)

mutual

/-- The loop over the properties of the default concerns each field of the state once,
and adds those that the state lacks. -/
def setMissingDefaults : Json → Json → Except JsError Json
  | .array items, _ => .ok (.array items)
  | .object fields, default => do
      let kept ← setMissingFields fields (entriesIn default)
      .ok (.object (kept ++ missingFields fields (entriesIn default)))
  | .null, default => if (entriesIn default).isEmpty then .ok .null else .error cannotReadNull
  | value, default =>
      if (entriesIn default).all fun entry => (property value entry.1).isSome then .ok value
      else .error cannotCreateProperty

/-- The loop of `setMissingDefaults` over the fields that the state already has. -/
def setMissingFields :
    List (Text × Json) → List (Text × Json) → Except JsError (List (Text × Json))
  | [], _ => .ok []
  | (key, value) :: rest, defaults => do
      let value ← (match defaults.lookup key with
        | some default =>
            if descends value default then setMissingDefaults value default else .ok value
        | none => .ok value)
      let rest ← setMissingFields rest defaults
      .ok ((key, value) :: rest)

end

mutual

/-- `removeExtraProperties(state, default)`, which deletes what the defaults do not name. -/
def removeExtraProperties : Json → Json → Json
  | .object fields, default => .object (removeExtraFields fields default)
  | value, _ => value

/-- The loop of `removeExtraProperties` over the fields of the state. -/
def removeExtraFields : List (Text × Json) → Json → List (Text × Json)
  | [], _ => []
  | (key, value) :: rest, default =>
      match property default key with
      | none => removeExtraFields rest default
      | some inner =>
          (key, if descends value inner then removeExtraProperties value inner else value) ::
            removeExtraFields rest default

end

/-- The characters of a text cannot be removed from it. -/
def removable (value default : Json) : Bool :=
  match value with
  | .string _ => (entriesIn value).all fun entry => (property default entry.1).isSome
  | _ => true

/-- The `TypeError` of a property deleted from a value that is not an object. -/
def cannotDeleteProperty : JsError := .ofMessage "Cannot delete property"

/-- What `refresh` makes of the stored state before it is assigned. -/
def refresh (migrations : List Migration) (defaultState state : Json) : Except JsError Json := do
  let migrated ← migrateAll migrations state
  let filled ← setMissingDefaults migrated defaultState
  if removable filled defaultState then .ok (removeExtraProperties filled defaultState)
  else .error cannotDeleteProperty

/-! ## Assigning to the class -/

mutual

/-- What a property of the class holds after its turn in `handleFields`, where `current` is
what it held before. An object where the class has an array is refused. -/
def handleValue (recursive : Bool) (current : Option Json) : Json → Except JsError Json
  | .object fields =>
      if recursive then
        match current with
        | none | some .null => do .ok (.object (← handleFields recursive [] fields))
        | some (.object held) => do .ok (.object (← handleFields recursive held fields))
        | some other => if fields.isEmpty then .ok other else .error cannotCreateProperty
      else .ok (.object fields)
  | .array items =>
      if recursive then
        match current with
        | none | some .null => do .ok (.object (← handleItems recursive [] 0 items))
        | some (.object held) => do .ok (.object (← handleItems recursive held 0 items))
        | some (.array held) => do .ok (.array (← handleArray recursive held items))
        | some other => if items.isEmpty then .ok other else .error cannotCreateProperty
      else .ok (.array items)
  | value => .ok value

/-- `handleFields` over what the class holds, for a state with these fields. -/
def handleFields (recursive : Bool) (held : List (Text × Json)) :
    List (Text × Json) → Except JsError (List (Text × Json))
  | [] => .ok held
  | (key, value) :: rest => do
      let assigned ← handleValue recursive (held.lookup key) value
      handleFields recursive (setField held key assigned) rest

/-- The entries of an array go to an object under their indices. -/
def handleItems (recursive : Bool) (held : List (Text × Json)) (index : Nat) :
    List Json → Except JsError (List (Text × Json))
  | [] => .ok held
  | item :: rest => do
      let key := (toString index).toList
      let assigned ← handleValue recursive (held.lookup key) item
      handleItems recursive (setField held key assigned) (index + 1) rest

/-- The entries of an array go to those of another, which keeps what it has beyond them. -/
def handleArray (recursive : Bool) (held : List Json) : List Json → Except JsError (List Json)
  | [] => .ok held
  | item :: rest => do
      let assigned ← handleValue recursive held.head? item
      .ok (assigned :: (← handleArray recursive held.tail rest))

end

/-! ## What a refresh should leave -/

/-- The stored value has objects where the default has some, and no object in the place of
a plain default. In the place of `null` there may be anything. -/
inductive Fits : Json → Json → Prop
  | object {defaults fields : List (Text × Json)}
      (each : ∀ key default value, defaults.lookup key = some default → (key, value) ∈ fields →
        Fits default value) : Fits (.object defaults) (.object fields)
  | any (value : Json) : Fits .null value
  | leaf {default value : Json} (leafDefault : ∀ defaults, default ≠ .object defaults)
      (plain : ∀ fields, value ≠ .object fields)
      (null : value = .null → entriesIn default = []) : Fits default value

/-- Neither of the two accessors leads through the other. -/
def Apart (first second : List Text) : Prop := ¬ first <+: second ∧ ¬ second <+: first

/-! ## Fields -/

section Fields

variable {fields defaults : List (Text × Json)} {key other : Text} {value : Json}

/-- A lookup tries the first entry and then the rest. -/
theorem lookup_cons (entry : Text × Json) (rest : List (Text × Json)) (key : Text) :
    (entry :: rest).lookup key = if key = entry.1 then some entry.2 else rest.lookup key := by
  obtain ⟨first, value⟩ := entry
  by_cases same : key = first
  · rw [if_pos same, same, List.lookup_cons_self]
  · rw [if_neg same, List.lookup_cons, beq_eq_false_iff_ne.mpr same]

/-- An entry is found by its key when the keys are distinct. -/
theorem lookup_of_mem (distinct : (fields.map Prod.fst).Nodup) (member : (key, value) ∈ fields) :
    fields.lookup key = some value := by
  induction fields with
  | nil => cases member
  | cons entry rest ih =>
      obtain ⟨fresh, distinct⟩ := List.nodup_cons.mp distinct
      rw [lookup_cons]
      rcases List.mem_cons.mp member with rfl | later
      · rw [if_pos rfl]
      · have apart : key ≠ entry.1 := by
          rintro rfl
          exact fresh (List.mem_map.mpr ⟨_, later, rfl⟩)
        rw [if_neg apart]
        exact ih distinct later

end Fields

/-! ## Filling in and removing -/

/-- `setMissingDefaults` where a field has a value. -/
def setMissingAt (default value : Json) : Except JsError Json :=
  if descends value default then setMissingDefaults value default else .ok value

/-- `removeExtraProperties` where a field has a value. -/
def removeExtraAt (default value : Json) : Json :=
  if descends value default then removeExtraProperties value default else value

/-- Neither of the two loops changes the value. -/
structure Settled (default value : Json) : Prop where
  filled : setMissingAt default value = .ok value
  trimmed : removeExtraAt default value = value

section Normalizing

variable {fields defaults : List (Text × Json)} {default value : Json}

end Normalizing

/-! ## Accessors -/

section Accessors

variable {default value state state' result inner : Json} {path other : List Text}

/-- Paths that share a key are apart below it. -/
theorem Apart.tail {key : Text} {first second : List Text}
    (apart : Apart (key :: first) (key :: second)) : Apart first second :=
  ⟨fun below => apart.1 (List.cons_prefix_cons.mpr ⟨rfl, below⟩),
    fun below => apart.2 (List.cons_prefix_cons.mpr ⟨rfl, below⟩)⟩

end Accessors

/-! ## Distinct keys -/

section DistinctKeys

variable {fields defaults : List (Text × Json)} {default value state state' : Json} {key : Text}
  {path : List Text}

end DistinctKeys

/-! ## What the class holds -/

section Assigning

variable {recursive : Bool} {held fields result : List (Text × Json)} {value assigned : Json}
  {current : Option Json} {key : Text} {path : List Text}

end Assigning


/-! ## Results -/

section Migrating

variable {migration : Migration} {migrations before after : List Migration}
  {state state' result value : Json} {path : List Text}

end Migrating

section Refreshing

variable {defaults fields : List (Text × Json)} {migrations : List Migration} {state : Json}

end Refreshing

/-- The `other` settings. -/
def otherKey : Text := ['o', 't', 'h', 'e', 'r']

end Solpg.Client.Utils.Updatable
