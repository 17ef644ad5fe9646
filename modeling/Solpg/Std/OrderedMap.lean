import Mathlib.Data.List.Basic
import Mathlib.Data.List.Nodup

/-!
# Maps in insertion order

The plain objects of ECMAScript: a key keeps its place when it is assigned
again, a new key goes to the end. A `for … in` loop goes through the keys that
were there when it began and passes over those that are gone by their turn.
-/

namespace Solpg.Std

universe u v w

/-- Entries in order, with distinct keys. -/
structure OrderedMap (α : Type u) (β : Type v) where
  entries : List (α × β)
  distinct : (entries.map Prod.fst).Nodup

namespace OrderedMap

variable {α : Type u} {β : Type v}

/-- The keys in their order. -/
def keys (map : OrderedMap α β) : List α := map.entries.map Prod.fst

/-- The map without entries. -/
def empty : OrderedMap α β := ⟨[], List.nodup_nil⟩

/-- No key comes twice. -/
theorem nodup_keys (map : OrderedMap α β) : map.keys.Nodup := map.distinct

variable [DecidableEq α]

/-- The value of a key. -/
def get (map : OrderedMap α β) (key : α) : Option β := map.entries.lookup key

/-- `key in map`. -/
def has (map : OrderedMap α β) (key : α) : Bool := key ∈ map.keys

/-- The entries with another value under the key. -/
def replace (key : α) (value : β) (entries : List (α × β)) : List (α × β) :=
  entries.map fun entry => if entry.1 = key then (key, value) else entry

/-- Replacing a value keeps the keys and their order. -/
theorem keys_replace (key : α) (value : β) (entries : List (α × β)) :
    (replace key value entries).map Prod.fst = entries.map Prod.fst := by
  rw [replace, List.map_map]
  apply List.map_congr_left
  intro entry _
  by_cases here : entry.1 = key <;> simp [here]

/-- `map[key] = value`. -/
def set (map : OrderedMap α β) (key : α) (value : β) : OrderedMap α β :=
  if present : key ∈ map.keys then
    { entries := replace key value map.entries
      distinct := (keys_replace key value map.entries).symm ▸ map.distinct }
  else
    { entries := map.entries ++ [(key, value)]
      distinct := by
        rw [List.map_append, List.map_singleton, List.nodup_append]
        refine ⟨map.distinct, List.nodup_singleton _, ?_⟩
        rintro other member _ (_ | ⟨_, ⟨⟩⟩) rfl
        exact present member }

/-- `delete map[key]`. -/
def erase (map : OrderedMap α β) (key : α) : OrderedMap α β where
  entries := map.entries.filter fun entry => entry.1 ≠ key
  distinct := map.distinct.sublist (List.filter_sublist.map _)

/-- The map without the entries that do not pass. -/
def filter (keep : α → β → Bool) (map : OrderedMap α β) : OrderedMap α β where
  entries := map.entries.filter fun entry => keep entry.1 entry.2
  distinct := map.distinct.sublist (List.filter_sublist.map _)

variable {map : OrderedMap α β} {key other : α} {value : β} {entries : List (α × β)}

/-- The first entry decides about its own key. -/
theorem lookup_cons (entry : α × β) (rest : List (α × β)) (key : α) :
    (entry :: rest).lookup key = if key = entry.1 then some entry.2 else rest.lookup key := by
  obtain ⟨first, held⟩ := entry
  by_cases here : key = first
  · simp [here]
  · have other : (key == first) = false := by simpa using here
    simp [List.lookup_cons, here, other]

/-- Nothing is found under a key that is not there. -/
theorem lookup_eq_none : entries.lookup key = none ↔ key ∉ entries.map Prod.fst := by
  induction entries with
  | nil => simp
  | cons entry rest ih =>
      rw [lookup_cons, List.map_cons, List.mem_cons, not_or, ← ih]
      by_cases here : key = entry.1 <;> simp [here]

/-- A map has no value for a key that is not among its keys. -/
theorem get_eq_none : map.get key = none ↔ key ∉ map.keys := lookup_eq_none

/-- The keys are those that have a value. -/
theorem mem_keys_iff : key ∈ map.keys ↔ (map.get key).isSome = true := by
  rw [Option.isSome_iff_ne_none, Ne, get_eq_none, not_not]

@[simp] theorem get_empty : (empty : OrderedMap α β).get key = none := rfl

/-- Replacing changes what is found under the key, and nothing else. -/
theorem lookup_replace (present : key ∈ entries.map Prod.fst) :
    (replace key value entries).lookup other =
      if other = key then some value else entries.lookup other := by
  induction entries with
  | nil => simp at present
  | cons entry rest ih =>
      have step : replace key value (entry :: rest) =
          (if entry.1 = key then (key, value) else entry) :: replace key value rest := rfl
      rw [step, lookup_cons, lookup_cons]
      by_cases here : entry.1 = key
      · by_cases wanted : other = key
        · simp [here, wanted]
        · -- Behind its only place the key is not found again.
          by_cases again : key ∈ rest.map Prod.fst
          · simp [here, wanted, ih again]
          · have unchanged : replace key value rest = rest := by
              refine (List.map_congr_left fun entry member => ?_).trans (List.map_id _)
              exact if_neg fun same => again (List.mem_map.mpr ⟨entry, member, same⟩)
            simp [here, wanted, unchanged]
      · have later : key ∈ rest.map Prod.fst := by
          rcases List.mem_cons.mp present with same | later
          · exact absurd same.symm here
          · exact later
        by_cases wanted : other = key
        · subst wanted
          simp [here, Ne.symm here, ih later]
        · simp [here, wanted, ih later]

/-- Setting changes the value of the key, and of no other. -/
theorem get_set (map : OrderedMap α β) (key : α) (value : β) (other : α) :
    (map.set key value).get other = if other = key then some value else map.get other := by
  by_cases present : key ∈ map.keys
  · rw [set, dif_pos present, get, get]
    exact lookup_replace present
  · rw [set, dif_neg present, get, get, List.lookup_append]
    by_cases wanted : other = key
    · subst wanted
      simp [lookup_eq_none.mpr present]
    · rw [lookup_cons, if_neg wanted, if_neg wanted]
      simp

/-- What was set is found. -/
@[simp] theorem get_set_self (map : OrderedMap α β) (key : α) (value : β) :
    (map.set key value).get key = some value := by
  simp [get_set]

/-- Setting one key keeps the value of another. -/
theorem get_set_of_ne (different : other ≠ key) :
    (map.set key value).get other = map.get other := by
  simp [get_set, different]

/-- Dropping the entries of a key drops its value, and no other. -/
theorem lookup_filter_ne (entries : List (α × β)) (key other : α) :
    (entries.filter fun entry => entry.1 ≠ key).lookup other =
      if other = key then none else entries.lookup other := by
  induction entries with
  | nil => simp
  | cons entry rest ih =>
      by_cases here : entry.1 = key
      · rw [List.filter_cons_of_neg (by simpa using here), ih, lookup_cons]
        by_cases wanted : other = key
        · simp [wanted]
        · have notFirst : other ≠ entry.1 := fun same => wanted (same.trans here)
          simp [wanted, notFirst]
      · rw [List.filter_cons_of_pos (by simpa using here), lookup_cons, lookup_cons, ih]
        by_cases wanted : other = key
        · have notFirst : other ≠ entry.1 := fun same => here (same.symm.trans wanted)
          simp [wanted, wanted ▸ notFirst]
        · simp [wanted]

/-- Erasing drops the value of the key, and of no other. -/
theorem get_erase (map : OrderedMap α β) (key other : α) :
    (map.erase key).get other = if other = key then none else map.get other :=
  lookup_filter_ne map.entries key other

/-- Erasing several keys drops their values, and no other. -/
theorem get_foldl_erase (keys : List α) (map : OrderedMap α β) (key : α) :
    (keys.foldl erase map).get key = if key ∈ keys then none else map.get key := by
  induction keys generalizing map with
  | nil => simp
  | cons first rest ih =>
      rw [List.foldl_cons, ih, get_erase]
      by_cases here : key = first <;> by_cases later : key ∈ rest <;> simp [here, later]

/-- A filtered list has the values that are kept. -/
theorem lookup_filter (keep : α → β → Bool) (distinct : (entries.map Prod.fst).Nodup) (key : α) :
    (entries.filter fun entry => keep entry.1 entry.2).lookup key =
      (entries.lookup key).filter (keep key) := by
  induction entries with
  | nil => rfl
  | cons entry rest ih =>
      obtain ⟨fresh, distinctRest⟩ := List.nodup_cons.mp distinct
      have later := ih distinctRest
      rw [List.filter_cons, lookup_cons]
      by_cases here : key = entry.1
      · subst here
        rw [lookup_eq_none.mpr fresh, Option.filter_none] at later
        by_cases kept : keep entry.1 entry.2
        · simp [kept, lookup_cons, Option.filter_some]
        · rw [if_neg kept, if_pos rfl, later, Option.filter_some, if_neg kept]
      · by_cases kept : keep entry.1 entry.2
        · simpa [kept, lookup_cons, here] using later
        · simpa [kept, here] using later

/-- A filtered map has the values that are kept. -/
theorem get_filter (map : OrderedMap α β) (keep : α → β → Bool) (key : α) :
    (map.filter keep).get key = (map.get key).filter (keep key) :=
  lookup_filter keep map.distinct key

/-- Setting adds the key to the keys. -/
theorem mem_keys_set : other ∈ (map.set key value).keys ↔ other = key ∨ other ∈ map.keys := by
  by_cases same : other = key <;> simp [mem_keys_iff, get_set, same]

/-- A map has the keys that are its keys. -/
theorem has_iff : map.has key = true ↔ key ∈ map.keys := by simp [has]

/-- `for (const key in map)`, with the loop's body on a state. -/
def forIn {σ : Type w} (files : σ → OrderedMap α β) (body : α → σ → σ) (state : σ) : σ :=
  (files state).keys.foldl
    (fun state key => if (files state).has key then body key state else state) state

/-- What an invariant of the body that knows which keys have had their turn
says after the loop. -/
theorem forIn_induction {σ : Type w} {files : σ → OrderedMap α β} {body : α → σ → σ}
    {state : σ} (Inv : List α → σ → Prop) (start : Inv [] state)
    (turn : ∀ passed key rest state', (files state).keys = passed ++ key :: rest →
      Inv passed state' →
      Inv (passed ++ [key]) (if (files state').has key then body key state' else state')) :
    Inv (files state).keys (forIn files body state) := by
  suffices loop : ∀ passed rest state', (files state).keys = passed ++ rest → Inv passed state' →
      Inv (passed ++ rest) (rest.foldl
        (fun state key => if (files state).has key then body key state else state) state') from
    loop [] _ state rfl start
  intro passed rest
  induction rest generalizing passed with
  | nil => simp
  | cons key rest ih =>
      intro state' split holds
      have next := ih (passed ++ [key]) _ (by simpa using split)
        (turn passed key rest state' split holds)
      simpa using next

end OrderedMap
end Solpg.Std
