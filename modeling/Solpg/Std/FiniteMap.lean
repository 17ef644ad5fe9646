import Mathlib.Algebra.GroupWithZero.Nat
import Mathlib.Data.Finmap
import Mathlib.Algebra.BigOperators.Group.Multiset.Defs
import Mathlib.Algebra.Order.BigOperators.Group.Multiset

/-!
# Finite maps with amounts

Updates of a `Finmap` by a list of entries, what holds of all its entries, and
the sum of an amount over all its values. The sum laws are stated without
subtraction, so that `omega` combines them.
-/

namespace Solpg.Std.FiniteMap

universe u v

variable {α : Type u} {β : Type v} [DecidableEq α]

/-- Insert entries from left to right, so that a later one wins. -/
def insertAll (map : Finmap fun _ : α => β) : List (α × β) → Finmap fun _ : α => β
  | [] => map
  | (key, value) :: rest => insertAll (map.insert key value) rest

/-- What the map holds under a key. -/
def amountAt (amount : β → Nat) (map : Finmap fun _ : α => β) (key : α) : Nat :=
  ((map.lookup key).map amount).getD 0

/-- The sum of the amounts. -/
def total (amount : β → Nat) (map : Finmap fun _ : α => β) : Nat :=
  (map.entries.map fun entry => amount entry.2).sum

variable {amount : β → Nat} {map : Finmap fun _ : α => β} {entries : List (α × β)}

/-- Inserting changes no amount of another key. -/
theorem amountAt_insert_of_ne {key other : α} {value : β} (different : other ≠ key) :
    amountAt amount (map.insert key value) other = amountAt amount map other := by
  rw [amountAt, Finmap.lookup_insert_of_ne _ different, amountAt]

/-- What a key held does not matter to an insertion. -/
theorem insert_erase (key : α) (value : β) :
    (map.erase key).insert key value = map.insert key value := by
  apply Finmap.ext_lookup
  intro other
  by_cases here : other = key
  · rw [here, Finmap.lookup_insert, Finmap.lookup_insert]
  · rw [Finmap.lookup_insert_of_ne _ here, Finmap.lookup_insert_of_ne _ here,
      Finmap.lookup_erase_ne here]

/-- Inserting what is there changes nothing. -/
theorem insert_of_lookup {key : α} {value : β} (found : map.lookup key = some value) :
    map.insert key value = map := by
  apply Finmap.ext_lookup
  intro other
  by_cases here : other = key
  · rw [here, Finmap.lookup_insert, found]
  · rw [Finmap.lookup_insert_of_ne _ here]

/-- Inserting a value changes the total by what the key held before. -/
theorem total_insert (amount : β → Nat) (map : Finmap fun _ : α => β) (key : α) (value : β) :
    total amount (map.insert key value) + amountAt amount map key =
      total amount map + amount value := by
  have fresh (other : Finmap fun _ : α => β) (new : β) (absent : key ∉ other) :
      total amount (other.insert key new) = amount new + total amount other := by
    rw [total, Finmap.entries_insert_of_notMem absent, Multiset.map_cons, Multiset.sum_cons, total]
  cases found : map.lookup key with
  | none =>
      have absent : key ∉ map := Finmap.lookup_eq_none.mp found
      rw [fresh map value absent, amountAt, found]
      simp
      omega
  | some old =>
      have whole := fresh (map.erase key) old Finmap.notMem_erase_self
      have replaced := fresh (map.erase key) value Finmap.notMem_erase_self
      rw [insert_erase, insert_of_lookup found] at whole
      rw [insert_erase] at replaced
      rw [amountAt, found]
      simp only [Option.map_some, Option.getD_some]
      omega

/-- Inserting entries with different keys changes the total by what these keys
held before. -/
theorem total_insertAll (distinct : (entries.map Prod.fst).Nodup) :
    total amount (insertAll map entries) +
        ((entries.map Prod.fst).map (amountAt amount map)).sum =
      total amount map + (entries.map fun entry => amount entry.2).sum := by
  induction entries generalizing map with
  | nil => rfl
  | cons entry rest ih =>
      obtain ⟨key, value⟩ := entry
      rw [List.map_cons, List.nodup_cons] at distinct
      have later : (rest.map Prod.fst).map (amountAt amount (map.insert key value)) =
          (rest.map Prod.fst).map (amountAt amount map) := by
        apply List.map_congr_left
        intro other member
        have different : other ≠ key := fun same => distinct.1 (same ▸ member)
        exact amountAt_insert_of_ne different
      have first := total_insert amount map key value
      have others := @ih (map.insert key value) distinct.2
      rw [later] at others
      simp only [insertAll, List.map_cons, List.sum_cons]
      omega

/-- What different keys hold is at most the total. -/
theorem sum_amountAt_le_total {keys : List α} (distinct : keys.Nodup) :
    (keys.map (amountAt amount map)).sum ≤ total amount map := by
  induction keys generalizing map with
  | nil => simp
  | cons key rest ih =>
      rw [List.nodup_cons] at distinct
      cases found : map.lookup key with
      | none =>
          have nothing : amountAt amount map key = 0 := by simp [amountAt, found]
          simpa [nothing] using ih distinct.2
      | some value =>
          have later : rest.map (amountAt amount (map.erase key)) =
              rest.map (amountAt amount map) := by
            apply List.map_congr_left
            intro other member
            have different : other ≠ key := fun same => distinct.1 (same ▸ member)
            rw [amountAt, Finmap.lookup_erase_ne different, amountAt]
          have others := @ih (map.erase key) distinct.2
          have whole := total_insert amount (map.erase key) key value
          have erased : amountAt amount (map.erase key) key = 0 := by
            simp [amountAt, Finmap.lookup_erase]
          have here : amountAt amount map key = amount value := by simp [amountAt, found]
          rw [insert_erase, insert_of_lookup found] at whole
          rw [later] at others
          simp only [List.map_cons, List.sum_cons]
          omega

/-! ## What holds of all entries -/

/-- All entries meet the condition. -/
def Holds (P : α → β → Prop) (map : Finmap fun _ : α => β) : Prop :=
  ∀ key value, map.lookup key = some value → P key value

variable {P : α → β → Prop}

/-- The empty map has no entries that could fail. -/
theorem holds_empty : Holds P ∅ := by
  intro key value found
  rw [Finmap.lookup_empty] at found
  cases found

/-- A new entry has to meet the condition itself. -/
theorem Holds.insert {key : α} {value : β} (holds : Holds P map) (new : P key value) :
    Holds P (map.insert key value) := by
  intro other stored found
  by_cases here : other = key
  · subst here
    rw [Finmap.lookup_insert] at found
    cases found
    exact new
  · rw [Finmap.lookup_insert_of_ne _ here] at found
    exact holds other stored found

/-- New entries have to meet the condition themselves. -/
theorem Holds.insertAll (holds : Holds P map)
    (new : ∀ entry ∈ entries, P entry.1 entry.2) : Holds P (insertAll map entries) := by
  induction entries generalizing map with
  | nil => exact holds
  | cons entry rest ih =>
      have first : Holds P (map.insert entry.1 entry.2) :=
        holds.insert (new entry List.mem_cons_self)
      exact ih first fun other member => new other (List.mem_cons_of_mem entry member)

/-- An inserted value is found, or else the old one. -/
theorem lookup_insertAll (map : Finmap fun _ : α => β) (entries : List (α × β)) (key : α) :
    (FiniteMap.insertAll map entries).lookup key =
      ((FiniteMap.insertAll ∅ entries).lookup key).or (map.lookup key) := by
  induction entries generalizing map with
  | nil =>
      rw [FiniteMap.insertAll, FiniteMap.insertAll, Finmap.lookup_empty, Option.none_or]
  | cons entry rest ih =>
      obtain ⟨changed, value⟩ := entry
      rw [FiniteMap.insertAll, FiniteMap.insertAll, ih, ih (Finmap.insert changed value ∅),
        Option.or_assoc]
      congr 1
      by_cases here : key = changed
      · subst here
        rw [Finmap.lookup_insert, Finmap.lookup_insert, Option.some_or]
      · rw [Finmap.lookup_insert_of_ne _ here, Finmap.lookup_insert_of_ne _ here,
          Finmap.lookup_empty, Option.none_or]

/-- Of a map whose entries all satisfy a predicate, only the inserted ones decide. -/
theorem holds_insertAll_iff (holds : Holds P map) :
    Holds P (FiniteMap.insertAll map entries) ↔ Holds P (FiniteMap.insertAll ∅ entries) := by
  constructor
  · intro all key value found
    refine all key value ?_
    rw [lookup_insertAll, found, Option.some_or]
  · intro new key value found
    rw [lookup_insertAll] at found
    obtain inserted | ⟨-, old⟩ := Option.or_eq_some_iff.mp found
    · exact new key value inserted
    · exact holds key value old

/-! ## Visiting all entries -/

/-- The entries of a map in some order, each once. -/
structure Iteration (α : Type u) (β : Type v) [DecidableEq α] where
  entries : (Finmap fun _ : α => β) → List (α × β)
  keys_nodup : ∀ map, ((entries map).map Prod.fst).Nodup
  insertAll_entries : ∀ map, FiniteMap.insertAll ∅ (entries map) = map

theorem exists_entries (map : Finmap fun _ : α => β) :
    ∃ entries : List (α × β), (entries.map Prod.fst).Nodup ∧
      FiniteMap.insertAll ∅ entries = map := by
  induction map using Finmap.induction_on with
  | H list =>
      refine ⟨list.entries.map fun entry => (entry.1, entry.2), ?_, ?_⟩
      · rw [List.map_map]
        exact list.nodupKeys
      · induction list using AList.insertRec with
        | H0 => rfl
        | IH key value rest absent ih =>
            apply Finmap.ext_lookup
            intro other
            rw [AList.entries_insert_of_notMem absent, List.map_cons, FiniteMap.insertAll,
              lookup_insertAll, ih]
            by_cases here : other = key
            · subst here
              have missing : rest.toFinmap.lookup other = none := Finmap.lookup_eq_none.mpr absent
              rw [missing, Option.none_or, Finmap.lookup_insert]
              exact (AList.lookup_insert rest).symm
            · rw [Finmap.lookup_insert_of_ne _ here, Finmap.lookup_empty, Option.or_none]
              exact (AList.lookup_insert_ne here).symm

instance : Nonempty (Iteration α β) :=
  ⟨⟨fun map => (exists_entries map).choose, fun map => (exists_entries map).choose_spec.1,
    fun map => (exists_entries map).choose_spec.2⟩⟩

/-- What is found was inserted. -/
theorem mem_of_lookup_insertAll {key : α} {value : β}
    (found : (FiniteMap.insertAll ∅ entries).lookup key = some value) : (key, value) ∈ entries := by
  have inserted : Holds (fun key value => (key, value) ∈ entries)
      (FiniteMap.insertAll ∅ entries) := holds_empty.insertAll fun entry member => member
  exact inserted key value found

/-- An entry of a list whose keys differ from each other is found. -/
theorem lookup_insertAll_of_mem {key : α} {value : β}
    (distinct : (entries.map Prod.fst).Nodup) (member : (key, value) ∈ entries) :
    (FiniteMap.insertAll ∅ entries).lookup key = some value := by
  induction entries with
  | nil => cases member
  | cons entry rest ih =>
      rw [List.map_cons, List.nodup_cons] at distinct
      rw [FiniteMap.insertAll, lookup_insertAll]
      obtain rfl | later := List.mem_cons.mp member
      · have once : (FiniteMap.insertAll ∅ rest).lookup key = none := by
          cases found : (FiniteMap.insertAll ∅ rest).lookup key with
          | none => rfl
          | some other =>
              have again := List.mem_map_of_mem (f := Prod.fst) (mem_of_lookup_insertAll found)
              exact absurd again distinct.1
        rw [once, Option.none_or, Finmap.lookup_insert]
      · rw [ih distinct.2 later, Option.some_or]

/-- The keys that are found are the keys that were inserted. -/
theorem isSome_lookup_insertAll {key : α} :
    ((FiniteMap.insertAll ∅ entries).lookup key).isSome ↔ key ∈ entries.map Prod.fst := by
  induction entries with
  | nil => simp [FiniteMap.insertAll]
  | cons entry rest ih =>
      rw [FiniteMap.insertAll, lookup_insertAll, List.map_cons, List.mem_cons, Option.isSome_or,
        Bool.or_eq_true, ih]
      by_cases here : key = entry.1
      · rw [here, Finmap.lookup_insert]
        simp
      · simp [here, Finmap.lookup_insert_of_ne]

/-- An iteration meets every key. -/
theorem Iteration.mem_keys (order : Iteration α β) {key : α} :
    key ∈ (order.entries map).map Prod.fst ↔ (map.lookup key).isSome := by
  rw [← isSome_lookup_insertAll, order.insertAll_entries]

/-- What an iteration meets is in the map. -/
theorem Iteration.lookup_of_mem (order : Iteration α β) {key : α} {value : β}
    (member : (key, value) ∈ order.entries map) : map.lookup key = some value := by
  have found := lookup_insertAll_of_mem (order.keys_nodup map) member
  rw [order.insertAll_entries] at found
  exact found

/-- Entries that are inserted under other keys are found under these. -/
theorem lookup_insertAll_map {γ : Type u} [DecidableEq γ] {rename : α → γ}
    (injective : Function.Injective rename) (entries : List (α × β)) (key : α) :
    (FiniteMap.insertAll ∅ (entries.map fun entry => (rename entry.1, entry.2))).lookup
      (rename key) = (FiniteMap.insertAll ∅ entries).lookup key := by
  induction entries with
  | nil =>
      rw [List.map_nil, FiniteMap.insertAll, FiniteMap.insertAll, Finmap.lookup_empty,
        Finmap.lookup_empty]
  | cons entry rest ih =>
      rw [List.map_cons, FiniteMap.insertAll, FiniteMap.insertAll, lookup_insertAll, ih,
        lookup_insertAll (Finmap.insert entry.1 entry.2 ∅)]
      congr 1
      by_cases here : key = entry.1
      · rw [here, Finmap.lookup_insert, Finmap.lookup_insert]
      · have different : rename key ≠ rename entry.1 := fun same => here (injective same)
        rw [Finmap.lookup_insert_of_ne _ here, Finmap.lookup_insert_of_ne _ different,
          Finmap.lookup_empty, Finmap.lookup_empty]

end Solpg.Std.FiniteMap
