import Mathlib.Algebra.GroupWithZero.Nat
import Mathlib.Data.List.Basic
import Mathlib.Data.List.Nodup
import Mathlib.Data.List.Perm.Subperm
import Mathlib.Data.List.Pairwise
import Mathlib.Algebra.Order.BigOperators.Group.List
import Mathlib.Algebra.Order.Group.Nat

/-!
# Tables of processes

A list indexed by process (or account) number, updated one entry at a time.
The counting laws are stated without subtraction, so that `omega` combines
several updates.
-/

namespace Solpg.Std.Table

universe u v

variable {α : Type u} {β : Type v}

/-- An entry that is found is inside the table. -/
theorem lt_length_of_getElem? {table : List α} {index : Nat} {entry : α}
    (found : table[index]? = some entry) : index < table.length :=
  (List.getElem?_eq_some_iff.mp found).1

/-- Replacing one entry changes a count by exactly that entry's contribution. -/
theorem countP_set_add {table : List α} {index : Nat} {before : α} (p : α → Bool) (after : α)
    (found : table[index]? = some before) :
    (table.set index after).countP p + (p before).toNat =
      table.countP p + (p after).toNat := by
  induction table generalizing index with
  | nil => simp at found
  | cons head tail ih =>
      cases index with
      | zero =>
          obtain rfl : head = before := by simpa using found
          simp only [List.set_cons_zero, List.countP_cons]
          cases p head <;> cases p after <;> simp
      | succ index =>
          have tailFound : tail[index]? = some before := by simpa using found
          have tailCount := ih tailFound
          simp only [List.set_cons_succ, List.countP_cons]
          omega

/-- Replacing one entry changes a sum by exactly that entry's contribution. -/
theorem sum_map_set_add {table : List α} {index : Nat} {before : α} (f : α → Nat) (after : α)
    (found : table[index]? = some before) :
    ((table.set index after).map f).sum + f before = (table.map f).sum + f after := by
  induction table generalizing index with
  | nil => simp at found
  | cons head tail ih =>
      cases index with
      | zero =>
          obtain rfl : head = before := by simpa using found
          simp only [List.set_cons_zero, List.map_cons, List.sum_cons]
          omega
      | succ index =>
          have tailFound : tail[index]? = some before := by simpa using found
          have tailSum := ih tailFound
          simp only [List.set_cons_succ, List.map_cons, List.sum_cons]
          omega

/-- No entry contributes more than the whole sum. -/
theorem le_sum_map {table : List α} {index : Nat} {entry : α} (f : α → Nat)
    (found : table[index]? = some entry) : f entry ≤ (table.map f).sum := by
  have member : f entry ∈ table.map f :=
    List.mem_map_of_mem (List.mem_of_getElem? found)
  exact List.le_sum_of_mem member

/-- An entry found after an update is the new one or was there before. -/
theorem getElem?_set_cases {table : List α} {target index : Nat} {after entry : α}
    (found : (table.set target after)[index]? = some entry) :
    (index = target ∧ entry = after) ∨ (index ≠ target ∧ table[index]? = some entry) := by
  by_cases same : index = target
  · subst same
    rw [List.getElem?_set] at found
    by_cases inside : index < table.length
    · simp [inside] at found
      exact .inl ⟨rfl, found.symm⟩
    · simp [inside] at found
  · rw [List.getElem?_set_ne (Ne.symm same)] at found
    exact .inr ⟨same, found⟩

/-- An entry found after an append is an old one or the appended one. -/
theorem getElem?_append_singleton_cases {table : List α} {index : Nat} {after entry : α}
    (found : (table ++ [after])[index]? = some entry) :
    table[index]? = some entry ∨ (index = table.length ∧ entry = after) := by
  by_cases inside : index < table.length
  · rw [List.getElem?_append_left inside] at found
    exact .inl found
  · have last : index = table.length := by
      have := lt_length_of_getElem? found
      simp at this
      omega
    subst last
    simp at found
    exact .inr ⟨rfl, found.symm⟩

/-- A projection of the selected entries has no duplicates when it determines
the index of a selected entry. -/
theorem nodup_map_filter {table : List α} {p : α → Bool} {f : α → β}
    (injective : ∀ (i j : Nat) (a b : α), table[i]? = some a → table[j]? = some b → p a = true → p b = true →
      f a = f b → i = j) :
    ((table.filter p).map f).Nodup := by
  rw [List.Nodup, List.pairwise_map, List.pairwise_filter, List.pairwise_iff_getElem]
  intro i j inI inJ lt selectedI selectedJ same
  have equal := injective i j table[i] table[j] (by simp) (by simp) selectedI selectedJ same
  omega

/-- Pigeonhole: distinct numbers below `bound` are at most `bound` many. -/
theorem length_le_of_nodup_lt {numbers : List Nat} {bound : Nat} (distinct : numbers.Nodup)
    (below : ∀ number ∈ numbers, number < bound) : numbers.length ≤ bound := by
  have contained : numbers ⊆ List.range bound := by
    intro number member
    exact List.mem_range.mpr (below number member)
  simpa using (distinct.subperm contained).length_le

end Solpg.Std.Table
