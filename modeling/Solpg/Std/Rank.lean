import Mathlib.Data.List.Sort

/-!
# Ranks

Places in the order of a key, by counting: no more than `place` elements come before the one that
stands there, and more than `place` come no later. A sorted list has its elements at their places.
-/

namespace Solpg.Std

variable {α β : Type} [LinearOrder β] {key : α → β} {items sorted : List α} {place : Nat}
  {item other : α}

/-- The item stands at the place in the order of the keys. -/
def StandsAt (key : α → β) (items : List α) (place : Nat) (item : α) : Prop :=
  items.countP (fun other => key other < key item) ≤ place ∧
    place < items.countP fun other => key other ≤ key item

namespace StandsAt

/-- The order of the items does not matter to their ranks. -/
theorem congr_perm (same : sorted.Perm items) :
    StandsAt key sorted place item ↔ StandsAt key items place item := by
  simp only [StandsAt, same.countP_eq]

/-- One key stands at a place. -/
theorem key_eq (first : StandsAt key items place item) (second : StandsAt key items place other) :
    key item = key other := by
  have not_less : ∀ {item other : α}, StandsAt key items place item → StandsAt key items place other →
      ¬ key item < key other := by
    intro item other ⟨_, above⟩ ⟨below, _⟩ less
    have counted : items.countP (fun third => key third ≤ key item) ≤
        items.countP fun third => key third < key other :=
      List.countP_mono_left fun third _ up => by
        simpa using (of_decide_eq_true up).trans_lt less
    omega
  exact (lt_trichotomy (key item) (key other)).resolve_left (not_less first second) |>.resolve_right
    (not_less second first)

end StandsAt

/-- The elements of a sorted list stand at their indices. -/
theorem standsAt_getElem (order : sorted.Pairwise fun first second => key first ≤ key second)
    (bound : place < sorted.length) : StandsAt key sorted place sorted[place] := by
  have earlier : ∀ item ∈ sorted.take (place + 1), key item ≤ key sorted[place] := by
    intro item among
    obtain ⟨index, inside, rfl⟩ := List.mem_take_iff_getElem.mp among
    rcases Nat.lt_or_ge index place with before | reached
    · exact List.pairwise_iff_getElem.mp order index place (by omega) bound before
    · obtain rfl : index = place := by omega
      exact le_rfl
  have afterwards : ∀ item ∈ sorted.drop place, ¬ key item < key sorted[place] := by
    intro item among
    obtain ⟨index, inside, rfl⟩ := List.mem_drop_iff_getElem.mp among
    rw [not_lt]
    rcases Nat.eq_zero_or_pos index with rfl | positive
    · exact le_rfl
    · exact List.pairwise_iff_getElem.mp order place (place + index) bound (by omega) (by omega)
  constructor
  · calc sorted.countP (fun other => key other < key sorted[place])
        = (sorted.take place).countP (fun other => key other < key sorted[place]) +
            (sorted.drop place).countP fun other => key other < key sorted[place] := by
          rw [← List.countP_append, List.take_append_drop]
      _ = (sorted.take place).countP fun other => key other < key sorted[place] := by
          rw [Nat.add_eq_left, List.countP_eq_zero]
          simpa using afterwards
      _ ≤ (sorted.take place).length := List.countP_le_length
      _ ≤ place := List.length_take_le _ _
  · calc place
        < (sorted.take (place + 1)).length := by
          rw [List.length_take]
          omega
      _ = (sorted.take (place + 1)).countP fun other => key other ≤ key sorted[place] := by
          rw [eq_comm, List.countP_eq_length]
          simpa using earlier
      _ ≤ sorted.countP fun other => key other ≤ key sorted[place] :=
          (List.take_sublist _ _).countP_le

end Solpg.Std
