import Mathlib.Data.List.Dedup
import Mathlib.Data.List.DropRight
import Mathlib.Data.List.Nodup

/-!
# Logs of bounded length

A log keeps the newest entries, and a new one can take the place of an earlier one.
-/

namespace Solpg.Std.Recent

universe u v

variable {α : Type u} {β : Type v}

/-- The log with `next` in place of the first entry that it replaces, if there is one. -/
def push (limit : Nat) (replaces : α → Bool) (next : α) (entries : List α) : List α :=
  (next :: entries.eraseP replaces).take limit

/-- The log, by the index of the entry that is replaced when `next` replaces any. -/
theorem push_eq (limit : Nat) (settles : Prop) [Decidable settles] (pairs : α → Bool) (next : α)
    (entries : List α) :
    push limit (fun entry => settles ∧ pairs entry) next entries =
      if settles then
        match entries.findIdx? pairs with
        | some index => (next :: entries.eraseIdx index).take limit
        | none => (next :: entries).take limit
      else (next :: entries).take limit := by
  rw [push]
  split
  next settled =>
    have matching : (fun entry => decide (settles ∧ pairs entry = true)) = pairs := by
      ext entry
      simp [settled]
    rw [matching, List.eraseP_eq_eraseIdx]
    split
    next index found => simp [found]
    next found => simp [found]
  next unsettled =>
    have none : ∀ entry ∈ entries, ¬ decide (settles ∧ pairs entry = true) = true := by
      intro entry _
      simp [unsettled]
    rw [List.eraseP_of_forall_not none]

variable {limit newer : Nat} {replaces : α → Bool} {next entry : α} {entries : List α}

/-- What is remembered is new, or was remembered before. -/
theorem mem_of_mem_push (pushed : entry ∈ push limit replaces next entries) :
    entry = next ∨ entry ∈ entries := by
  obtain new | old := List.mem_cons.mp (List.mem_of_mem_take pushed)
  · exact .inl new
  · exact .inr (List.mem_of_mem_eraseP old)

/-- An entry that is not the one replaced does not move back. -/
theorem mem_take_eraseP (recent : entry ∈ entries.take newer)
    (spared : entries.find? replaces ≠ some entry) :
    entry ∈ (entries.eraseP replaces).take newer := by
  induction entries generalizing newer with
  | nil => simp at recent
  | cons first rest ih =>
      cases newer with
      | zero => simp at recent
      | succ newer =>
          rw [List.take_succ_cons] at recent
          cases replaced : replaces first with
          | true =>
              rw [List.eraseP_cons_of_pos replaced]
              obtain rfl | later := List.mem_cons.mp recent
              · simp [replaced] at spared
              · exact List.take_subset_take_left rest (Nat.le_succ newer) later
          | false =>
              rw [List.eraseP_cons_of_neg (by simp [replaced]), List.take_succ_cons]
              obtain rfl | later := List.mem_cons.mp recent
              · exact List.mem_cons_self
              · apply List.mem_cons_of_mem
                apply ih later
                rwa [List.find?_cons_of_neg (by simp [replaced])] at spared

/-- An entry stays until `limit` newer ones have been pushed. -/
theorem mem_take_push (recent : entry ∈ entries.take newer)
    (spared : entries.find? replaces ≠ some entry) (room : newer < limit) :
    entry ∈ (push limit replaces next entries).take (newer + 1) := by
  rw [push, List.take_take, Nat.min_eq_left (by omega), List.take_succ_cons]
  exact List.mem_cons_of_mem _ (mem_take_eraseP recent spared)

/-- The new entry comes first, if there is room. -/
theorem mem_push_self (room : 0 < limit) : next ∈ (push limit replaces next entries).take 1 := by
  rw [push, List.take_take, Nat.min_eq_left (by omega)]
  exact List.mem_cons_self

/-- What has been replaced is gone, if it was there once. -/
theorem not_mem_push {kept : α → Bool} (distinct : (entries.filter kept).Nodup)
    (replaced : entries.find? replaces = some entry) (keeps : kept entry)
    (other : entry ≠ next) : entry ∉ push limit replaces next entries := by
  intro pushed
  have still : entry ∈ entries.eraseP replaces :=
    (List.mem_cons.mp (List.mem_of_mem_take pushed)).resolve_left other
  obtain ⟨matching, before, after, parts, none⟩ := List.find?_eq_some_iff_append.mp replaced
  have unmatched : ∀ earlier ∈ before, ¬ replaces earlier = true := by
    intro earlier member
    simpa using none earlier member
  rw [parts, List.eraseP_append_right _ unmatched, List.eraseP_cons_of_pos matching] at still
  rw [parts, List.filter_append, List.filter_cons_of_pos keeps] at distinct
  have apart := (List.nodup_middle.mp distinct).notMem
  apply apart
  rw [← List.filter_append]
  exact List.mem_filter.mpr ⟨still, keeps⟩

/-- A log stays without duplicates under a new entry that was not there. -/
theorem nodup_filter_push {kept : α → Bool} (distinct : (entries.filter kept).Nodup)
    (fresh : kept next → next ∉ entries) :
    ((push limit replaces next entries).filter kept).Nodup := by
  have rest : ((entries.eraseP replaces).filter kept).Nodup :=
    distinct.sublist (List.eraseP_sublist.filter kept)
  have whole : ((next :: entries.eraseP replaces).filter kept).Nodup := by
    rw [List.filter_cons]
    split
    next keeps =>
      apply List.nodup_cons.mpr ⟨fun member => fresh keeps ?_, rest⟩
      exact List.mem_of_mem_eraseP (List.mem_filter.mp member).1
    next => exact rest
  exact whole.sublist ((List.take_sublist limit _).filter kept)

/-- A map of the entries that keeps what is replaced maps the log. -/
theorem map_push (f : α → β) (replaced : β → Bool) :
    (push limit (fun entry => replaced (f entry)) next entries).map f =
      push limit replaced (f next) (entries.map f) := by
  rw [push, push, List.map_take, List.map_cons, List.eraseP_map]
  rfl

/-! ### Distinct entries, the newest last -/

section Distinct

variable [BEq α] [LawfulBEq α]

/-- The first place of an entry is after those that are not the entry. -/
theorem idxOf?_append_cons {before after : List α} {entry : α} (earlier : entry ∉ before) :
    (before ++ entry :: after).idxOf? entry = some before.length := by
  induction before with
  | nil => simp [List.idxOf?_cons]
  | cons first rest ih =>
      have other : ¬ (first == entry) = true := by
        intro same
        exact earlier (by simp [eq_of_beq same])
      rw [List.cons_append, List.idxOf?_cons, if_neg other,
        ih fun among => earlier (List.mem_cons_of_mem _ among)]
      rfl

/-- A list without its repetitions keeps each value where it occurs last, so one more
value moves to the end. -/
theorem dedup_concat [DecidableEq α] (entries : List α) (next : α) :
    (entries ++ [next]).dedup = entries.dedup.erase next ++ [next] := by
  induction entries with
  | nil => simp
  | cons first rest ih =>
      rw [List.cons_append]
      by_cases repeated : first ∈ rest
      · rw [List.dedup_cons_of_mem (List.mem_append_left _ repeated), ih,
          List.dedup_cons_of_mem repeated]
      · rw [List.dedup_cons_of_notMem repeated]
        by_cases moved : first = next
        · subst moved
          rw [List.dedup_cons_of_mem (by simp), ih, List.erase_cons_head,
            List.erase_of_not_mem (by simpa using repeated)]
        · have fresh : first ∉ rest ++ [next] := by simp [repeated, moved]
          rw [List.dedup_cons_of_notMem fresh, ih, List.erase_cons_tail (by simpa using moved),
            List.cons_append]

omit [BEq α] [LawfulBEq α] in
/-- The newest entries of a log are those of its end, where the end is long enough. -/
theorem rtake_append_of_le {older newest : List α} {count : Nat} (enough : count ≤ newest.length) :
    (older ++ newest).rtake count = newest.rtake count := by
  have skips : older.length + newest.length - count = older.length + (newest.length - count) := by
    omega
  rw [List.rtake, List.rtake, List.length_append, skips, List.drop_length_add_append]

/-- Removing an entry before or after keeping one entry more than `count` leaves the same
`count` entries. -/
theorem rtake_erase_rtake {entries : List α} (distinct : entries.Nodup) (count : Nat)
    (entry : α) :
    ((entries.rtake (count + 1)).erase entry).rtake count = (entries.erase entry).rtake count := by
  by_cases short : entries.length ≤ count + 1
  · rw [show entries.rtake (count + 1) = entries by
      rw [List.rtake, Nat.sub_eq_zero_of_le short, List.drop_zero]]
  · have parts : entries.rdrop (count + 1) ++ entries.rtake (count + 1) = entries :=
      List.take_append_drop _ entries
    have size : (entries.rtake (count + 1)).length = count + 1 := by
      rw [List.rtake, List.length_drop]
      omega
    generalize entries.rdrop (count + 1) = older at parts
    generalize entries.rtake (count + 1) = newest at parts size
    subst parts
    by_cases dropped : entry ∈ older
    · have absent : entry ∉ newest := (List.disjoint_of_nodup_append distinct) dropped
      rw [List.erase_append_left _ dropped, List.erase_of_not_mem absent,
        rtake_append_of_le (by omega)]
    · have remaining : count ≤ (newest.erase entry).length := by
        have := List.le_length_erase (a := entry) (l := newest)
        omega
      rw [List.erase_append_right _ dropped, rtake_append_of_le remaining]

end Distinct

end Solpg.Std.Recent
