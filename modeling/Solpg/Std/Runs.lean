import Mathlib.Data.List.DropRight

/-!
# The runs of a text

A run is a longest piece of a text all of whose units are of one kind, such as a word. The
runs are found from left to right; the last one that starts before an offset, and the first
one that ends after it, are found from the offset as well.
-/

namespace Solpg.Std.Runs

universe u

variable {α : Type u} {inRun : α → Bool}

/-- Where the runs of a text start and end. The text is read from an index on, where a run
that has started is still open. -/
def runs (inRun : α → Bool) : (index : Nat) → (opened : Option Nat) → List α → List (Nat × Nat)
  | _, none, [] => []
  | index, some start, [] => [(start, index)]
  | index, opened, unit :: rest =>
      match opened, inRun unit with
      | none, false => runs inRun (index + 1) none rest
      | none, true => runs inRun (index + 1) (some index) rest
      | some start, false => (start, index) :: runs inRun (index + 1) none rest
      | some start, true => runs inRun (index + 1) (some start) rest

/-- Where the runs start. -/
def starts (inRun : α → Bool) (index : Nat) (opened : Option Nat) (text : List α) : List Nat :=
  (runs inRun index opened text).map Prod.fst

/-- Where the runs end. -/
def ends (inRun : α → Bool) (index : Nat) (opened : Option Nat) (text : List α) : List Nat :=
  (runs inRun index opened text).map Prod.snd

/-- What is left of a text without the last run and what comes after it. -/
def dropLast (inRun : α → Bool) (text : List α) : List α :=
  (text.rdropWhile fun unit => ! inRun unit).rdropWhile inRun

/-- What is left of a text without the first run and what comes before it. -/
def dropFirst (inRun : α → Bool) (text : List α) : List α :=
  (text.dropWhile fun unit => ! inRun unit).dropWhile inRun

/-- What is left is the beginning of the text. -/
theorem dropLast_prefix (inRun : α → Bool) (text : List α) : dropLast inRun text <+: text :=
  (List.rdropWhile_prefix _ _).trans (List.rdropWhile_prefix _ _)

/-- What is left is the end of the text. -/
theorem dropFirst_suffix (inRun : α → Bool) (text : List α) : dropFirst inRun text <:+ text :=
  (List.dropWhile_suffix _).trans (List.dropWhile_suffix _)

section

variable {index offset start : Nat} {opened : Option Nat} {unit : α} {before after rest text : List α}

/-! ## The last start -/

@[simp] theorem starts_nil : starts inRun index opened ([] : List α) = opened.toList := by
  cases opened <;> rfl

/-- A unit of a run keeps the run open, or opens one. -/
theorem starts_cons_of_inRun (here : inRun unit = true) :
    starts inRun index opened (unit :: rest) =
      starts inRun (index + 1) (some (opened.getD index)) rest := by
  cases opened <;> simp [starts, runs, here]

/-- A unit of no run closes the open one. -/
theorem starts_cons_of_not_inRun (here : inRun unit = false) :
    starts inRun index opened (unit :: rest) =
      opened.toList ++ starts inRun (index + 1) none rest := by
  cases opened <;> simp [starts, runs, here]

/-- A run that is open comes first, and the others start later. -/
theorem starts_eq_opened_append (inRun : α → Bool) (index : Nat) (opened : Option Nat) (text : List α) :
    ∃ later, starts inRun index opened text = opened.toList ++ later ∧
      ∀ start ∈ later, index ≤ start ∧ start < index + text.length := by
  induction text generalizing index opened with
  | nil => exact ⟨[], by simp, nofun⟩
  | cons unit rest ih =>
      cases here : inRun unit with
      | false =>
          obtain ⟨later, same, bounds⟩ := ih (index + 1) none
          refine ⟨later, by rw [starts_cons_of_not_inRun here, same]; rfl, fun start among => ?_⟩
          have within := bounds start among
          rw [List.length_cons]
          omega
      | true =>
          obtain ⟨later, same, bounds⟩ := ih (index + 1) (some (opened.getD index))
          rw [starts_cons_of_inRun here, same]
          have others : ∀ start ∈ later, index ≤ start ∧ start < index + (unit :: rest).length := by
            intro start among
            have within := bounds start among
            rw [List.length_cons]
            omega
          cases opened with
          | some first => exact ⟨later, rfl, others⟩
          | none =>
              refine ⟨index :: later, rfl, fun start among => ?_⟩
              obtain rfl | among := List.mem_cons.mp among
              · exact ⟨Nat.le_refl _, by simp⟩
              · exact others start among

/-- The runs of a text start where the runs of its first part start, or after it. -/
theorem starts_append (inRun : α → Bool) (index : Nat) (opened : Option Nat) (before after : List α) : ∃ later,
    starts inRun index opened (before ++ after) = starts inRun index opened before ++ later ∧
      ∀ start ∈ later, index + before.length ≤ start := by
  induction before generalizing index opened with
  | nil =>
      obtain ⟨later, same, bounds⟩ := starts_eq_opened_append inRun index opened after
      exact ⟨later, by rw [List.nil_append, same, starts_nil], fun start among =>
        (bounds start among).1⟩
  | cons unit rest ih =>
      rw [List.cons_append]
      cases here : inRun unit with
      | false =>
          obtain ⟨later, same, bounds⟩ := ih (index + 1) none
          refine ⟨later, ?_, fun start among => ?_⟩
          · rw [starts_cons_of_not_inRun here, starts_cons_of_not_inRun here, same,
              List.append_assoc]
          · have within := bounds start among
            rw [List.length_cons]
            omega
      | true =>
          obtain ⟨later, same, bounds⟩ := ih (index + 1) (some (opened.getD index))
          refine ⟨later, ?_, fun start among => ?_⟩
          · rw [starts_cons_of_inRun here, starts_cons_of_inRun here, same]
          · have within := bounds start among
            rw [List.length_cons]
            omega

/-- One more unit starts a run when it is of a run and the unit before it is not. -/
theorem starts_concat (index : Nat) (opened : Option Nat) (before : List α) (unit : α) :
    starts inRun index opened (before ++ [unit]) = starts inRun index opened before ++
      if inRun unit = true ∧ (before.getLast?.map inRun).getD opened.isSome = false
      then [index + before.length] else [] := by
  induction before generalizing index opened with
  | nil =>
      cases here : inRun unit with
      | false => simp [starts_cons_of_not_inRun here]
      | true => cases opened <;> simp [starts_cons_of_inRun here]
  | cons first rest ih =>
      have place : index + 1 + rest.length = index + (first :: rest).length := by
        rw [List.length_cons]
        omega
      have last : ((first :: rest).getLast?.map inRun).getD opened.isSome =
          (rest.getLast?.map inRun).getD (inRun first) := by
        rw [List.getLast?_cons]
        cases rest.getLast? <;> rfl
      rw [List.cons_append, last]
      cases here : inRun first with
      | false =>
          rw [starts_cons_of_not_inRun here, starts_cons_of_not_inRun here, ih, place,
            List.append_assoc, Option.isSome_none]
      | true =>
          rw [starts_cons_of_inRun here, starts_cons_of_inRun here, ih, place, Option.isSome_some]

/-- The last run of a text starts where the text ends without it. -/
theorem getLast?_starts (text : List α) :
    (starts inRun 0 none text).getLast?.getD 0 = (dropLast inRun text).length := by
  induction text using List.reverseRecOn with
  | nil => rfl
  | append_singleton before unit ih =>
      rw [starts_concat, Option.isSome_none, Nat.zero_add]
      cases here : inRun unit with
      | false =>
          rw [if_neg (fun both => absurd both.1 Bool.false_ne_true), List.append_nil, ih, dropLast,
            dropLast, List.rdropWhile_concat_pos _ _ _ (by simp [here])]
      | true =>
          have whole : dropLast inRun (before ++ [unit]) = before.rdropWhile inRun := by
            rw [dropLast, List.rdropWhile_concat_neg _ _ _ (by simp [here]),
              List.rdropWhile_concat_pos _ _ _ here]
          rw [whole]
          cases last : (before.getLast?.map inRun).getD false with
          | false =>
              -- a new run starts after what is no run
              have stays : before.rdropWhile inRun = before := by
                rw [List.rdropWhile_eq_self_iff]
                intro nonempty inside
                rw [List.getLast?_eq_some_getLast nonempty] at last
                exact absurd (last.symm.trans inside) Bool.false_ne_true
              rw [if_pos ⟨rfl, rfl⟩, List.getLast?_concat, stays]
              rfl
          | true =>
              have stays : (before.rdropWhile fun unit => ! inRun unit) = before := by
                rw [List.rdropWhile_eq_self_iff]
                intro nonempty outside
                rw [List.getLast?_eq_some_getLast nonempty] at last
                rw [Option.map_some, Option.getD_some] at last
                simp [last] at outside
              rw [if_neg (fun both => absurd both.2.symm Bool.false_ne_true), List.append_nil, ih,
                dropLast, stays]

/-- The last run that starts before an offset. -/
theorem find?_starts (inRun : α → Bool) (before after : List α) :
    ((starts inRun 0 none (before ++ after)).reverse.find? (· < before.length)).getD 0 =
      (dropLast inRun before).length := by
  obtain ⟨later, same, late⟩ := starts_append inRun 0 none before after
  obtain ⟨early, all, bounds⟩ := starts_eq_opened_append inRun 0 none before
  have skipped : later.reverse.find? (· < before.length) = none := by
    rw [List.find?_eq_none]
    intro start among
    have after := late start (List.mem_reverse.mp among)
    simp only [decide_eq_true_eq]
    omega
  have kept : (starts inRun 0 none before).filter (· < before.length) =
      starts inRun 0 none before := by
    rw [List.filter_eq_self]
    intro start among
    rw [all] at among
    have within := bounds start among
    simp only [decide_eq_true_eq]
    omega
  rw [same, List.reverse_append, List.find?_append, skipped, Option.none_or, ← List.head?_filter,
    List.filter_reverse, kept, List.head?_reverse, getLast?_starts]

/-! ## The first end -/

@[simp] theorem ends_nil : ends inRun index opened ([] : List α) = opened.toList.map fun _ => index := by
  cases opened <;> rfl

/-- A unit of a run ends none. -/
theorem ends_cons_of_inRun (here : inRun unit = true) :
    ends inRun index opened (unit :: rest) =
      ends inRun (index + 1) (some (opened.getD index)) rest := by
  cases opened <;> simp [ends, runs, here]

/-- A unit of no run ends the open one. -/
theorem ends_cons_of_not_inRun (here : inRun unit = false) :
    ends inRun index opened (unit :: rest) =
      (opened.toList.map fun _ => index) ++ ends inRun (index + 1) none rest := by
  cases opened <;> simp [ends, runs, here]

/-- A run that is open ends after more units of it. -/
theorem find?_ends_opened (late : offset < index) (text : List α) :
    (ends inRun index (some start) text).find? (offset < ·) =
      some (index + (text.takeWhile inRun).length) := by
  induction text generalizing index with
  | nil => simp [late]
  | cons unit rest ih =>
      cases here : inRun unit with
      | false => simp [ends_cons_of_not_inRun here, late, here]
      | true =>
          rw [ends_cons_of_inRun here, Option.getD_some, ih (by omega),
            List.takeWhile_cons_of_pos here, List.length_cons]
          congr 1
          omega

/-- A run in front is dropped. -/
theorem dropFirst_cons_of_inRun (here : inRun unit = true) :
    dropFirst inRun (unit :: rest) = rest.dropWhile inRun := by
  rw [dropFirst, List.dropWhile_cons_of_neg (by simp [here]), List.dropWhile_cons_of_pos here]

/-- What stands in front of the first run is dropped with it. -/
theorem dropFirst_cons_of_not_inRun (here : inRun unit = false) :
    dropFirst inRun (unit :: rest) = dropFirst inRun rest := by
  rw [dropFirst, List.dropWhile_cons_of_pos (by simp [here]), dropFirst]

/-- What is taken and what is dropped make up the text. -/
theorem length_takeWhile_add_length_dropWhile (inRun : α → Bool) (text : List α) :
    (text.takeWhile inRun).length + (text.dropWhile inRun).length = text.length := by
  rw [← List.length_append, List.takeWhile_append_dropWhile]

/-- The first end after an offset from which the text is read. A run that has come to an end
there does not count. -/
theorem find?_ends_here (inRun : α → Bool) (opened : Option Nat) (reached : offset ≤ index)
    (closes : opened.isSome = true → index = offset) (text : List α) :
    ((ends inRun index opened text).find? (offset < ·)).getD (index + text.length) +
      (dropFirst inRun text).length = index + text.length := by
  induction text generalizing index opened with
  | nil =>
      cases opened with
      | none => rfl
      | some start => simp [closes rfl, dropFirst]
  | cons unit rest ih =>
      cases here : inRun unit with
      | false =>
          have passed : (opened.toList.map fun _ => index).find? (offset < ·) = none := by
            cases opened with
            | none => rfl
            | some start => simp [closes rfl]
          have next := ih none (Nat.le_succ_of_le reached) nofun
          have place : index + 1 + rest.length = index + (unit :: rest).length := by
            rw [List.length_cons]
            omega
          rwa [ends_cons_of_not_inRun here, List.find?_append, passed, Option.none_or,
            dropFirst_cons_of_not_inRun here, ← place]
      | true =>
          rw [ends_cons_of_inRun here, find?_ends_opened (by omega), Option.getD_some,
            dropFirst_cons_of_inRun here, List.length_cons]
          have all := length_takeWhile_add_length_dropWhile inRun rest
          omega

/-- The runs that end before an offset are passed. -/
theorem find?_ends_append (inRun : α → Bool) (index : Nat) (opened : Option Nat) (before after : List α) : ∃ other,
    (ends inRun index opened (before ++ after)).find? (index + before.length < ·) =
      (ends inRun (index + before.length) other after).find? (index + before.length < ·) := by
  induction before generalizing index opened with
  | nil => exact ⟨opened, rfl⟩
  | cons unit rest ih =>
      have place : index + (unit :: rest).length = index + 1 + rest.length := by
        rw [List.length_cons]
        omega
      rw [List.cons_append, place]
      cases here : inRun unit with
      | false =>
          have passed : (opened.toList.map fun _ => index).find? (index + 1 + rest.length < ·) =
              none := by
            cases opened with
            | none => rfl
            | some start => simp; omega
          rw [ends_cons_of_not_inRun here, List.find?_append, passed, Option.none_or]
          exact ih (index + 1) none
      | true =>
          rw [ends_cons_of_inRun here]
          exact ih (index + 1) _

/-- The first run that ends after an offset. -/
theorem find?_ends (inRun : α → Bool) (before after : List α) :
    ((ends inRun 0 none (before ++ after)).find? (before.length < ·)).getD
        (before ++ after).length =
      before.length + (after.length - (dropFirst inRun after).length) := by
  obtain ⟨opened, same⟩ := find?_ends_append inRun 0 none before after
  rw [Nat.zero_add] at same
  have here := find?_ends_here inRun opened (Nat.le_refl before.length) (fun _ => rfl) after
  have less := (dropFirst_suffix inRun after).length_le
  rw [same, List.length_append]
  omega

end

end Solpg.Std.Runs
