import Mathlib.Data.List.Basic
import Mathlib.Logic.Function.Basic

/-!
# Putting back what was written

Items are shown under keys and stored at places. A write is put back by writing
the content from before, or by removing the item when there was none. Removing
takes away every key that `removes` says, but one place only, so it depends on
the order whether putting back restores what was there.
-/

namespace Solpg.Std

variable {Key Place Content : Type}

/-- Two views of the same items. -/
@[ext] structure Views (Key Place Content : Type) where
  shown : Key → Option Content
  stored : Place → Option Content

/-- An item and the content from before it was written. -/
structure Saved (Key Place Content : Type) where
  key : Key
  place : Place
  content : Option Content

namespace Views

/-- The saved contents are the original ones. -/
def Consistent (original : Views Key Place Content) (items : List (Saved Key Place Content)) : Prop :=
  ∀ saved ∈ items, saved.content = original.shown saved.key ∧
    ∀ content, saved.content = some content → original.stored saved.place = some content

variable {original views final : Views Key Place Content} {saved : Saved Key Place Content}
  {items later : List (Saved Key Place Content)}

/-- Later items are consistent when all are. -/
theorem Consistent.tail (consistent : Consistent original (saved :: later)) :
    Consistent original later :=
  fun other member => consistent other (List.mem_cons_of_mem _ member)

variable [DecidableEq Place]

/-- The next item at a place is one that is to be removed. -/
def NextRemoved (items : List (Saved Key Place Content)) (place : Place) : Prop :=
  ∃ next, items.find? (·.place = place) = some next ∧ next.content = none

/-- Nothing is removed by no items. -/
theorem not_nextRemoved_nil {place : Place} :
    ¬ NextRemoved ([] : List (Saved Key Place Content)) place := by
  rintro ⟨_, found, -⟩
  cases found

/-- An item of another place does not matter to a place. -/
theorem nextRemoved_cons_of_ne {place : Place} (other : saved.place ≠ place) :
    NextRemoved (saved :: later) place ↔ NextRemoved later place := by
  simp [NextRemoved, other]

/-- The first item of a place decides whether it is removed next. -/
theorem nextRemoved_cons_self : NextRemoved (saved :: later) saved.place ↔ saved.content = none := by
  simp [NextRemoved]

/-- What differs from the original is still to be put back. -/
structure Pending (original views : Views Key Place Content) (items : List (Saved Key Place Content)) :
    Prop where
  shown : ∀ key, views.shown key = original.shown key ∨ ∃ saved ∈ items, saved.key = key
  stored : ∀ place, (∀ saved ∈ items, saved.place ≠ place) →
    views.stored place = original.stored place
  present : ∀ place, NextRemoved items place → (views.stored place).isSome = true

/-- An item of another key or place comes later. -/
theorem Pending.rest (pending : Pending original views (saved :: later)) :
    (∀ key, key ≠ saved.key → views.shown key = original.shown key ∨ ∃ other ∈ later, other.key = key) ∧
    (∀ place, place ≠ saved.place → (∀ other ∈ later, other.place ≠ place) →
      views.stored place = original.stored place) ∧
    ∀ place, place ≠ saved.place → NextRemoved later place → (views.stored place).isSome = true := by
  refine ⟨fun key elsewhere => (pending.shown key).imp_right ?_, fun place elsewhere last => ?_,
    fun place elsewhere removed =>
      pending.present place ((nextRemoved_cons_of_ne (Ne.symm elsewhere)).mpr removed)⟩
  · rintro ⟨other, member, rfl⟩
    exact ⟨other, (List.mem_cons.mp member).resolve_left (fun first => elsewhere (first ▸ rfl)), rfl⟩
  · refine pending.stored place fun other member => ?_
    rcases List.mem_cons.mp member with rfl | after
    · exact Ne.symm elsewhere
    · exact last other after

variable (removes : Key → Key → Bool)

/-- Each removal is of something that was not there, or is made up for later: the
next item at its place is not removed again, and the keys that it takes away are
written later. -/
def Restorable (original : Views Key Place Content) : List (Saved Key Place Content) → Prop
  | [] => True
  | saved :: later =>
      (saved.content = none →
        ¬ NextRemoved later saved.place ∧
        ((∀ other ∈ later, other.place ≠ saved.place) → original.stored saved.place = none) ∧
        ∀ key, removes saved.key key = true → (original.shown key).isSome = true →
          ∃ other ∈ later, other.key = key) ∧
      Restorable original later

/-- Remove a place, and every key that its key removes. -/
def remove (views : Views Key Place Content) (key : Key) (place : Place) :
    Views Key Place Content where
  shown other := if removes key other then none else views.shown other
  stored other := if other = place then none else views.stored other

variable [DecidableEq Key]

/-- Write the content to the key and the place. -/
def write (views : Views Key Place Content) (key : Key) (place : Place) (content : Content) :
    Views Key Place Content where
  shown other := if other = key then some content else views.shown other
  stored other := if other = place then some content else views.stored other

/-- Only what is stored can be removed. -/
def putBack (views : Views Key Place Content) (saved : Saved Key Place Content) :
    Option (Views Key Place Content) :=
  match saved.content with
  | some content => some (views.write saved.key saved.place content)
  | none =>
      if (views.stored saved.place).isSome then some (views.remove removes saved.key saved.place)
      else none

/-- Put the items back one after the other. -/
def putBackAll : List (Saved Key Place Content) → Views Key Place Content →
    Option (Views Key Place Content)
  | [], views => some views
  | saved :: later, views => (views.putBack removes saved).bind (putBackAll later)

variable {removes}

section Rules

variable (views) (key other : Key) (place elsewhere : Place) (content : Content)

@[simp] theorem shown_write : (views.write key place content).shown other =
    if other = key then some content else views.shown other := rfl

@[simp] theorem stored_write : (views.write key place content).stored elsewhere =
    if elsewhere = place then some content else views.stored elsewhere := rfl

omit [DecidableEq Key]

@[simp] theorem shown_remove : (views.remove removes key place).shown other =
    if removes key other then none else views.shown other := rfl

@[simp] theorem stored_remove : (views.remove removes key place).stored elsewhere =
    if elsewhere = place then none else views.stored elsewhere := rfl

end Rules

/-- Writing an item back leaves the later ones to do. -/
theorem Pending.write {content : Content} (pending : Pending original views (saved :: later))
    (consistent : Consistent original (saved :: later)) (there : saved.content = some content) :
    Pending original (views.write saved.key saved.place content) later := by
  obtain ⟨shown, stored, present⟩ := pending.rest
  obtain ⟨sameShown, sameStored⟩ := consistent saved List.mem_cons_self
  refine ⟨fun key => ?_, fun place last => ?_, fun place removed => ?_⟩
  · rw [shown_write]
    split
    next here => exact .inl (by rw [here, ← sameShown, there])
    next elsewhere => exact shown key elsewhere
  · rw [stored_write]
    split
    next here => rw [here, sameStored content there]
    next elsewhere => exact stored place elsewhere last
  · rw [stored_write]
    split
    next => rfl
    next elsewhere => exact present place elsewhere removed

omit [DecidableEq Key] in
/-- Removing what was not there leaves the later items to do. -/
theorem Pending.remove (pending : Pending original views (saved :: later))
    (reflexive : removes saved.key saved.key = true) (nothing : saved.content = none)
    (restorable : Restorable removes original (saved :: later)) :
    Pending original (views.remove removes saved.key saved.place) later := by
  obtain ⟨shown, stored, present⟩ := pending.rest
  obtain ⟨onceOnly, empty, rewritten⟩ := restorable.1 nothing
  refine ⟨fun key => ?_, fun place last => ?_, fun place removed => ?_⟩
  · rw [shown_remove]
    split
    next removed =>
      cases there : original.shown key with
      | none => exact .inl rfl
      | some content => exact .inr (rewritten key removed (by rw [there]; rfl))
    next kept =>
      refine shown key ?_
      rintro rfl
      exact kept reflexive
  · rw [stored_remove]
    split
    next here => rw [here, empty (fun other member => here ▸ last other member)]
    next elsewhere => exact stored place elsewhere last
  · rw [stored_remove]
    split
    next here => exact absurd (here ▸ removed) onceOnly
    next elsewhere => exact present place elsewhere removed

/-- Items that can be restored are put back to what was there. -/
theorem Pending.putBackAll (pending : Pending original views items)
    (consistent : Consistent original items) (reflexive : ∀ key, removes key key = true)
    (restorable : Restorable removes original items) :
    putBackAll removes items views = some original := by
  induction items generalizing views with
  | nil =>
      have shown : views.shown = original.shown :=
        funext fun key => (pending.shown key).resolve_right (by simp)
      have stored : views.stored = original.stored :=
        funext fun place => pending.stored place (by simp)
      exact congrArg some (Views.ext shown stored)
  | cons saved later ih =>
      rw [Views.putBackAll, putBack]
      cases content : saved.content with
      | some content =>
          exact ih (pending.write consistent content) consistent.tail restorable.2
      | none =>
          have present := pending.present saved.place (nextRemoved_cons_self.mpr content)
          simp only [present, if_true, Option.bind_some]
          exact ih (pending.remove (reflexive _) content restorable) consistent.tail restorable.2

/-- A step either writes the item or removes it, when it is stored. -/
theorem putBack_cases {next : Views Key Place Content} (step : views.putBack removes saved = some next) :
    (∃ content, saved.content = some content ∧ next = views.write saved.key saved.place content) ∨
      saved.content = none ∧ (views.stored saved.place).isSome = true ∧
        next = views.remove removes saved.key saved.place := by
  rw [putBack] at step
  cases there : saved.content with
  | some content =>
      rw [there] at step
      exact .inl ⟨content, rfl, (Option.some.inj step).symm⟩
  | none =>
      rw [there] at step
      simp only [Option.ite_none_right_eq_some, Option.some.injEq] at step
      exact .inr ⟨rfl, step.1, step.2.symm⟩

/-- Elsewhere a step changes nothing that is stored. -/
theorem putBack_stored {next : Views Key Place Content} {place : Place}
    (step : views.putBack removes saved = some next) (elsewhere : saved.place ≠ place) :
    next.stored place = views.stored place := by
  obtain ⟨content, -, rfl⟩ | ⟨-, -, rfl⟩ := putBack_cases step
  · rw [stored_write, if_neg (Ne.symm elsewhere)]
  · rw [stored_remove, if_neg (Ne.symm elsewhere)]

/-- What no item is about stays. -/
theorem putBackAll_stored {place : Place} (all : putBackAll removes items views = some final)
    (elsewhere : ∀ saved ∈ items, saved.place ≠ place) :
    final.stored place = views.stored place := by
  induction items generalizing views with
  | nil =>
      cases all
      rfl
  | cons saved later ih =>
      obtain ⟨next, step, all⟩ := Option.bind_eq_some_iff.mp all
      rw [ih all fun other member => elsewhere other (List.mem_cons_of_mem _ member),
        putBack_stored step (elsewhere saved List.mem_cons_self)]

/-- A key without content that no item is about stays without. -/
theorem putBackAll_shown {key : Key} (all : putBackAll removes items views = some final)
    (elsewhere : ∀ saved ∈ items, saved.key ≠ key) (nothing : views.shown key = none) :
    final.shown key = none := by
  induction items generalizing views with
  | nil =>
      cases all
      exact nothing
  | cons saved later ih =>
      have other := elsewhere saved List.mem_cons_self
      obtain ⟨next, step, all⟩ := Option.bind_eq_some_iff.mp all
      refine ih all (fun saved member => elsewhere saved (List.mem_cons_of_mem _ member)) ?_
      obtain ⟨content, -, rfl⟩ | ⟨-, -, rfl⟩ := putBack_cases step
      · rw [shown_write, if_neg (Ne.symm other), nothing]
      · rw [shown_remove, nothing, ite_self]

/-- What is not stored cannot be the next to be removed. -/
theorem not_nextRemoved {place : Place} (all : putBackAll removes items views = some final)
    (nothing : views.stored place = none) : ¬ NextRemoved items place := by
  induction items generalizing views with
  | nil => exact not_nextRemoved_nil
  | cons saved later ih =>
      obtain ⟨next, step, all⟩ := Option.bind_eq_some_iff.mp all
      by_cases here : saved.place = place
      · subst here
        rw [nextRemoved_cons_self]
        intro removed
        obtain ⟨content, there, -⟩ | ⟨-, present, -⟩ := putBack_cases step
        · rw [removed] at there
          cases there
        · rw [nothing] at present
          cases present
      · rw [nextRemoved_cons_of_ne here]
        exact ih all ((putBack_stored step here).trans nothing)

/-- What is put back could be restored. -/
theorem restorable_of_putBackAll (all : putBackAll removes items views = some original) :
    Restorable removes original items := by
  induction items generalizing views with
  | nil => trivial
  | cons saved later ih =>
      obtain ⟨next, step, all⟩ := Option.bind_eq_some_iff.mp all
      refine ⟨fun nothing => ?_, ih all⟩
      obtain ⟨content, there, -⟩ | ⟨-, -, rfl⟩ := putBack_cases step
      · rw [nothing] at there
        cases there
      have gone : (views.remove removes saved.key saved.place).stored saved.place = none := if_pos rfl
      refine ⟨not_nextRemoved all gone, fun last => ?_, fun key removed there => ?_⟩
      · rw [putBackAll_stored all last, gone]
      · by_contra none_
        have lost : (views.remove removes saved.key saved.place).shown key = none := if_pos removed
        rw [putBackAll_shown all (fun other member same => none_ ⟨other, member, same⟩) lost] at there
        cases there

/-- Putting back restores the original if and only if it is restorable. -/
theorem putBackAll_eq_iff (pending : Pending original views items)
    (consistent : Consistent original items) (reflexive : ∀ key, removes key key = true) :
    putBackAll removes items views = some original ↔ Restorable removes original items :=
  ⟨restorable_of_putBackAll, pending.putBackAll consistent reflexive⟩

end Views
end Solpg.Std
