import Mathlib.Algebra.Order.BigOperators.Group.List
import Mathlib.Algebra.Order.Group.Nat
import Mathlib.Data.List.Infix

/-!
# Where a text begins to fit

The leftmost match of an expression that runs to the end of its text is the longest tail of the
text that fits. A map that only ever shortens the members of a finite set and still reaches all
of them is the identity.
-/

namespace Solpg.Std

universe u

variable {α : Type u} {accepts : List α → Bool} {text tail : List α}

/-- `tail` is the longest tail of the text that fits. -/
structure LongestTail (Fits : List α → Prop) (text tail : List α) : Prop where
  suffix : tail <:+ text
  fits : Fits tail
  longest : ∀ other, other <:+ text → Fits other → other.length ≤ tail.length

/-- A text that fits as a whole has no longer tail. -/
theorem LongestTail.whole {Fits : List α → Prop} (fits : Fits text) : LongestTail Fits text text :=
  ⟨List.suffix_rfl, fits, fun _ suffix _ => suffix.length_le⟩

/-- The match of an expression that runs to the end of the text. -/
def firstTail (accepts : List α → Bool) : List α → Option (List α)
  | [] => if accepts [] then some [] else none
  | item :: rest => if accepts (item :: rest) then some (item :: rest) else firstTail accepts rest

/-- The first tail that is accepted is the longest one. -/
theorem firstTail_eq_some :
    firstTail accepts text = some tail ↔ LongestTail (accepts · = true) text tail := by
  induction text with
  | nil =>
      constructor
      · intro found
        by_cases accepted : accepts []
        · obtain rfl : [] = tail := by simpa [firstTail, accepted] using found
          exact ⟨List.suffix_rfl, accepted, fun other suffix _ => suffix.length_le⟩
        · simp [firstTail, accepted] at found
      · rintro ⟨suffix, fits, -⟩
        obtain rfl := List.suffix_nil.mp suffix
        simp [firstTail, fits]
  | cons item rest ih =>
      by_cases accepted : accepts (item :: rest)
      · simp only [firstTail, accepted, if_true, Option.some.injEq]
        constructor
        · rintro rfl
          exact ⟨List.suffix_rfl, accepted, fun other suffix _ => suffix.length_le⟩
        · rintro ⟨suffix, -, longest⟩
          exact (suffix.eq_of_length_le (longest _ List.suffix_rfl accepted)).symm
      · rw [firstTail, if_neg accepted, ih]
        constructor
        · rintro ⟨suffix, fits, longest⟩
          refine ⟨suffix.trans (List.suffix_cons _ _), fits, fun other within fitting => ?_⟩
          rcases List.suffix_cons_iff.mp within with rfl | inside
          · exact absurd fitting accepted
          · exact longest other inside fitting
        · rintro ⟨suffix, fits, longest⟩
          rcases List.suffix_cons_iff.mp suffix with rfl | inside
          · exact absurd fits accepted
          · exact ⟨inside, fits, fun other within fitting =>
              longest other (within.trans (List.suffix_cons _ _)) fitting⟩

/-- No tail is found when none is accepted. -/
theorem firstTail_eq_none :
    firstTail accepts text = none ↔ ∀ tail, tail <:+ text → accepts tail = false := by
  induction text with
  | nil => simp [firstTail]
  | cons item rest ih =>
      by_cases accepted : accepts (item :: rest)
      · simp only [firstTail, accepted, if_true, reduceCtorEq, false_iff, not_forall]
        exact ⟨item :: rest, List.suffix_rfl, by simp [accepted]⟩
      · rw [firstTail, if_neg accepted, ih]
        constructor
        · intro rejected tail suffix
          rcases List.suffix_cons_iff.mp suffix with rfl | inside
          · simpa using accepted
          · exact rejected tail inside
        · intro rejected tail suffix
          exact rejected tail (suffix.trans (List.suffix_cons _ _))

/-- A word without the item between two texts is in one of them. -/
theorem infix_append_cons {word before after : List α} {item : α} (free : item ∉ word) :
    word <:+: before ++ item :: after ↔ word <:+: before ∨ word <:+: after := by
  constructor
  · rintro ⟨front, back, split⟩
    rw [List.append_assoc] at split
    rcases List.append_eq_append_iff.mp split with ⟨more, rfl, rest⟩ | ⟨more, rfl, rest⟩
    · rcases List.append_eq_append_iff.mp rest with ⟨tail, rfl, last⟩ | ⟨tail, within, last⟩
      · exact .inl ⟨front, tail, by simp⟩
      · cases tail with
        | nil => exact .inl ⟨front, [], by simp [within]⟩
        | cons first tail =>
            obtain ⟨rfl, -⟩ : item = first ∧ _ := by simpa using last
            simp [within] at free
    · cases more with
      | nil =>
          cases word with
          | nil => exact .inl (List.nil_infix)
          | cons first word =>
              obtain ⟨rfl, -⟩ : item = first ∧ _ := by simpa using rest
              simp at free
      | cons first more =>
          obtain ⟨-, rfl⟩ : item = first ∧ _ := by simpa using rest
          exact .inr ⟨more, back, by simp⟩
  · rintro (within | within)
    · exact within.trans (List.prefix_append _ _).isInfix
    · exact within.trans ((List.suffix_cons item after).trans (List.suffix_append before _)).isInfix

/-- A word that occurs has a last occurrence. -/
theorem last_occurrence {word text : List α} (nonempty : word ≠ []) (occurs : word <:+: text) :
    ∃ before after, text = before ++ (word ++ after) ∧ ¬ word <:+: after := by
  obtain ⟨front, back, rfl⟩ := occurs
  induction size : back.length using Nat.strong_induction_on generalizing front back with
  | _ length ih =>
      by_cases again : word <:+: back
      · obtain ⟨more, rest, rfl⟩ := again
        have shorter : rest.length < length := by
          have := List.length_pos_iff.mpr nonempty
          simp only [List.length_append] at size
          omega
        obtain ⟨before, after, split, last⟩ := ih _ shorter (front ++ (word ++ more)) rest rfl
        exact ⟨before, after, by rw [← split]; simp, last⟩
      · exact ⟨front, back, by simp, again⟩

/-- A map that gives a member back or something shorter, and reaches every member, gives every
member back. -/
theorem fixed_of_shrinks {members : List α} {map : α → Option α} (size : α → Nat)
    (shrinks : ∀ member ∈ members, ∀ image, map member = some image →
      image = member ∨ size image < size member)
    (onto : ∀ member ∈ members, ∃ source ∈ members, map source = some member) :
    ∀ member ∈ members, map member = some member := by
  -- A member that is not fixed is reached from a larger one that is not fixed either.
  have climbs : ∀ (height : Nat) (member : α), member ∈ members → map member ≠ some member →
      ∃ larger ∈ members, map larger ≠ some larger ∧ size member + height ≤ size larger := by
    intro height
    induction height with
    | zero => exact fun member within moved => ⟨member, within, moved, le_rfl⟩
    | succ height ih =>
        intro member within moved
        obtain ⟨source, among, reaches⟩ := onto member within
        have apart : member ≠ source := by
          rintro rfl
          exact moved reaches
        have larger : size member < size source :=
          (shrinks source among member reaches).resolve_left apart
        obtain ⟨top, found, movedToo, above⟩ := ih source among fun fixed =>
          apart (by simpa [reaches] using fixed)
        exact ⟨top, found, movedToo, by omega⟩
  intro member within
  by_contra moved
  obtain ⟨larger, found, -, above⟩ := climbs (members.map size).sum.succ member within moved
  have bounded : size larger ≤ (members.map size).sum :=
    List.le_sum_of_mem (List.mem_map_of_mem found)
  omega

end Solpg.Std
