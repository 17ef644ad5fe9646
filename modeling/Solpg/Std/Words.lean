import Mathlib.Data.List.Basic

/-!
# The words of a text

A text is words with breaks between them. What is put together with breaks has the words of
its parts, in order.
-/

namespace Solpg.Std.Words

universe u

variable {α : Type u} {isBreak : α → Bool} {text other gap : List α}

/-- The pieces between breaks that are not empty. -/
def words (isBreak : α → Bool) (text : List α) : List (List α) :=
  (text.splitOnP isBreak).filter (· ≠ [])

/-- A text of breaks only. -/
def Blank (isBreak : α → Bool) (text : List α) : Prop := ∀ unit ∈ text, isBreak unit = true

/-- Two blank texts are one. -/
theorem Blank.append (first : Blank isBreak text) (second : Blank isBreak other) :
    Blank isBreak (text ++ other) :=
  fun unit among => (List.mem_append.mp among).elim (first unit) (second unit)

@[simp] theorem words_nil : words isBreak [] = [] := by
  simp [words, List.splitOnP_nil]

/-- A break ends a word, and belongs to none. -/
theorem words_append_cons {mark : α} (breaks : isBreak mark = true) (text other : List α) :
    words isBreak (text ++ mark :: other) = words isBreak text ++ words isBreak other := by
  rw [words, List.splitOnP_append_cons text other breaks, List.filter_append]
  rfl

/-- Blanks in front make no words. -/
theorem words_blank_append (blank : Blank isBreak gap) (text : List α) :
    words isBreak (gap ++ text) = words isBreak text := by
  induction gap with
  | nil => rfl
  | cons mark rest ih =>
      have breaks := words_append_cons (blank mark List.mem_cons_self) [] (rest ++ text)
      rw [words_nil, List.nil_append, List.nil_append] at breaks
      rw [List.cons_append, breaks]
      exact ih fun unit among => blank unit (List.mem_cons_of_mem _ among)

/-- A gap between two texts keeps their words apart. -/
theorem words_append_gap (blank : Blank isBreak gap) (some : gap ≠ []) :
    words isBreak (text ++ (gap ++ other)) = words isBreak text ++ words isBreak other := by
  obtain ⟨mark, rest, rfl⟩ := List.exists_cons_of_ne_nil some
  have blankRest : Blank isBreak rest :=
    fun unit among => blank unit (List.mem_cons_of_mem _ among)
  rw [List.cons_append, words_append_cons (blank mark List.mem_cons_self),
    words_blank_append blankRest]

/-- Texts with gaps between them have the words of each. -/
theorem words_intercalate (blank : Blank isBreak gap) (some : gap ≠ []) (texts : List (List α)) :
    words isBreak (gap.intercalate texts) = texts.flatMap (words isBreak) := by
  induction texts with
  | nil => simp
  | cons first rest ih =>
      cases rest with
      | nil => simp
      | cons next rest =>
          have more : gap.intercalate (first :: next :: rest) =
              first ++ (gap ++ gap.intercalate (next :: rest)) := by
            simp [List.intercalate]
          rw [more, words_append_gap blank some, ih]
          rfl

/-- The words of what a text is split into are its words. -/
theorem flatMap_words_splitOn [BEq α] [LawfulBEq α] {mark : α} (breaks : isBreak mark = true) (text : List α) :
    (text.splitOn mark).flatMap (words isBreak) = words isBreak text := by
  have blank : Blank isBreak [mark] := by
    intro unit among
    rwa [List.mem_singleton.mp among]
  rw [← words_intercalate blank (List.cons_ne_nil mark []), List.intercalate_splitOn]

section Dropping

variable {β : Type u} (items : List β) (kept dropped : β → List α)

/-- What is kept is no longer than the whole. -/
theorem length_flatMap_le : (items.flatMap kept).length ≤
    (items.flatMap fun item => kept item ++ dropped item).length := by
  induction items with
  | nil => exact Nat.le_refl _
  | cons first rest ih =>
      simp only [List.flatMap_cons, List.length_append]
      omega

/-- Dropping the ends of several lists leaves the same list in all exactly when none of the
ends had anything. -/
theorem flatMap_eq_append_iff :
    (items.flatMap kept = items.flatMap fun item => kept item ++ dropped item) ↔
      ∀ item ∈ items, dropped item = [] := by
  induction items with
  | nil => exact ⟨fun _ => nofun, fun _ => rfl⟩
  | cons first rest ih =>
      rw [List.flatMap_cons, List.flatMap_cons, List.forall_mem_cons, ← ih, List.append_assoc]
      constructor
      · intro same
        have all := List.append_cancel_left same
        have lengths := congrArg List.length all
        rw [List.length_append] at lengths
        have fewer := length_flatMap_le rest kept dropped
        have none : dropped first = [] := List.eq_nil_of_length_eq_zero (by omega)
        rw [none, List.nil_append] at all
        exact ⟨none, all⟩
      · rintro ⟨none, all⟩
        rw [none, List.nil_append, all]

end Dropping

end Solpg.Std.Words
