import Solpg.Std.Runs

/-!
# A line with a cursor

A line that is edited is the text before its cursor and the text after it, so that a cursor
outside of the line cannot be built. Programs keep the text and an index instead; the index
may be any number, and `Shows` says which line the two are.
-/

namespace Solpg.Std

universe u

/-- A line as what stands before the cursor and behind it. -/
structure EditLine (α : Type u) where
  before : List α := []
  after : List α := []
  deriving DecidableEq, Repr

namespace EditLine

variable {α : Type u}

/-- The whole line. -/
def text (line : EditLine α) : List α := line.before ++ line.after

/-- Where the cursor stands. -/
def cursor (line : EditLine α) : Nat := line.before.length

/-- The line of a text with its cursor at the end. -/
def ofText (text : List α) : EditLine α := ⟨text, []⟩

/-- Type at the cursor. -/
def insert (line : EditLine α) (typed : List α) : EditLine α :=
  { line with before := line.before ++ typed }

/-- Remove what stands before the cursor. -/
def backspace (line : EditLine α) : EditLine α := { line with before := line.before.dropLast }

/-- Remove what stands at the cursor. -/
def delete (line : EditLine α) : EditLine α := { line with after := line.after.tail }

/-- Move the cursor to the left. -/
def left (line : EditLine α) : EditLine α :=
  ⟨line.before.dropLast, line.before.getLast?.toList ++ line.after⟩

/-- Move the cursor to the right. -/
def right (line : EditLine α) : EditLine α :=
  ⟨line.before ++ line.after.head?.toList, line.after.tail⟩

/-- Move the cursor to the start. -/
def home (line : EditLine α) : EditLine α := ⟨[], line.text⟩

/-- Move the cursor to the end. -/
def toEnd (line : EditLine α) : EditLine α := ⟨line.text, []⟩

/-- Remove everything before the cursor. -/
def killToStart (line : EditLine α) : EditLine α := { line with before := [] }

/-- Remove everything from the cursor on. -/
def killToEnd (line : EditLine α) : EditLine α := { line with after := [] }

section

variable (isWord : α → Bool)

/-- The cursor moves to the start of the word before it. -/
def wordLeft (line : EditLine α) : EditLine α :=
  let kept := Runs.dropLast isWord line.before
  ⟨kept, line.before.drop kept.length ++ line.after⟩

/-- The cursor moves to the end of the word after it. -/
def wordRight (line : EditLine α) : EditLine α :=
  let left := Runs.dropFirst isWord line.after
  ⟨line.before ++ line.after.take (line.after.length - left.length), left⟩

/-- Remove the last word before the cursor, and what follows it. -/
def deleteWordLeft (line : EditLine α) : EditLine α :=
  { line with before := Runs.dropLast isWord line.before }

end

/-! ## Moves keep the text -/

/-- Moving to the left keeps the text. -/
@[simp] theorem text_left (line : EditLine α) : line.left.text = line.text := by
  obtain ⟨before, after⟩ := line
  cases before using List.reverseRecOn with
  | nil => rfl
  | append_singleton before unit => simp [left, text]

/-- Moving to the right keeps the text. -/
@[simp] theorem text_right (line : EditLine α) : line.right.text = line.text := by
  obtain ⟨before, after⟩ := line
  cases after with
  | nil => simp [right, text]
  | cons unit after => simp [right, text]

@[simp] theorem text_home (line : EditLine α) : line.home.text = line.text := rfl

@[simp] theorem text_toEnd (line : EditLine α) : line.toEnd.text = line.text :=
  List.append_nil _

/-- Moving back by a word keeps the text. -/
@[simp] theorem text_wordLeft (isWord : α → Bool) (line : EditLine α) :
    (line.wordLeft isWord).text = line.text := by
  have whole := List.prefix_iff_eq_append.mp (Runs.dropLast_prefix isWord line.before)
  simp only [text, wordLeft]
  rw [← List.append_assoc, whole]

/-- Moving on by a word keeps the text. -/
@[simp] theorem text_wordRight (isWord : α → Bool) (line : EditLine α) :
    (line.wordRight isWord).text = line.text := by
  have whole := List.suffix_iff_eq_append.mp (Runs.dropFirst_suffix isWord line.after)
  simp only [text, wordRight]
  rw [List.append_assoc, whole]

/-- The cursor is inside the line. -/
theorem cursor_le_length (line : EditLine α) : line.cursor ≤ line.text.length := by
  rw [text, List.length_append]
  exact Nat.le_add_right _ _

/-! ## A text and an index -/

/-- A text and an index into it are a line. -/
structure Shows (text : List α) (cursor : Int) (line : EditLine α) : Prop where
  text : text = line.text
  cursor : cursor = line.cursor

variable {text : List α} {cursor : Int} {line other : EditLine α}

/-- The index is within the text. -/
def Within (text : List α) (cursor : Int) : Prop := 0 ≤ cursor ∧ cursor ≤ text.length

instance : Decidable (Within text cursor) := inferInstanceAs (Decidable (_ ∧ _))

/-- A cursor that is shown is inside the text. -/
theorem Shows.within (shown : Shows text cursor line) : Within text cursor := by
  have least := line.cursor_le_length
  rw [Within, shown.text, shown.cursor]
  omega

/-- A text and an index within it are a line. -/
theorem exists_shows_iff : (∃ line, Shows text cursor line) ↔ Within text cursor := by
  constructor
  · rintro ⟨line, shown⟩
    exact shown.within
  · rintro ⟨nonneg, most⟩
    refine ⟨⟨text.take cursor.toNat, text.drop cursor.toNat⟩, ?_, ?_⟩
    · exact (List.take_append_drop _ _).symm
    · rw [EditLine.cursor, List.length_take]
      omega

/-- A line is shown by its text and its cursor. -/
theorem shows_text (line : EditLine α) : Shows line.text line.cursor line := ⟨rfl, rfl⟩

/-- They are one line only. -/
theorem Shows.unique (first : Shows text cursor line) (second : Shows text cursor other) :
    line = other := by
  have sameText : line.before ++ line.after = other.before ++ other.after :=
    first.text.symm.trans second.text
  have sameLength : line.before.length = other.before.length :=
    Int.ofNat_inj.mp (first.cursor.symm.trans second.cursor)
  obtain ⟨before, after⟩ := List.append_inj sameText sameLength
  cases line
  cases other
  exact congr (congrArg EditLine.mk before) after

/-- Nothing stands behind a cursor at the end only. -/
theorem Shows.nil_iff_end (shown : Shows text cursor line) :
    line.after = [] ↔ cursor = text.length := by
  rw [shown.text, shown.cursor, EditLine.text, List.length_append, EditLine.cursor,
    ← List.length_eq_zero_iff]
  omega

end EditLine
end Solpg.Std
