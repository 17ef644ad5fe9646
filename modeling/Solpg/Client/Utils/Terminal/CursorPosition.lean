import Solpg.Std.CodeUnits
import Solpg.Std.Screen

/-!
# Rows and columns of the input

`PgTty` counts where an offset of its input is on the screen. The terminal itself writes
into a full row only what begins the next one, and the count starts a row anew with the
unit before.
-/

namespace Solpg.Client.Utils.PgTty

open Solpg.Std

/-- Convert offset at the given input to col/row location, by navigating the terminal and
wrapping at the column width. -/
def offsetToColRow (input : CodeUnits) (offset maxCols : Nat) : GridPosition :=
  (List.range offset).foldl (fun position i =>
    if input[i]? = some CodeUnits.lineFeed then ⟨position.row + 1, 0⟩
    else if maxCols < position.col + 1 then ⟨position.row + 1, 0⟩
    else ⟨position.row, position.col + 1⟩) ⟨0, 0⟩

/-- Count the lines of the given input. -/
def countLines (input : CodeUnits) (maxCols : Nat) : Nat :=
  (offsetToColRow input input.length maxCols).row + 1

variable {cols : Nat} {input : CodeUnits} {offset : Nat}

/-- Only the units before the offset count. -/
theorem offsetToColRow_eq (within : offset ≤ input.length) :
    offsetToColRow input offset cols =
      (input.take offset).foldl (GridPosition.count cols CodeUnits.lineFeed) ⟨0, 0⟩ := by
  rw [offsetToColRow]
  induction offset with
  | zero => rfl
  | succ offset ih =>
      have unit := List.getElem?_eq_getElem within
      rw [List.range_succ, List.foldl_append, ih (Nat.le_of_succ_le within), List.foldl_cons,
        List.foldl_nil, List.take_succ_eq_append_getElem within, List.foldl_append,
        List.foldl_cons, List.foldl_nil, GridPosition.count, unit]
      simp only [Option.some.injEq, Nat.lt_succ_iff]
      split
      next => rfl
      next =>
        split
        next full => rw [if_neg (Nat.not_lt.mpr full)]
        next room => rw [if_pos (Nat.lt_of_not_le room)]

/-- The position is that of the cursor when the units before the offset have been printed.
Without a line break, the rows before it are full. -/
structure PlacesCursor (cols : Nat) (input : CodeUnits) (offset : Nat) : Prop where
  cursor : offsetToColRow input offset cols =
    GridPosition.cursor cols CodeUnits.lineFeed (input.take offset)
  plain : CodeUnits.lineFeed ∉ input → 0 < offset →
    (offsetToColRow input offset cols).row = (offset + cols - 1) / cols - 1 ∧
      (offsetToColRow input offset cols).col =
        offset - (offsetToColRow input offset cols).row * cols

/-- The position is that of the cursor exactly when each line that ends before the offset
takes as many rows as are counted, and the part of its own line is within one row. -/
theorem placesCursor_iff (positive : 0 < cols) (within : offset ≤ input.length) :
    PlacesCursor cols input offset ↔
      GridPosition.Counts cols ((input.take offset).splitOn CodeUnits.lineFeed) := by
  have decides := GridPosition.foldl_count_eq_cursor_iff positive CodeUnits.lineFeed (input.take offset)
  rw [← offsetToColRow_eq within] at decides
  rw [← decides]
  constructor
  · exact PlacesCursor.cursor
  · intro same
    refine ⟨same, fun plain some => ?_⟩
    have before : CodeUnits.lineFeed ∉ input.take offset :=
      fun among => plain (List.mem_of_mem_take among)
    have length : (input.take offset).length = offset := List.length_take_of_le within
    have rounded := GridPosition.cursor_of_plain positive before (List.ne_nil_of_length_pos (by omega))
    rwa [length, ← same] at rounded

/-- Up to the width, and after a line of two rows that are counted as such. -/
theorem placesCursor_second_line :
    PlacesCursor 3 (CodeUnits.ofText ['a', 'b', 'c', 'd', '\n', 'e', 'f']) 7 :=
  (placesCursor_iff (by decide) (by decide)).mpr (by decide)

/-- The third unit on a screen of two columns is in the first cell of the second row, and
the count has not come there. -/
theorem not_placesCursor_wrapped : ¬ PlacesCursor 2 (CodeUnits.ofText ['a', 'b', 'c']) 3 := by
  intro places
  exact absurd places.cursor (by decide)

end Solpg.Client.Utils.PgTty
