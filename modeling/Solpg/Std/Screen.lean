import Solpg.Std.Text
import Mathlib.Data.List.Induction
import Mathlib.Tactic.Linarith

/-!
# Where the cursor of a terminal is

A terminal writes into a full row only what begins the next one: after the last cell of a
row the cursor waits behind it, and wraps when one more unit is printed. A counter that
wraps as soon as it passes the width lags behind it.
-/

namespace Solpg.Std

universe u

/-- A column is between 0 and the width, where the cursor waits to wrap. -/
structure GridPosition where
  row : Nat
  col : Nat
  deriving DecidableEq, Repr

/-- Rows on the screen are filled up to the width, and the last one has been begun. -/
structure Fills (cols length rows col : Nat) : Prop where
  total : rows * cols + col = length
  inside : col ≤ cols
  begun : 0 < length → 0 < col

/-- A line of so many units takes as many rows by the counter as on the screen. -/
def CountsRows (cols length : Nat) : Prop := length / (cols + 1) + length % (cols + 1) ≤ cols

instance (cols length : Nat) : Decidable (CountsRows cols length) :=
  inferInstanceAs (Decidable (_ ≤ _))

namespace Fills

variable {cols length rows col : Nat}

/-- A text fills the fewest rows it can. -/
theorem rows_le (positive : 0 < cols) (fills : Fills cols length rows col) {others other : Nat}
    (another : Fills cols length others other) : rows ≤ others := by
  by_contra more
  have full : (others + 1) * cols ≤ rows * cols := Nat.mul_le_mul_right cols (by omega)
  rw [Nat.succ_mul] at full
  have same := fills.total.trans another.total.symm
  have inside := another.inside
  have empty : length = 0 := by
    by_contra some
    have begun := fills.begun (Nat.pos_of_ne_zero some)
    omega
  have none : rows * cols = 0 := by
    have total := fills.total
    omega
  obtain gone | gone := Nat.mul_eq_zero.mp none
  · omega
  · omega

/-- The rows and the column are determined by the length. -/
theorem unique (positive : 0 < cols) (fills : Fills cols length rows col) {others other : Nat}
    (another : Fills cols length others other) : rows = others ∧ col = other := by
  obtain rfl : rows = others :=
    Nat.le_antisymm (fills.rows_le positive another) (another.rows_le positive fills)
  have same := fills.total.trans another.total.symm
  exact ⟨rfl, by omega⟩

/-- The rows of a text are its length over the width, rounded up. -/
theorem rows_eq_div (positive : 0 < cols) (fills : Fills cols length rows col)
    (some : 0 < length) : rows = (length + cols - 1) / cols - 1 := by
  have begun := fills.begun some
  have inside := fills.inside
  have split : length + cols - 1 = (col - 1) + cols * (rows + 1) := by
    rw [← fills.total, Nat.mul_succ, Nat.mul_comm cols rows]
    omega
  rw [split, Nat.add_mul_div_left _ _ positive, Nat.div_eq_of_lt (by omega)]
  omega

/-- The length by the rows that are counted. -/
theorem counted (length cols : Nat) :
    length / (cols + 1) * cols + (length / (cols + 1) + length % (cols + 1)) = length := by
  have parts := Nat.div_add_mod length (cols + 1)
  rw [Nat.succ_mul, Nat.mul_comm cols] at parts
  omega

/-- No row is counted that the screen does not have. -/
theorem count_le (fills : Fills cols length rows col) : length / (cols + 1) ≤ rows := by
  by_contra more
  have full : (rows + 1) * cols ≤ length / (cols + 1) * cols :=
    Nat.mul_le_mul_right cols (by omega)
  rw [Nat.succ_mul] at full
  have parts := counted length cols
  have total := fills.total
  have inside := fills.inside
  omega

/-- Where the terminal's count of rows is right. -/
theorem count_eq_iff (positive : 0 < cols) (fills : Fills cols length rows col) :
    length / (cols + 1) = rows ↔ CountsRows cols length := by
  have parts := counted length cols
  constructor
  · rintro rfl
    have total := fills.total
    have inside := fills.inside
    rw [CountsRows]
    omega
  · intro counts
    refine (unique positive ⟨parts, counts, fun some => ?_⟩ fills).1
    by_contra none
    obtain ⟨no, rest⟩ := Nat.eq_zero_of_add_eq_zero (Nat.eq_zero_of_not_pos none)
    rw [no, rest, Nat.zero_mul] at parts
    omega

/-- The counter is where the cursor is as long as the line is in its first row. -/
theorem count_and_col_eq_iff (positive : 0 < cols) (fills : Fills cols length rows col) :
    length / (cols + 1) = rows ∧ length % (cols + 1) = col ↔ length ≤ cols := by
  constructor
  · rintro ⟨rfl, rfl⟩
    have parts := counted length cols
    have total := fills.total
    have inside := fills.inside
    have first : length / (cols + 1) = 0 := by omega
    rw [first, Nat.zero_mul] at total
    omega
  · intro short
    rw [Nat.div_eq_of_lt (Nat.lt_succ_of_le short), Nat.mod_eq_of_lt (Nat.lt_succ_of_le short)]
    exact unique positive ⟨by rw [Nat.zero_mul, Nat.zero_add], short, id⟩ fills

end Fills

namespace GridPosition

variable {α : Type u} [DecidableEq α]

/-- One more unit is printed. -/
def print (cols : Nat) (newline : α) (position : GridPosition) (unit : α) : GridPosition :=
  if unit = newline then ⟨position.row + 1, 0⟩
  else if position.col < cols then ⟨position.row, position.col + 1⟩
  else ⟨position.row + 1, 1⟩

/-- Where the cursor is after the units have been printed on an empty screen. -/
def cursor (cols : Nat) (newline : α) (units : List α) : GridPosition :=
  units.foldl (print cols newline) ⟨0, 0⟩

/-- The counter of a column that starts anew behind the width. -/
def count (cols : Nat) (newline : α) (position : GridPosition) (unit : α) : GridPosition :=
  if unit = newline then ⟨position.row + 1, 0⟩
  else if position.col < cols then ⟨position.row, position.col + 1⟩
  else ⟨position.row + 1, 0⟩

variable {cols : Nat} {newline : α} {line : List α}

/-- The rows that a line fills, and the column behind it. -/
theorem foldl_print (positive : 0 < cols) (plain : newline ∉ line) (row : Nat) :
    ∃ rows col, line.foldl (print cols newline) ⟨row, 0⟩ = ⟨row + rows, col⟩ ∧
      Fills cols line.length rows col := by
  induction line using List.reverseRecOn with
  | nil => exact ⟨0, 0, rfl, by simp, Nat.zero_le _, id⟩
  | append_singleton earlier unit ih =>
      rw [List.mem_append, not_or, List.mem_singleton] at plain
      obtain ⟨rows, col, there, fills⟩ := ih plain.1
      have inside := fills.inside
      have total := fills.total
      rw [List.foldl_append, there, List.foldl_cons, List.foldl_nil, print,
        if_neg (Ne.symm plain.2), List.length_append, List.length_singleton]
      by_cases room : col < cols
      · exact ⟨rows, col + 1, by rw [if_pos room], by omega, room, fun _ => Nat.succ_pos col⟩
      · refine ⟨rows + 1, 1, by rw [if_neg room, Nat.add_assoc], ?_, positive, fun _ => Nat.one_pos⟩
        rw [Nat.succ_mul]
        omega

/-- The rows that are counted for a line, and the column behind it. -/
theorem foldl_count (plain : newline ∉ line) (row : Nat) :
    line.foldl (count cols newline) ⟨row, 0⟩ =
      ⟨row + line.length / (cols + 1), line.length % (cols + 1)⟩ := by
  have counted : ∃ rows col, line.foldl (count cols newline) ⟨row, 0⟩ = ⟨row + rows, col⟩ ∧
      rows * (cols + 1) + col = line.length ∧ col ≤ cols := by
    induction line using List.reverseRecOn with
    | nil => exact ⟨0, 0, rfl, by simp, Nat.zero_le _⟩
    | append_singleton earlier unit ih =>
        rw [List.mem_append, not_or, List.mem_singleton] at plain
        obtain ⟨rows, col, there, length, inside⟩ := ih plain.1
        rw [List.foldl_append, there, List.foldl_cons, List.foldl_nil, count,
          if_neg (Ne.symm plain.2), List.length_append, List.length_singleton]
        by_cases room : col < cols
        · exact ⟨rows, col + 1, by rw [if_pos room], by omega, room⟩
        · refine ⟨rows + 1, 0, by rw [if_neg room, Nat.add_assoc], ?_, Nat.zero_le _⟩
          rw [Nat.succ_mul]
          omega
  obtain ⟨rows, col, there, length, inside⟩ := counted
  obtain ⟨counts, rest⟩ := (Nat.div_mod_unique (Nat.succ_pos cols)).mpr
    ⟨(by rw [← length, Nat.mul_comm, Nat.add_comm] : col + (cols + 1) * rows = line.length),
      Nat.lt_succ_of_le inside⟩
  rw [there, counts, rest]

/-- Units without a line break, by rounded division. -/
theorem cursor_of_plain (positive : 0 < cols) (plain : newline ∉ line) (some : line ≠ []) :
    (cursor cols newline line).row = (line.length + cols - 1) / cols - 1 ∧
      (cursor cols newline line).col =
        line.length - (cursor cols newline line).row * cols := by
  obtain ⟨rows, col, there, fills⟩ := foldl_print positive plain 0
  rw [cursor, there, Nat.zero_add]
  refine ⟨fills.rows_eq_div positive (List.length_pos_of_ne_nil some), ?_⟩
  exact Nat.eq_sub_of_add_eq (by rw [Nat.add_comm]; exact fills.total)

/-- The lines are short enough for the counter: each that has ended takes as many rows as
are counted, and the last one is still in its first row. -/
def Counts (cols : Nat) (lines : List (List α)) : Prop :=
  (∀ line ∈ lines.dropLast, CountsRows cols line.length) ∧
    ∀ line ∈ lines.getLast?, line.length ≤ cols

instance (cols : Nat) (lines : List (List α)) : Decidable (Counts cols lines) :=
  inferInstanceAs (Decidable (_ ∧ _))

omit [DecidableEq α] in
/-- The rows of several lines are right when those of each line are. -/
theorem counts_cons {next : List α} {rest : List (List α)} :
    Counts cols (line :: next :: rest) ↔
      CountsRows cols line.length ∧ Counts cols (next :: rest) := by
  simp [Counts, and_assoc]

/-- From rows that are not more than those of the screen, the counter comes to the cursor
exactly when it was at the same row and the lines are short enough. -/
theorem foldl_count_eq_iff (positive : 0 < cols) {lines : List (List α)} (some : lines ≠ [])
    (plain : ∀ line ∈ lines, newline ∉ line) {counted row : Nat} (behind : counted ≤ row) :
    ([newline].intercalate lines).foldl (count cols newline) ⟨counted, 0⟩ =
        ([newline].intercalate lines).foldl (print cols newline) ⟨row, 0⟩ ↔
      counted = row ∧ Counts cols lines := by
  induction lines generalizing counted row with
  | nil => exact absurd rfl some
  | cons line rest ih =>
      have plainLine := plain line List.mem_cons_self
      obtain ⟨rows, col, there, fills⟩ := foldl_print positive plainLine row
      have least := fills.count_le
      cases rest with
      | nil =>
          rw [List.intercalate_singleton, foldl_count plainLine, there, GridPosition.mk.injEq]
          have ends := fills.count_and_col_eq_iff positive
          have short : Counts cols [line] ↔ line.length ≤ cols := by simp [Counts]
          rw [short, ← ends]
          constructor
          · rintro ⟨sameRow, sameCol⟩
            exact ⟨by omega, by omega, sameCol⟩
          · rintro ⟨sameRow, sameRows, sameCol⟩
            exact ⟨by omega, sameCol⟩
      | cons next rest =>
          have more : [newline].intercalate (line :: next :: rest) =
              line ++ newline :: [newline].intercalate (next :: rest) := by
            simp [List.intercalate]
          have counts : count cols newline
              ⟨counted + line.length / (cols + 1), line.length % (cols + 1)⟩ newline =
              ⟨counted + line.length / (cols + 1) + 1, 0⟩ := if_pos rfl
          have prints : print cols newline ⟨row + rows, col⟩ newline = ⟨row + rows + 1, 0⟩ :=
            if_pos rfl
          rw [more, List.foldl_append, List.foldl_append, foldl_count plainLine, there,
            List.foldl_cons, List.foldl_cons, counts, prints,
            ih nofun (fun line among => plain line (List.mem_cons_of_mem _ among)) (by omega),
            counts_cons, ← fills.count_eq_iff positive]
          constructor
          · rintro ⟨same, rest⟩
            exact ⟨by omega, by omega, rest⟩
          · rintro ⟨same, rows, rest⟩
            exact ⟨by omega, rest⟩

/-- The counter tells where the cursor is exactly when the lines are short enough. -/
theorem foldl_count_eq_cursor_iff (positive : 0 < cols) (newline : α) (units : List α) :
    units.foldl (count cols newline) ⟨0, 0⟩ = cursor cols newline units ↔
      Counts cols (units.splitOn newline) := by
  have whole : [newline].intercalate (units.splitOn newline) = units :=
    List.intercalate_splitOn newline
  have decides := foldl_count_eq_iff positive (List.splitOn_ne_nil newline units)
    (fun line among => Text.not_mem_of_mem_splitOn among) (Nat.le_refl 0)
  rw [whole] at decides
  exact decides.trans (and_iff_right rfl)

end GridPosition
end Solpg.Std
