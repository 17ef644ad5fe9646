import Solpg.Std.CodeUnits
import Solpg.Std.EditLine

/-!
# The input and the cursor of the terminal

`PgTty` keeps the input and the cursor in two fields with setters of their own: one of them
trims the cursor to a new input, one brings a new cursor into the input, and one takes any
cursor. What they write to the terminal is not part of the model.
-/

namespace Solpg.Client.Utils

open Solpg.Std

structure PgTty where
  /-- Whether it is the initial read -/
  firstInit : Bool := true
  /-- Current cursor position -/
  cursor : Int := 0
  /-- Current input in the terminal -/
  input : CodeUnits := []
  deriving DecidableEq, Repr

namespace PgTty

/-- Replace input with the given input, and trim cursor overflow. -/
def setInput (tty : PgTty) (newInput : CodeUnits) : PgTty :=
  let cursor := if tty.cursor > newInput.length then (newInput.length : Int) else tty.cursor
  { tty with cursor, input := newInput }

/-- Set the direct cursor value. Should only be used in keystroke contexts. -/
def setCursorDirectly (tty : PgTty) (newCursor : Int) : PgTty :=
  { tty with cursor := newCursor }

/-- Set the new cursor position, as an offset on the input string. -/
def setCursor (tty : PgTty) (newCursor : Int) : PgTty :=
  let newCursor := if newCursor < 0 then 0 else newCursor
  let newCursor := if newCursor > tty.input.length then (tty.input.length : Int) else newCursor
  tty.setCursorDirectly newCursor

def setFirstInit (tty : PgTty) (value : Bool) : PgTty := { tty with firstInit := value }

/-- The input and the cursor with which the user begins to type a line. -/
def read (tty : PgTty) : PgTty := { tty with firstInit := true, input := [], cursor := 0 }

/-! ## The line that is edited -/

/-- The cursor is within [0, input length]. -/
def CursorWithin (tty : PgTty) : Prop := EditLine.Within tty.input tty.cursor

instance (tty : PgTty) : Decidable tty.CursorWithin :=
  inferInstanceAs (Decidable (EditLine.Within _ _))

/-- The input and the cursor are a line. -/
def Shows (tty : PgTty) (line : EditLine UInt16) : Prop := EditLine.Shows tty.input tty.cursor line

variable {tty : PgTty} {line : EditLine UInt16} {newInput : CodeUnits} {newCursor : Int}

theorem exists_shows_iff : (∃ line, tty.Shows line) ↔ tty.CursorWithin :=
  EditLine.exists_shows_iff

theorem setInput_of_le (most : tty.cursor ≤ newInput.length) :
    tty.setInput newInput = { tty with input := newInput } := by
  simp only [setInput, if_neg (Int.not_lt.mpr most)]

theorem setInput_of_lt (beyond : newInput.length < tty.cursor) :
    tty.setInput newInput = { tty with input := newInput, cursor := newInput.length } := by
  simp only [setInput, if_pos beyond]

theorem setCursor_of_within (within : EditLine.Within tty.input newCursor) :
    tty.setCursor newCursor = tty.setCursorDirectly newCursor := by
  simp only [setCursor, if_neg (Int.not_lt.mpr within.1), if_neg (Int.not_lt.mpr within.2)]

@[simp] theorem input_setInput : (tty.setInput newInput).input = newInput := rfl

/-- A cursor in the input may be set alone, also directly. -/
theorem Shows.setCursorDirectly (shown : tty.Shows line) (next : EditLine UInt16)
    (text : next.text = line.text) (cursor : newCursor = next.cursor) :
    (tty.setCursorDirectly newCursor).Shows next :=
  ⟨shown.text.trans text.symm, cursor⟩

theorem Shows.setCursor (shown : tty.Shows line) (next : EditLine UInt16)
    (text : next.text = line.text) (cursor : newCursor = next.cursor) :
    (tty.setCursor newCursor).Shows next := by
  have direct : (tty.setCursorDirectly newCursor).Shows next :=
    shown.setCursorDirectly next text cursor
  have within : EditLine.Within tty.input newCursor := direct.within
  rwa [setCursor_of_within within]

/-- The cursor is set in a new input, whatever it was before. -/
theorem shows_setInput_setCursor (tty : PgTty) (line : EditLine UInt16)
    (input : newInput = line.text) (cursor : newCursor = line.cursor) :
    ((tty.setInput newInput).setCursor newCursor).Shows line := by
  have within : EditLine.Within newInput newCursor := by
    rw [input, cursor]
    exact (EditLine.shows_text line).within
  rw [setCursor_of_within within]
  exact ⟨input, cursor⟩

/-- A cursor that was set directly fits the input that is set after it. -/
theorem shows_setCursorDirectly_setInput (tty : PgTty) (line : EditLine UInt16)
    (input : newInput = line.text) (cursor : newCursor = line.cursor) :
    ((tty.setCursorDirectly newCursor).setInput newInput).Shows line := by
  have least := line.cursor_le_length
  have most : (tty.setCursorDirectly newCursor).cursor ≤ newInput.length := by
    rw [input]
    exact cursor.trans_le (Int.ofNat_le.mpr least)
  rw [setInput_of_le most]
  exact ⟨input, cursor⟩

/-- The cursor stays where it was when the new input is long enough. -/
theorem Shows.setInput (shown : tty.Shows line) (next : EditLine UInt16)
    (input : newInput = next.text) (cursor : line.cursor = next.cursor) :
    (tty.setInput newInput).Shows next := by
  have same : tty = tty.setCursorDirectly line.cursor := by
    rw [← shown.cursor]
    rfl
  rw [same]
  exact shows_setCursorDirectly_setInput tty next input (congrArg _ cursor)

/-- The input up to an offset before the cursor. -/
theorem Shows.substring_take (shown : tty.Shows line) (offset : Int)
    (before : offset ≤ tty.cursor) :
    CodeUnits.substring tty.input 0 offset = line.before.take offset.toNat := by
  have least := line.cursor_le_length
  rw [shown.cursor, EditLine.cursor] at before
  have within : offset.toNat ≤ line.before.length := by omega
  rw [EditLine.cursor] at least
  rw [shown.text, CodeUnits.substring]
  simp only [Int.toNat_zero, Nat.zero_min, Nat.zero_max, List.drop_zero,
    Nat.min_eq_left (within.trans least)]
  rw [EditLine.text, List.take_append_of_le_length within]

/-- The input from an offset after the cursor on. -/
theorem Shows.substring_drop (shown : tty.Shows line) (skipped : Nat) :
    CodeUnits.substring tty.input (tty.cursor + skipped) tty.input.length =
      line.after.drop skipped := by
  have place : (tty.cursor + skipped).toNat = line.before.length + skipped := by
    rw [shown.cursor, EditLine.cursor]
    omega
  have whole : line.text.take line.text.length = line.text := List.take_length
  rw [CodeUnits.substring, place, shown.text]
  simp only [Int.toNat_natCast, Nat.min_self, Nat.max_eq_right (Nat.min_le_right _ _),
    Nat.min_eq_left (Nat.min_le_right _ _), whole]
  obtain less | more := Nat.le_total (line.before.length + skipped) line.text.length
  · rw [Nat.min_eq_left less, EditLine.text, List.drop_length_add_append]
  · have beyond : line.after.length ≤ skipped := by
      rw [EditLine.text, List.length_append] at more
      omega
    rw [Nat.min_eq_right more, List.drop_length, List.drop_eq_nil_of_le beyond]

end PgTty
end Solpg.Client.Utils
