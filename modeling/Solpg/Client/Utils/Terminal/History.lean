import Solpg.Std.CodeUnits
import Solpg.Std.Recent

/-!
# The history of the terminal

`PgHistory` keeps the entries with the newest last, and a cursor that walks over them.
After any calls the entries are the newest of the accepted inputs, each where it was
pushed last.
-/

namespace Solpg.Client.Utils

open Solpg.Std

structure PgHistory where
  /-- Maximum allowed size -/
  size : Nat
  /-- Cursor index -/
  cursor : Nat := 0
  /-- All history entries -/
  entries : List CodeUnits := []
  deriving DecidableEq, Repr

namespace PgHistory

/-- The inputs that `push` does not skip: the special last command and empty ones. -/
def Accepts (entry : CodeUnits) : Prop := entry ≠ [] ∧ entry ≠ CodeUnits.ofText ['!', '!']

instance : DecidablePred Accepts := fun _ => inferInstanceAs (Decidable (_ ∧ _))

/-- The entries without the one that is pushed again, unless it is the last one. -/
def withoutDuplicate (entries : List CodeUnits) (entry : CodeUnits) : List CodeUnits :=
  match entries.idxOf? entry with
  | none => entries
  | some entryIndex =>
      let isEntryLastIndex := entryIndex = entries.length - 1
      entries.take entryIndex ++ entries.drop (if isEntryLastIndex then entryIndex else entryIndex + 1)

/-- Push an entry while maintaining the `size` limit. -/
def push (history : PgHistory) (entry : CodeUnits) : PgHistory :=
  if Accepts entry then
    let others := withoutDuplicate history.entries entry
    let pushed := if others.getLast? = some entry then others else others ++ [entry]
    let entries := if history.size < pushed.length then pushed.drop 1 else pushed
    { history with entries, cursor := entries.length }
  else history

/-- Set the cursor to the previous entry if it exists. -/
def getPrevious (history : PgHistory) : Option CodeUnits × PgHistory :=
  let index := history.cursor - 1
  (history.entries[index]?, { history with cursor := index })

/-- Set the cursor to the next entry if it exists. -/
def getNext (history : PgHistory) : Option CodeUnits × PgHistory :=
  let index := min history.entries.length (history.cursor + 1)
  (history.entries[index]?, { history with cursor := index })

inductive HistoryCall where
  | push (entry : CodeUnits)
  | getPrevious
  | getNext
  deriving DecidableEq, Repr

def call (history : PgHistory) : HistoryCall → PgHistory
  | .push entry => history.push entry
  | .getPrevious => history.getPrevious.2
  | .getNext => history.getNext.2

/-- The inputs that the calls push and that are accepted. -/
def accepted (calls : List HistoryCall) : List CodeUnits :=
  calls.filterMap fun
    | .push entry => if Accepts entry then some entry else none
    | _ => none

theorem accepted_concat (calls : List HistoryCall) (next : HistoryCall) :
    accepted (calls ++ [next]) = accepted calls ++ accepted [next] := by
  rw [accepted, List.filterMap_append]
  rfl

section

variable {history : PgHistory} {inputs : List CodeUnits} {entry : CodeUnits}

/-- An entry that was there moves to the end, and a new one comes there. -/
theorem moved_eq (distinct : history.entries.Nodup) (entry : CodeUnits) :
    (let others := withoutDuplicate history.entries entry
     if others.getLast? = some entry then others else others ++ [entry]) =
      history.entries.erase entry ++ [entry] := by
  by_cases member : entry ∈ history.entries
  · obtain ⟨before, after, parts, earlier⟩ := List.eq_append_cons_of_mem member
    have found : history.entries.idxOf? entry = some before.length := by
      rw [parts]
      exact Recent.idxOf?_append_cons earlier
    have erased : history.entries.erase entry = before ++ after := by
      rw [parts, List.erase_append_right _ earlier, List.erase_cons_head]
    rw [withoutDuplicate, found, erased, parts]
    rw [parts] at distinct
    cases after with
    | nil =>
        -- the entry was the last one, and stays
        simp
    | cons later rest =>
        have moves : before.length ≠ (before ++ entry :: later :: rest).length - 1 := by
          simp
        have other : (before ++ later :: rest).getLast? ≠ some entry := by
          intro last
          have among := List.mem_of_getLast? last
          exact (List.nodup_middle.mp distinct).notMem among
        have skipped : (before ++ entry :: later :: rest).drop (before.length + 1) =
            later :: rest := by
          rw [List.drop_length_add_append]
          rfl
        simp only [if_neg moves, List.take_left, skipped, if_neg other]
  · have absent : history.entries.idxOf? entry = none := List.idxOf?_eq_none_iff.mpr member
    have other : history.entries.getLast? ≠ some entry :=
      fun last => member (List.mem_of_getLast? last)
    simp only [withoutDuplicate, absent, if_neg other, List.erase_of_not_mem member]

/-- What the history is after the inputs have been accepted: it keeps the newest ones. -/
structure Keeps (size : Nat) (inputs : List CodeUnits) (history : PgHistory) : Prop where
  size_eq : history.size = size
  entries_eq : history.entries = inputs.dedup.rtake size
  cursor_le : history.cursor ≤ history.entries.length

variable {size : Nat}

theorem Keeps.distinct (keeps : Keeps size inputs history) : history.entries.Nodup := by
  rw [keeps.entries_eq]
  exact (List.nodup_dedup inputs).sublist (List.drop_sublist _ _)

theorem Keeps.length_le (keeps : Keeps size inputs history) : history.entries.length ≤ size := by
  rw [keeps.entries_eq, List.rtake, List.length_drop]
  omega

theorem Keeps.push (keeps : Keeps size inputs history) (accepts : Accepts entry) :
    Keeps size (inputs ++ [entry]) (history.push entry) := by
  have pushed : (history.push entry).entries =
      (history.entries.erase entry ++ [entry]).rtake size := by
    have moved := moved_eq keeps.distinct entry
    have room : (history.entries.erase entry ++ [entry]).length ≤ size + 1 := by
      have others := List.length_erase_le (a := entry) (l := history.entries)
      have kept := keeps.length_le
      rw [List.length_append, List.length_singleton]
      omega
    simp only at moved
    simp only [PgHistory.push, if_pos accepts, moved, keeps.size_eq, List.rtake]
    split
    next full => rw [show (history.entries.erase entry ++ [entry]).length - size = 1 by omega]
    next => rw [Nat.sub_eq_zero_of_le (by omega), List.drop_zero]
  refine ⟨?_, ?_, ?_⟩
  · simp only [PgHistory.push, if_pos accepts, keeps.size_eq]
  · rw [pushed, Recent.dedup_concat, keeps.entries_eq]
    cases size with
    | zero => rw [List.rtake_zero, List.rtake_zero]
    | succ kept =>
        rw [List.rtake_concat_succ, List.rtake_concat_succ,
          Recent.rtake_erase_rtake (List.nodup_dedup inputs)]
  · simp only [PgHistory.push, if_pos accepts]
    exact Nat.le_refl _

/-- One call keeps the history as it has to be. -/
theorem Keeps.call (keeps : Keeps size inputs history) (next : HistoryCall) :
    Keeps size (inputs ++ accepted [next]) (history.call next) := by
  cases next with
  | push entry =>
      by_cases accepts : Accepts entry
      · have recorded : accepted [.push entry] = [entry] := by simp [accepted, accepts]
        rw [recorded]
        exact keeps.push accepts
      · have recorded : accepted [.push entry] = [] := by simp [accepted, accepts]
        rw [recorded, List.append_nil]
        have skipped : history.call (.push entry) = history := by
          simp only [PgHistory.call, PgHistory.push, if_neg accepts]
        rwa [skipped]
  | getPrevious =>
      rw [show accepted [.getPrevious] = [] from rfl, List.append_nil]
      refine ⟨keeps.size_eq, keeps.entries_eq, ?_⟩
      exact Nat.le_trans (Nat.sub_le _ _) keeps.cursor_le
  | getNext =>
      rw [show accepted [.getNext] = [] from rfl, List.append_nil]
      exact ⟨keeps.size_eq, keeps.entries_eq, Nat.min_le_left _ _⟩

/-- After any calls the history keeps the newest of the accepted inputs. -/
theorem keeps_calls (size : Nat) (calls : List HistoryCall) :
    Keeps size (accepted calls) (calls.foldl call { size }) := by
  induction calls using List.reverseRecOn with
  | nil => exact ⟨rfl, by simp [accepted], Nat.le_refl _⟩
  | append_singleton earlier next ih =>
      rw [List.foldl_append, accepted_concat]
      exact ih.call next

/-- The history with another cursor. -/
def withCursor (history : PgHistory) (cursor : Nat) : PgHistory := { history with cursor }

/-- Steps back lead as far back, and not beyond the oldest entry. -/
theorem getPrevious_iterate (history : PgHistory) (steps : Nat) :
    (fun state => (getPrevious state).2)^[steps] history = history.withCursor (history.cursor - steps) := by
  induction steps with
  | zero => rfl
  | succ steps ih =>
      rw [Function.iterate_succ_apply', ih]
      simp only [getPrevious, withCursor, Nat.sub_sub]

/-- Steps forth lead as far forth, and not beyond the place after the newest entry. -/
theorem getNext_iterate (inside : history.cursor ≤ history.entries.length) (steps : Nat) :
    (fun state => (getNext state).2)^[steps] history =
      history.withCursor (min history.entries.length (history.cursor + steps)) := by
  induction steps with
  | zero => rw [Function.iterate_zero_apply, Nat.add_zero, Nat.min_eq_right inside, withCursor]
  | succ steps ih =>
      rw [Function.iterate_succ_apply', ih]
      have next : min history.entries.length (min history.entries.length (history.cursor + steps) + 1) =
          min history.entries.length (history.cursor + (steps + 1)) := by omega
      simp only [getNext, withCursor, next]

/-- As many steps forth as back. -/
theorem getNext_iterate_getPrevious_iterate {steps : Nat} (enough : steps ≤ history.cursor)
    (inside : history.cursor ≤ history.entries.length) :
    (fun state => (getNext state).2)^[steps] ((fun state => (getPrevious state).2)^[steps] history) =
      history := by
  have back : (history.withCursor (history.cursor - steps)).cursor ≤
      (history.withCursor (history.cursor - steps)).entries.length := Nat.le_trans (Nat.sub_le _ _) inside
  have there : history.cursor - steps + steps = history.cursor := Nat.sub_add_cancel enough
  rw [getPrevious_iterate, getNext_iterate back]
  simp only [withCursor, there, Nat.min_eq_right inside]

/-- After any calls the entries are the newest `size` of the distinct accepted inputs, in
the order of their last push, and the cursor is among them or after the last one. Steps back
and forth move it by one and give the entry that it comes to, and any steps back that it has
room for are undone by as many forth. -/
theorem entries_newest_and_cursor_returns (size : Nat) (calls : List HistoryCall) :
    let history := calls.foldl call { size }
    let back (steps : Nat) := (fun state => (getPrevious state).2)^[steps]
    let forth (steps : Nat) := (fun state => (getNext state).2)^[steps]
    history.entries = (accepted calls).dedup.rtake size ∧
      history.cursor ≤ history.entries.length ∧
      (∀ steps ≤ history.cursor, forth steps (back steps history) = history) ∧
      ∀ steps,
        (back steps history = { history with cursor := history.cursor - steps } ∧
          (back steps history).getPrevious.1 = history.entries[history.cursor - (steps + 1)]?) ∧
        forth steps history =
            { history with cursor := min history.entries.length (history.cursor + steps) } ∧
          (forth steps history).getNext.1 =
            history.entries[min history.entries.length (history.cursor + (steps + 1))]? := by
  intro history back forth
  have keeps := keeps_calls size calls
  have led (steps : Nat) : back steps history = history.withCursor (history.cursor - steps) :=
    getPrevious_iterate history steps
  have ledForth (steps : Nat) : forth steps history =
      history.withCursor (min history.entries.length (history.cursor + steps)) :=
    getNext_iterate keeps.cursor_le steps
  refine ⟨keeps.entries_eq, keeps.cursor_le,
    fun _ enough => getNext_iterate_getPrevious_iterate enough keeps.cursor_le, fun steps =>
      ⟨⟨led steps, ?_⟩, ledForth steps, ?_⟩⟩
  · rw [led]
    simp only [getPrevious, withCursor, Nat.sub_sub]
  · have next : min history.entries.length (min history.entries.length (history.cursor + steps) + 1) =
        min history.entries.length (history.cursor + (steps + 1)) := by omega
    rw [ledForth]
    simp only [getNext, withCursor, next]

/-- The first command is pushed again and the second one has fallen out. -/
theorem entries_newest_and_cursor_returns_three :
    let history := [HistoryCall.push (CodeUnits.ofText ['l', 's']),
      .push (CodeUnits.ofText ['r', 'm']), .push (CodeUnits.ofText ['c', 'd']),
      .push (CodeUnits.ofText ['l', 's'])].foldl call { size := 2 }
    history.entries = [CodeUnits.ofText ['c', 'd'], CodeUnits.ofText ['l', 's']] ∧
      (fun state => (getNext state).2)^[2]
        ((fun state => (getPrevious state).2)^[2] history) = history := by
  have holds := entries_newest_and_cursor_returns 2
    [.push (CodeUnits.ofText ['l', 's']), .push (CodeUnits.ofText ['r', 'm']),
      .push (CodeUnits.ofText ['c', 'd']), .push (CodeUnits.ofText ['l', 's'])]
  exact ⟨holds.1, holds.2.2.1 2 (by decide)⟩

end

end PgHistory
end Solpg.Client.Utils
