import Solpg.Client.Utils.Terminal.Shell

/-!
# Line editing

The input and the cursor are a line in every state of the shell, and each key edits it. A
completion puts a new input in place of the whole line, which loses what is after the cursor.
-/

namespace Solpg.Client.Utils

open Solpg.Std CodeUnits Terminal

/-- The line after a key, as a plain text with a cursor is edited. A key of the history puts
an entry in place of the line. -/
def Key.edited (history : PgHistory) (line : EditLine UInt16) : Key → EditLine UInt16
  | up =>
      match history.getPrevious.1 with
      | none | some [] => line
      | some value => .ofText value
  | down => .ofText (history.getNext.1.getD [])
  | left => line.left
  | right => line.right
  | home => line.home
  | toEnd => line.toEnd
  | wordLeft => line.wordLeft isWordUnit
  | wordRight => line.wordRight isWordUnit
  | delete => line.delete
  | backspace => line.backspace
  | deleteWordLeft => line.deleteWordLeft isWordUnit
  | killToStart => line.killToStart
  | killToEnd => line.killToEnd
  | clear => {}
  | enter => if isIncompleteInput line.text then line.insert [lineFeed] else line
  | tab => line.insert (List.replicate 4 space)
  | insert data => line.insert data

/-- The line after Tab has asked for candidates. -/
def Terminal.Completion.edited (line : EditLine UInt16) : Completion → EditLine UInt16
  | addSpace => line.insert [space]
  | none => line
  | setInput newInput => .ofText newInput
  | printCandidates | askToDisplay => line.toEnd

/-- The line after a key, when there are handlers for a completion or not. -/
def Key.lineAfter (autocomplete : Autocomplete) (history : PgHistory) (line : EditLine UInt16)
    (key : Key) : EditLine UInt16 :=
  match autocomplete with
  | none => key.edited history line
  | some getCandidates =>
      if key = tab then (completionOf line.before (getCandidates line.before)).edited line
      else key.edited history line

namespace PgTty

variable {tty : PgTty} {line : EditLine UInt16}

/-- The input up to the cursor is the line before it. -/
theorem Shows.substring_cursor (shown : tty.Shows line) :
    substring tty.input 0 tty.cursor = line.before := by
  rw [shown.substring_take _ (Int.le_refl _), shown.cursor, Int.toNat_natCast, EditLine.cursor,
    List.take_length]

/-- The input from the cursor on is the line behind it. -/
theorem Shows.substring_after (shown : tty.Shows line) :
    substring tty.input tty.cursor tty.input.length = line.after := by
  have whole := shown.substring_drop 0
  rwa [Int.natCast_zero, Int.add_zero, List.drop_zero] at whole

/-- Inserting is inserting at the cursor. -/
theorem Shows.handleCursorInsert (shown : tty.Shows line) (data : CodeUnits) :
    (tty.handleCursorInsert data).Shows (line.insert data) := by
  refine shows_setCursorDirectly_setInput tty (line.insert data) ?_ ?_
  · rw [shown.substring_cursor, shown.substring_after]
    rfl
  · rw [shown.cursor, EditLine.cursor, EditLine.cursor, EditLine.insert, List.length_append,
      Int.natCast_add]

/-- A move to the left. -/
theorem Shows.handleCursorLeft (shown : tty.Shows line) :
    (tty.handleCursorMove (-1)).Shows line.left := by
  refine shown.setCursorDirectly line.left line.text_left ?_
  rw [shown.cursor, EditLine.cursor, EditLine.cursor, EditLine.left, List.length_dropLast]
  omega

/-- A move to the right. -/
theorem Shows.handleCursorRight (shown : tty.Shows line) :
    (tty.handleCursorMove 1).Shows line.right := by
  refine shown.setCursorDirectly line.right line.text_right ?_
  rw [shown.cursor, shown.text, EditLine.cursor, EditLine.cursor, EditLine.right, EditLine.text,
    List.length_append, List.length_append]
  cases line.after with
  | nil =>
      rw [List.head?_nil, Option.toList_none, List.length_nil]
      omega
  | cons unit after =>
      rw [List.head?_cons, Option.toList_some, List.length_cons, List.length_singleton]
      omega

/-- Erasing before the cursor. -/
theorem Shows.backspace (shown : tty.Shows line) :
    (tty.handleCursorErase true).Shows line.backspace := by
  rw [handleCursorErase, if_pos rfl]
  by_cases start : tty.cursor ≤ 0
  · have empty : line.before = [] := by
      rw [shown.cursor, EditLine.cursor] at start
      exact List.length_eq_zero_iff.mp (by omega)
    have same : line.backspace = line := by
      rw [EditLine.backspace, empty, List.dropLast_nil, ← empty]
    rwa [if_pos start, same]
  · have place : (tty.cursor - 1).toNat = line.before.length - 1 := by
      rw [shown.cursor, EditLine.cursor]
      omega
    rw [if_neg start]
    refine shows_setCursorDirectly_setInput tty line.backspace ?_ ?_
    · rw [shown.substring_take _ (by omega), place, shown.substring_after, ← List.dropLast_eq_take]
      rfl
    · rw [EditLine.backspace, EditLine.cursor, List.length_dropLast]
      omega

/-- Erasing behind the cursor. -/
theorem Shows.delete (shown : tty.Shows line) :
    (tty.handleCursorErase false).Shows line.delete := by
  rw [handleCursorErase, if_neg Bool.false_ne_true]
  refine shown.setInput line.delete ?_ rfl
  have after := shown.substring_drop 1
  rw [Int.natCast_one, List.drop_one] at after
  rw [shown.substring_cursor, after]
  rfl

/-- Erasing the word before the cursor. -/
theorem Shows.deleteWordLeft (shown : tty.Shows line) :
    let offset := closestLeftBoundary tty.input tty.cursor
    ((tty.setInput (substring tty.input 0 offset ++
      substring tty.input tty.cursor tty.input.length)).setCursor offset).Shows
        (line.deleteWordLeft isWordUnit) := by
  have kept := Runs.dropLast_prefix isWordUnit line.before
  have offset : closestLeftBoundary tty.input tty.cursor =
      (Runs.dropLast isWordUnit line.before).length := by
    rw [shown.text, shown.cursor, closestLeftBoundary_eq]
    rfl
  have least : ((Runs.dropLast isWordUnit line.before).length : Int) ≤ tty.cursor := by
    rw [shown.cursor]
    exact Int.ofNat_le.mpr kept.length_le
  refine shows_setInput_setCursor tty (line.deleteWordLeft isWordUnit) ?_ ?_
  · rw [offset, shown.substring_take _ least, shown.substring_after, Int.toNat_natCast,
      ← List.prefix_iff_eq_take.mp kept]
    rfl
  · rw [offset]
    rfl

/-- The cursor of an empty input is trimmed to its only place. -/
theorem Shows.setInput_nil (shown : tty.Shows line) : (tty.setInput []).Shows {} := by
  by_cases most : tty.cursor ≤ ([] : CodeUnits).length
  · rw [setInput_of_le most]
    exact ⟨rfl, Int.le_antisymm most shown.within.1⟩
  · rw [setInput_of_lt (Int.not_le.mp most)]
    exact ⟨rfl, rfl⟩

/-- Whatever input is set, the cursor is in it. -/
theorem Shows.exists_setInput (shown : tty.Shows line) (newInput : CodeUnits) :
    ∃ next, (tty.setInput newInput).Shows next := by
  rw [exists_shows_iff]
  have nonneg := shown.within.1
  by_cases most : tty.cursor ≤ newInput.length
  · rw [setInput_of_le most]
    exact ⟨nonneg, most⟩
  · rw [setInput_of_lt (Int.not_le.mp most)]
    exact ⟨Int.natCast_nonneg _, Int.le_refl _⟩

/-- The input is replaced, with the cursor at its end. -/
theorem shows_replaceInput (tty : PgTty) (newInput : CodeUnits) :
    (tty.replaceInput newInput).Shows (.ofText newInput) :=
  shows_setInput_setCursor tty _ (List.append_nil _).symm rfl

/-- Going on keeps the line. -/
theorem Shows.resume (shown : tty.Shows line) : tty.resume.Shows line := by
  have stays : (tty.setCursor tty.cursor).Shows line := shown.setCursor line rfl shown.cursor
  exact stays.setInput line stays.text rfl

end PgTty

namespace PgShell

variable {shell : PgShell} {line : EditLine UInt16} {autocomplete : Autocomplete}

/-- The end of a read leaves the terminal alone. -/
@[simp] theorem tty_handleReadComplete : shell.handleReadComplete.tty = shell.tty := by
  rw [handleReadComplete]
  split
  · rfl
  · rfl

/-- Every key but Tab edits the line as a plain text is edited. -/
theorem handleKey_shows_edited (shown : shell.tty.Shows line) {key : Key} (other : key ≠ .tab) :
    (shell.handleKey autocomplete key).tty.Shows (key.edited shell.history line) := by
  cases key with
  | up =>
      simp only [handleKey, Key.edited]
      cases shell.history.getPrevious.1 with
      | none => exact shown
      | some value =>
          cases value with
          | nil => exact shown
          | cons first rest => exact PgTty.shows_replaceInput _ _
  | down => exact PgTty.shows_replaceInput _ _
  | left => exact shown.handleCursorLeft
  | right => exact shown.handleCursorRight
  | home => exact shown.setCursor line.home line.text_home rfl
  | toEnd => exact shown.setCursor line.toEnd line.text_toEnd (by rw [shown.text]; rfl)
  | wordLeft =>
      refine shown.setCursor _ (line.text_wordLeft isWordUnit) ?_
      rw [shown.text, shown.cursor, closestLeftBoundary_eq]
      rfl
  | wordRight =>
      refine shown.setCursor _ (line.text_wordRight isWordUnit) ?_
      rw [shown.text, shown.cursor, closestRightBoundary_eq]
      rfl
  | delete => exact shown.delete
  | backspace => exact shown.backspace
  | deleteWordLeft => exact shown.deleteWordLeft
  | killToStart =>
      exact PgTty.shows_setInput_setCursor _ line.killToStart shown.substring_after rfl
  | killToEnd =>
      simp only [handleKey]
      rw [shown.substring_cursor]
      exact PgTty.shows_replaceInput _ _
  | clear => exact shown.setInput_nil
  | enter =>
      simp only [handleKey, Key.edited, ← shown.text]
      split
      · exact shown.handleCursorInsert _
      · rwa [tty_handleReadComplete]
  | tab => exact absurd rfl other
  | insert data => exact shown.handleCursorInsert data

/-- What Tab does with the candidates for the text before the cursor. -/
theorem handleTab_shows (shown : shell.tty.Shows line) (getCandidates : CodeUnits → List CodeUnits) :
    (shell.handleTab (some getCandidates)).tty.Shows
      ((completionOf line.before (getCandidates line.before)).edited line) := by
  have completed : (shell.printAndRestartPrompt).tty.Shows line.toEnd :=
    shown.setCursor line.toEnd line.text_toEnd (by rw [shown.text]; rfl)
  simp only [handleTab, shown.substring_cursor]
  cases completionOf line.before (getCandidates line.before) with
  | addSpace => exact shown.handleCursorInsert _
  | none => exact shown
  | setInput newInput => exact PgTty.shows_replaceInput _ _
  | printCandidates => exact completed.resume
  | askToDisplay => exact completed

/-! ## One piece of data -/

/-- The key of a piece of data, if the shell takes it. -/
def keyOf (shell : PgShell) (data : CodeUnits) : Option Key :=
  if ¬ shell.isPrompting ∧ data ≠ interrupt then none else Key.decode data

/-- Data is a key, or nothing. -/
theorem handleData_eq (shell : PgShell) (data : CodeUnits) :
    shell.handleData autocomplete data =
      match shell.keyOf data with
      | some key => shell.handleKey autocomplete key
      | none => shell := by
  rw [handleData, keyOf]
  split
  · rfl
  · rfl

/-- Every key leaves a line. -/
theorem handleKey_shows (autocomplete : Autocomplete) (shown : shell.tty.Shows line) (key : Key) :
    (shell.handleKey autocomplete key).tty.Shows
      (key.lineAfter autocomplete shell.history line) := by
  by_cases tab : key = .tab
  · subst tab
    cases autocomplete with
    | none => exact shown.handleCursorInsert _
    | some getCandidates =>
        simp only [Key.lineAfter, if_pos]
        exact handleTab_shows shown getCandidates
  · have other : key.lineAfter autocomplete shell.history line = key.edited shell.history line := by
      cases autocomplete with
      | none => rfl
      | some getCandidates => exact if_neg tab
    rw [other]
    exact handleKey_shows_edited shown tab

end PgShell

/-- What a key may do to the line: an edit of a plain text, or a completion that changes
nothing after the cursor. -/
def Key.Edits (autocomplete : Autocomplete) (history : PgHistory)
    (line next : EditLine UInt16) (key : Key) : Prop :=
  if key = tab ∧ autocomplete.isSome then next.text = line.text ∨ next.after = line.after
  else next = key.edited history line

namespace PgShell

/-- The input and the cursor are a line before and after a piece of data, which has edited it. -/
def Edits (autocomplete : Autocomplete) (shell : PgShell) (data : CodeUnits) : Prop :=
  ∃ line next, shell.tty.Shows line ∧ (shell.handleData autocomplete data).tty.Shows next ∧
    match shell.keyOf data with
    | some key => key.Edits autocomplete shell.history line next
    | none => next = line

/-- When a completion sets a new input, the cursor is at the end, or the input is the same. -/
def CompletesAtEnd (autocomplete : Autocomplete) (shell : PgShell) (data : CodeUnits) : Prop :=
  shell.keyOf data = some .tab → ∀ getCandidates ∈ autocomplete, ∀ newInput,
    (let inputFragment := substring shell.tty.input 0 shell.tty.cursor
     completionOf inputFragment (getCandidates inputFragment) = .setInput newInput) →
      shell.tty.cursor = shell.tty.input.length ∨ newInput = shell.tty.input

/-- A completion keeps what is after the cursor exactly when it sets no new input, or there
is nothing after the cursor. -/
theorem completion_keeps_iff (line : EditLine UInt16) (completion : Completion) :
    ((completion.edited line).text = line.text ∨ (completion.edited line).after = line.after) ↔
      ∀ newInput, completion = .setInput newInput → line.after = [] ∨ newInput = line.text := by
  cases completion with
  | addSpace => exact ⟨fun _ => nofun, fun _ => .inr rfl⟩
  | none => exact ⟨fun _ => nofun, fun _ => .inr rfl⟩
  | setInput newInput =>
      constructor
      · rintro (text | after) other same
        · obtain rfl := Completion.setInput.inj same
          exact .inr ((List.append_nil _).symm.trans text)
        · exact .inl after.symm
      · intro kept
        obtain after | same := kept newInput rfl
        · exact .inr after.symm
        · exact .inl ((List.append_nil _).trans same)
  | printCandidates => exact ⟨fun _ => nofun, fun _ => .inl line.text_toEnd⟩
  | askToDisplay => exact ⟨fun _ => nofun, fun _ => .inl line.text_toEnd⟩

variable {shell : PgShell} {line : EditLine UInt16} {autocomplete : Autocomplete}

/-- A key edits the line exactly when it is no completion that loses a text. -/
theorem lineAfter_edits_iff (autocomplete : Autocomplete) (history : PgHistory)
    (line : EditLine UInt16) (key : Key) :
    key.Edits autocomplete history line (key.lineAfter autocomplete history line) ↔
      (key = .tab → ∀ getCandidates ∈ autocomplete, ∀ newInput,
        completionOf line.before (getCandidates line.before) = .setInput newInput →
          line.after = [] ∨ newInput = line.text) := by
  rw [Key.Edits]
  cases autocomplete with
  | none => simp [Key.lineAfter]
  | some getCandidates =>
      by_cases tab : key = .tab
      · simp only [tab, Option.isSome_some, and_self, if_true, Key.lineAfter, forall_const,
          Option.mem_some_iff, forall_eq']
        exact completion_keeps_iff line _
      · simp [tab, Key.lineAfter]

/-- A piece of data edits the line exactly when it is no completion that loses a text. -/
theorem edits_iff (shown : shell.tty.Shows line) (data : CodeUnits) :
    shell.Edits autocomplete data ↔ shell.CompletesAtEnd autocomplete data := by
  rw [Edits, CompletesAtEnd, shown.substring_cursor, handleData_eq]
  cases shell.keyOf data with
  | none => exact ⟨fun _ => nofun, fun _ => ⟨line, line, shown, shown, rfl⟩⟩
  | some key =>
      have after := handleKey_shows autocomplete shown key
      have decides := lineAfter_edits_iff autocomplete shell.history line key
      simp only [shown.nil_iff_end, ← shown.text] at decides
      simp only [Option.some.injEq]
      rw [← decides]
      constructor
      · rintro ⟨other, next, same, leaves, edits⟩
        obtain rfl := same.unique shown
        obtain rfl := leaves.unique after
        exact edits
      · intro edits
        exact ⟨line, _, shown, after, edits⟩

/-- Whatever the data, a line is shown. -/
theorem handleData_shows (autocomplete : Autocomplete) (shown : shell.tty.Shows line)
    (data : CodeUnits) : ∃ next, (shell.handleData autocomplete data).tty.Shows next := by
  rw [handleData_eq]
  cases shell.keyOf data with
  | none => exact ⟨line, shown⟩
  | some key => exact ⟨_, handleKey_shows autocomplete shown key⟩

/-! ## Runs -/

/-- The shell handles pieces of data one after another. -/
def handling (autocomplete : Autocomplete) : Machine PgShell CodeUnits where
  Initial _ := True
  next shell data := some (shell.handleData autocomplete data)

/-- All pieces are handled one after the other. -/
theorem run_handling (autocomplete : Autocomplete) (shell : PgShell) (pieces : List CodeUnits) :
    (handling autocomplete).run shell pieces =
      some (pieces.foldl (handleData autocomplete) shell) := by
  induction pieces generalizing shell with
  | nil => rfl
  | cons piece rest ih => exact ih _

/-- Handling keeps a line shown. -/
theorem handling_preserves {autocomplete : Autocomplete} {next : PgShell} {data : CodeUnits}
    (shown : ∃ line, shell.tty.Shows line)
    (handled : (handling autocomplete).next shell data = some next) :
    ∃ line, next.tty.Shows line := by
  obtain ⟨line, shown⟩ := shown
  obtain rfl := Option.some.inj handled
  exact handleData_shows autocomplete shown data

/-- The shell with its events. -/
def machine : Machine PgShell ShellEvent where
  Initial shell := ∃ size, shell = { history := { size } }
  next shell event := some (shell.next event)

/-- Each piece of data that the shell handles meets a condition. -/
def EachPiece (guard : Autocomplete → PgShell → CodeUnits → Prop) (shell : PgShell) :
    ShellEvent → Prop
  | .termData data autocomplete hasLine =>
      ∀ ready ∈ shell.receive hasLine data, ready.activeCharPrompt = false →
        (handling autocomplete).Meets (guard autocomplete) ready (pieces data)
  | _ => True

/-- What the shell receives keeps a line shown. -/
theorem exists_shows_receive (shown : shell.tty.Shows line) {hasLine : Bool} {data : CodeUnits}
    {ready : PgShell} (received : ready ∈ shell.receive hasLine data) :
    ready.tty.Shows line := by
  rw [receive] at received
  split at received
  next => contradiction
  next =>
    split at received
    next =>
      split at received
      next =>
        obtain rfl := Option.some.inj received
        exact shown
      next => contradiction
    next =>
      obtain rfl := Option.some.inj received
      exact shown

/-- All data together keeps a line shown. -/
theorem exists_shows_handleTermData (shown : ∃ line, shell.tty.Shows line)
    (autocomplete : Autocomplete) (hasLine : Bool) (data : CodeUnits) :
    ∃ line, (shell.handleTermData autocomplete hasLine data).tty.Shows line := by
  obtain ⟨line, shown⟩ := shown
  rw [handleTermData]
  cases received : shell.receive hasLine data with
  | none => exact ⟨line, shown⟩
  | some ready =>
      have readyShown := exists_shows_receive shown received
      simp only
      split
      next => exact ⟨line, readyShown⟩
      next =>
        exact Machine.run_preserves (fun shell : PgShell => ∃ line, shell.tty.Shows line)
          handling_preserves ⟨line, readyShown⟩ (run_handling autocomplete ready _)

/-- The cursor is within the input after each event. -/
theorem exists_shows_next (shown : ∃ line, shell.tty.Shows line) (event : ShellEvent) :
    ∃ line, (shell.next event).tty.Shows line := by
  cases event with
  | termData data autocomplete hasLine =>
      exact exists_shows_handleTermData shown autocomplete hasLine data
  | prompt inputStartsWithPrompt =>
      simp only [next, prompt]
      split
      · exact shown
      · exact ⟨{}, rfl, rfl⟩
  | print =>
      obtain ⟨line, shown⟩ := shown
      simp only [next]
      split
      · exact ⟨line.toEnd, shown.setCursor line.toEnd line.text_toEnd (by rw [shown.text]; rfl)⟩
      · exact ⟨line, shown⟩
  | resume =>
      obtain ⟨line, shown⟩ := shown
      exact ⟨line, shown.resume⟩
  | resize =>
      obtain ⟨line, shown⟩ := shown
      exact ⟨line, shown.setInput line shown.text rfl⟩
  | executeFromStr cmd =>
      obtain ⟨line, shown⟩ := shown
      rw [next, tty_handleReadComplete]
      exact shown.exists_setInput cmd
  | pushHistory => exact shown
  | waitForInput => exact shown
  | disable => exact shown
  | enable => exact shown

/-- Every piece edits the line when completions are at its end. -/
theorem eachPiece_edits_iff (shown : ∃ line, shell.tty.Shows line) {event : ShellEvent} :
    EachPiece Edits shell event ↔ EachPiece CompletesAtEnd shell event := by
  cases event with
  | termData data autocomplete hasLine =>
      obtain ⟨line, shown⟩ := shown
      refine forall_congr' fun ready => forall_congr' fun received => imp_congr_right fun _ => ?_
      refine Machine.meets_congr (fun shell : PgShell => ∃ line, shell.tty.Shows line)
        handling_preserves ?_ _ ⟨line, exists_shows_receive shown received⟩
      rintro shell data ⟨line, shown⟩
      exact edits_iff shown data
  | _ => rfl

/-- Along a run, the cursor is within the input after each event, and each piece of data
edits the line, exactly when each completion that sets a new input is made with the cursor at
the end of the old one. -/
theorem edits_iff_completes_at_end (size : Nat) (events : List ShellEvent) :
    (machine.Throughout (fun shell => shell.tty.CursorWithin) { history := { size } } events ∧
      machine.Meets (EachPiece Edits) { history := { size } } events) ↔
      machine.Meets (EachPiece CompletesAtEnd) { history := { size } } events := by
  have initial : ∃ line, ({ history := { size } } : PgShell).tty.Shows line := ⟨{}, rfl, rfl⟩
  have preserved : ∀ {shell event after}, (∃ line, shell.tty.Shows line) →
      machine.next shell event = some after → ∃ line, after.tty.Shows line := by
    intro shell event after shown stepped
    obtain rfl := Option.some.inj stepped
    exact exists_shows_next shown event
  have within : machine.Throughout (fun shell => ∃ line, shell.tty.Shows line)
      { history := { size } } events :=
    Machine.throughout_of_preserved _ preserved events initial
  have agree : machine.Meets (EachPiece Edits) { history := { size } } events ↔
      machine.Meets (EachPiece CompletesAtEnd) { history := { size } } events :=
    Machine.meets_congr _ preserved (fun shown => eachPiece_edits_iff shown) events initial
  constructor
  · rintro ⟨-, edits⟩
    exact agree.mp edits
  · intro ends
    exact ⟨within.mono fun shell => PgTty.exists_shows_iff.mp, agree.mpr ends⟩

/-- With the cursor after `bu` of `bu x`, the completion to `build` loses ` x`. -/
theorem completion_loses_text_after_cursor :
    ¬ ∀ events, machine.Throughout (fun shell => shell.tty.CursorWithin)
        { history := { size := 20 } } events ∧
      machine.Meets (EachPiece Edits) { history := { size := 20 } } events := by
  intro all
  have edits := (all [.termData (ofText ['b', 'u', ' ', 'x']) none true,
    .termData [0x02] none true, .termData [0x02] none true,
    .termData [0x09] (some fun _ => [ofText ['b', 'u', 'i', 'l', 'd']]) true]).2
  have last := ((edits.2 _ rfl).2 _ rfl).2 _ rfl
  obtain ⟨⟨line, next, shown, after, kept⟩, -⟩ := last.1 _ rfl rfl
  obtain text | rest := kept
  · exact absurd (after.text.trans (text.trans shown.text.symm)) (by decide)
  · have ends : next.after = [] := after.nil_iff_end.mpr (by decide)
    exact absurd (shown.nil_iff_end.mp (rest.symm.trans ends)) (by decide)

end PgShell
end Solpg.Client.Utils
