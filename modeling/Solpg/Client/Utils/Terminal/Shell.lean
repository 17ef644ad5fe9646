import Solpg.Client.Utils.Terminal.Completion
import Solpg.Client.Utils.Terminal.History
import Solpg.Client.Utils.Terminal.Input
import Solpg.Client.Utils.Terminal.Tty
import Solpg.Std.Machine

/-!
# The shell of the terminal

`PgShell` decodes what the terminal sends to it, a key or a text that is pasted, and edits
the input with it. Between two pieces of data commands start and end, other parts of the
program print, and the history is written.
-/

namespace Solpg.Client.Utils

open Solpg.Std CodeUnits Terminal

structure PgShell where
  tty : PgTty := {}
  history : PgHistory
  waitingForInput : Bool := false
  processCount : Nat := 0
  /-- Whether a line is being read. -/
  activePrompt : Bool := false
  /-- Whether a character is being read. Nothing sets it. -/
  activeCharPrompt : Bool := false
  /-- The commands that have been executed, the last one first. -/
  executed : List (List CodeUnits) := []
  deriving DecidableEq, Repr

/-- The keys that the shell tells apart, and data that is typed. -/
inductive Key where
  | up
  | down
  | left
  | right
  | home
  | toEnd
  | wordLeft
  | wordRight
  | delete
  | backspace
  | deleteWordLeft
  | killToStart
  | killToEnd
  | clear
  | enter
  | tab
  | insert (data : CodeUnits)
  deriving DecidableEq, Repr

namespace Key

/-- ANSI escape sequences, without the escape -/
def escapeSequences : List (CodeUnits × Key) :=
  [(ofText ['[', 'A'], up),
    (ofText ['[', 'B'], down),
    (ofText ['[', 'D'], left),
    (ofText ['[', 'C'], right),
    (ofText ['[', '3', '~'], delete),
    (ofText ['[', 'F'], toEnd),
    (ofText ['[', 'H'], home),
    (ofText ['b'], wordLeft),
    (ofText ['f'], wordRight),
    ([0x7f], deleteWordLeft)]

/-- Special characters -/
def specialCharacters : List (CodeUnits × Key) :=
  [([0x0d], enter),
    ([0x7f], backspace),
    ([0x08], backspace),
    ([0x04], backspace),
    ([0x09], tab),
    ([0x01], home),
    ([0x02], left),
    ([0x05], toEnd),
    ([0x06], right),
    ([0x07], clear),
    ([0x0b], killToEnd),
    ([0x0e], down),
    ([0x10], up),
    ([0x15], killToStart)]

/-- What a single piece of information from the terminal stands for. -/
def decode : CodeUnits → Option Key
  | [] => some (insert [])
  | ord :: rest =>
      if ord = 0x1b then escapeSequences.lookup rest
      else if ord < 32 ∨ ord = 0x7f then specialCharacters.lookup (ord :: rest)
      else some (insert (ord :: rest))

end Key

/-- The candidates for an input, when there are handlers for it. -/
abbrev Autocomplete := Option (CodeUnits → List CodeUnits)

namespace PgTty

/-- Move cursor at given direction. -/
def handleCursorMove (tty : PgTty) (dir : Int) : PgTty :=
  if dir > 0 then tty.setCursorDirectly (tty.cursor + min dir (tty.input.length - tty.cursor))
  else if dir < 0 then tty.setCursorDirectly (tty.cursor + max dir (-tty.cursor))
  else tty

/-- Insert character at cursor location. -/
def handleCursorInsert (tty : PgTty) (data : CodeUnits) : PgTty :=
  let newInput := substring tty.input 0 tty.cursor ++ data ++
    substring tty.input tty.cursor tty.input.length
  (tty.setCursorDirectly (tty.cursor + data.length)).setInput newInput

/-- Erase a character at cursor location. -/
def handleCursorErase (tty : PgTty) (backspace : Bool) : PgTty :=
  if backspace then
    if tty.cursor ≤ 0 then tty
    else
      let newInput := substring tty.input 0 (tty.cursor - 1) ++
        substring tty.input tty.cursor tty.input.length
      (tty.setCursorDirectly (tty.cursor - 1)).setInput newInput
  else
    tty.setInput (substring tty.input 0 tty.cursor ++
      substring tty.input (tty.cursor + 1) tty.input.length)

/-- The cursor goes to the end of a new input. -/
def replaceInput (tty : PgTty) (newInput : CodeUnits) : PgTty :=
  (tty.setInput newInput).setCursor newInput.length

/-- The prompt is shown again. -/
def resume (tty : PgTty) : PgTty :=
  let tty := tty.setCursor tty.cursor
  tty.setInput tty.input

end PgTty

namespace PgShell

/-- Get whether the shell is active, and the user can type. -/
def isPrompting (shell : PgShell) : Bool := shell.processCount = 0 ∨ shell.waitingForInput

def special : CodeUnits := ofText ['!', '!']

/-- The tokens of a command, in which the last command stands for `!!`. An entry of an array
that was never set is not visited. -/
def expandTokens (history : PgHistory) : List (Option CodeUnits) → List CodeUnits × PgHistory
  | [] => ([], history)
  | none :: rest => expandTokens history rest
  | some token :: rest =>
      if token = special then
        let (previous, history) := history.getPrevious
        let (others, history) := expandTokens history rest
        ((parse (previous.getD [])).reduceOption ++ others, history)
      else
        let (others, history) := expandTokens history rest
        (token :: others, history)

/-- Handle input completion. -/
def handleReadComplete (shell : PgShell) : PgShell :=
  let shell := { shell with activePrompt := false }
  if shell.waitingForInput then { shell with waitingForInput := false }
  else
    let (parsedInput, history) := expandTokens shell.history (parse shell.tty.input)
    { shell with history, executed := parsedInput :: shell.executed }

/-- Complete the current input; what the callback prints comes after it. -/
def printAndRestartPrompt (shell : PgShell) : PgShell :=
  { shell with tty := shell.tty.setCursor shell.tty.input.length }

def handleTab (autocomplete : Autocomplete) (shell : PgShell) : PgShell :=
  match autocomplete with
  | none => { shell with tty := shell.tty.handleCursorInsert (List.replicate 4 space) }
  | some getCandidates =>
      let inputFragment := substring shell.tty.input 0 shell.tty.cursor
      match completionOf inputFragment (getCandidates inputFragment) with
      | .addSpace => { shell with tty := shell.tty.handleCursorInsert [space] }
      | .none => shell
      | .setInput newInput => { shell with tty := shell.tty.replaceInput newInput }
      | .printCandidates =>
          let shell := shell.printAndRestartPrompt
          { shell with tty := shell.tty.resume }
      -- the prompt is shown again when the user has answered
      | .askToDisplay => shell.printAndRestartPrompt

def handleKey (autocomplete : Autocomplete) (shell : PgShell) : Key → PgShell
  | .up =>
      let (value, history) := shell.history.getPrevious
      match value with
      | none | some [] => { shell with history }
      | some value => { shell with history, tty := shell.tty.replaceInput value }
  | .down =>
      let (value, history) := shell.history.getNext
      { shell with history, tty := shell.tty.replaceInput (value.getD []) }
  | .left => { shell with tty := shell.tty.handleCursorMove (-1) }
  | .right => { shell with tty := shell.tty.handleCursorMove 1 }
  | .home => { shell with tty := shell.tty.setCursor 0 }
  | .toEnd => { shell with tty := shell.tty.setCursor shell.tty.input.length }
  | .wordLeft =>
      let offset := closestLeftBoundary shell.tty.input shell.tty.cursor
      { shell with tty := shell.tty.setCursor offset }
  | .wordRight =>
      let offset := closestRightBoundary shell.tty.input shell.tty.cursor
      { shell with tty := shell.tty.setCursor offset }
  | .delete => { shell with tty := shell.tty.handleCursorErase false }
  | .backspace => { shell with tty := shell.tty.handleCursorErase true }
  | .deleteWordLeft =>
      let offset := closestLeftBoundary shell.tty.input shell.tty.cursor
      let newInput := substring shell.tty.input 0 offset ++
        substring shell.tty.input shell.tty.cursor shell.tty.input.length
      { shell with tty := (shell.tty.setInput newInput).setCursor offset }
  | .killToStart =>
      let newInput := substring shell.tty.input shell.tty.cursor shell.tty.input.length
      { shell with tty := (shell.tty.setInput newInput).setCursor 0 }
  | .killToEnd =>
      { shell with tty := shell.tty.replaceInput (substring shell.tty.input 0 shell.tty.cursor) }
  | .clear =>
      let (_, history) := shell.history.getPrevious
      { shell with history, tty := shell.tty.setInput [] }
  | .enter =>
      if isIncompleteInput shell.tty.input
      then { shell with tty := shell.tty.handleCursorInsert [lineFeed] }
      else shell.handleReadComplete
  | .tab => shell.handleTab autocomplete
  | .insert data => { shell with tty := shell.tty.handleCursorInsert data }

def interrupt : CodeUnits := [0x03]

/-- Handle a single piece of information from the terminal -> tty. -/
def handleData (autocomplete : Autocomplete) (shell : PgShell) (data : CodeUnits) : PgShell :=
  if ¬ shell.isPrompting ∧ data ≠ interrupt then shell
  else
    match Key.decode data with
    | some key => shell.handleKey autocomplete key
    | none => shell

/-- `data.replace(/[\r\n]+/g, "\r")` -/
def normData : CodeUnits → CodeUnits
  | [] => []
  | unit :: rest =>
      if isBreak unit then
        if rest.head?.any isBreak then normData rest else carriageReturn :: normData rest
      else unit :: normData rest
where
  isBreak (unit : UInt16) : Bool := unit = carriageReturn ∨ unit = lineFeed

/-- What is handled one after another. Data that looks like a pasted input is expanded. -/
def pieces (data : CodeUnits) : List CodeUnits :=
  if 3 < data.length ∧ data.head? ≠ some 0x1b then codePoints (normData data) else [data]

/-- The shell once it reads data, if it does. `hasLine` says whether the terminal has a line
where the cursor is. -/
def receive (hasLine : Bool) (shell : PgShell) (data : CodeUnits) : Option PgShell :=
  if ¬ shell.isPrompting ∧ data ≠ interrupt then none
  else if shell.tty.firstInit ∧ shell.activePrompt then
    if hasLine then some { shell with tty := shell.tty.setFirstInit false } else none
  else some shell

/-- Handle terminal -> tty input. -/
def handleTermData (autocomplete : Autocomplete) (hasLine : Bool) (shell : PgShell)
    (data : CodeUnits) : PgShell :=
  match shell.receive hasLine data with
  | none => shell
  | some shell =>
      if shell.activeCharPrompt then { shell with activeCharPrompt := false }
      else (pieces data).foldl (handleData autocomplete) shell

end PgShell

/-- What happens to the shell: data from the terminal, and what other parts of the program
and the promises of the shell itself do at any time between. -/
inductive ShellEvent where
  | termData (data : CodeUnits) (autocomplete : Autocomplete) (hasLine : Bool)
  | prompt (inputStartsWithPrompt : Bool)
  | pushHistory
  | waitForInput
  | print
  | resume
  | resize
  | executeFromStr (cmd : CodeUnits)
  | disable
  | enable

namespace PgShell

/-- Prompt terminal. -/
def prompt (shell : PgShell) (inputStartsWithPrompt : Bool) : PgShell :=
  if shell.activePrompt ∧ inputStartsWithPrompt then shell
  else { shell with activePrompt := true, tty := shell.tty.read }

def next (shell : PgShell) : ShellEvent → PgShell
  | .termData data autocomplete hasLine => shell.handleTermData autocomplete hasLine data
  | .prompt inputStartsWithPrompt => shell.prompt inputStartsWithPrompt
  -- after the promise of the prompt
  | .pushHistory => { shell with history := shell.history.push (trim shell.tty.input) }
  | .waitForInput => { shell with waitingForInput := true }
  | .print => if shell.isPrompting then shell.printAndRestartPrompt else shell
  | .resume => { shell with tty := shell.tty.resume }
  | .resize => { shell with tty := shell.tty.setInput shell.tty.input }
  | .executeFromStr cmd => { shell with tty := shell.tty.setInput cmd }.handleReadComplete
  | .disable => { shell with processCount := shell.processCount + 1 }
  | .enable => { shell with processCount := shell.processCount - 1 }

end PgShell
end Solpg.Client.Utils
