import Solpg.Std.Text

/-!
# Reading an event stream

A body arrives in chunks that may cut a line anywhere. The reader keeps the
unfinished line and the data of the unfinished event, and calls its handler at
every blank line. `read_eq` says that the chunks do not matter: the handler is
called on the events of the whole text, in order, until it throws.
-/

namespace Solpg.Std.EventStream

universe u v

/-- The complete lines of a text, and the rest after its last line feed. -/
def splitLines : Text → List Text × Text
  | [] => ([], [])
  | char :: rest =>
      let (lines, pending) := splitLines rest
      if char = '\n' then ([] :: lines, pending)
      else
        match lines with
        | [] => ([], char :: pending)
        | line :: lines => ((char :: line) :: lines, pending)

/-- The data of a `data:` line. -/
def lineData (line : Text) : Option Text :=
  if Text.startsWith line "data:".toList then some (Text.trim (line.drop 5)) else none

/-- The events that blank lines complete, and the data of the unfinished one. -/
def collect : Text → List Text → List Text × Text
  | data, [] => ([], data)
  | data, line :: rest =>
      match lineData line with
      | some more => collect (data ++ more) rest
      | none =>
          if (Text.trim line).isEmpty then
            let (events, pending) := collect [] rest
            (data :: events, pending)
          else collect data rest

/-- How a body ends: the decoder's last characters, or an error of `read`. -/
inductive Ending where
  | closed (flushed : Text)
  | broken (message : Text)
  deriving DecidableEq, Repr

/-- The chunks of a body, and how it ends. -/
structure Body where
  chunks : List Text
  ending : Ending
  deriving DecidableEq, Repr

/-- The text that is read in all. -/
def Body.text (body : Body) : Text :=
  match body.ending with
  | .closed flushed => body.chunks.flatten ++ flushed
  | .broken _ => body.chunks.flatten

/-- The data of the events that the body brings. What follows the last blank
line is an event of its own if the body is closed. -/
def Body.events (body : Body) : List Text :=
  let (events, data) := collect [] (splitLines body.text).1
  match body.ending with
  | .closed _ => events ++ [data]
  | .broken _ => events

/-- What has not become a line yet, the data of the event, and the state of its handler. -/
structure Reader (σ : Type u) where
  pending : Text
  eventData : Text
  state : σ

variable {σ : Type u} {ε : Type v}

/-- A handler that fails reports the state it had reached. -/
abbrev Handler (σ : Type u) (ε : Type v) := σ → Text → Except (ε × σ) σ

section Read

variable (handle : Handler σ ε)

/-- Take one line: data is collected, an empty line handles it. -/
def readLine (reader : Reader σ) (line : Text) : Except (ε × σ) (Reader σ) :=
  match lineData line with
  | some more => .ok { reader with eventData := reader.eventData ++ more }
  | none =>
      if (Text.trim line).isEmpty then do
        let state ← handle reader.state reader.eventData
        .ok { reader with eventData := [], state := state }
      else .ok reader

/-- Take the lines that a chunk completes. -/
def readChunk (reader : Reader σ) (chunk : Text) : Except (ε × σ) (Reader σ) :=
  let (lines, pending) := splitLines (reader.pending ++ chunk)
  lines.foldlM (readLine handle) { reader with pending := pending }

/-- The whole loop, with the call of the handler that follows it. -/
def read (fail : Text → ε) (body : Body) (state : σ) : Except (ε × σ) σ := do
  let reader ← body.chunks.foldlM (readChunk handle) ⟨[], [], state⟩
  match body.ending with
  | .broken message => .error (fail message, reader.state)
  | .closed flushed =>
      let reader ← readChunk handle reader flushed
      handle reader.state reader.eventData

end Read

/-- Lines may be split off in two goes. -/
theorem splitLines_append (first second : Text) :
    splitLines (first ++ second) =
      ((splitLines first).1 ++ (splitLines ((splitLines first).2 ++ second)).1,
        (splitLines ((splitLines first).2 ++ second)).2) := by
  induction first with
  | nil => simp [splitLines]
  | cons char rest ih =>
      by_cases newline : char = '\n'
      · simp [splitLines, newline, ih]
      · cases found : (splitLines rest).1 with
        | nil =>
            rw [found] at ih
            simp only [List.nil_append] at ih
            simp [splitLines, newline, ih, found]
        | cons line lines =>
            rw [found] at ih
            simp [splitLines, newline, ih, found]

/-- Lines may be collected in two goes. -/
theorem collect_append (data : Text) (first second : List Text) :
    collect data (first ++ second) =
      ((collect data first).1 ++ (collect (collect data first).2 second).1,
        (collect (collect data first).2 second).2) := by
  induction first generalizing data with
  | nil => simp [collect]
  | cons line rest ih =>
      simp only [List.cons_append, collect]
      cases lineData line with
      | some more => exact ih (data ++ more)
      | none =>
          by_cases blank : (Text.trim line).isEmpty
          · simp [blank, ih []]
          · simp [blank, ih data]

variable {handle : Handler σ ε}

/-- The handler sees the events that the lines complete. -/
theorem readLines_eq (lines : List Text) (reader : Reader σ) :
    lines.foldlM (readLine handle) reader =
      ((collect reader.eventData lines).1.foldlM handle reader.state).map fun state =>
        { reader with eventData := (collect reader.eventData lines).2, state := state } := by
  induction lines generalizing reader with
  | nil => rfl
  | cons line rest ih =>
      simp only [List.foldlM_cons, readLine, collect]
      cases lineData line with
      | some more => exact ih _
      | none =>
          by_cases blank : (Text.trim line).isEmpty
          · simp only [blank, if_true, List.foldlM_cons]
            cases handle reader.state reader.eventData with
            | error error => rfl
            | ok state => exact ih _
          · simp only [blank]
            exact ih _

/-- The reader that has read a text. -/
def afterText (handle : Handler σ ε) (start : σ) (seen : Text) : Except (ε × σ) (Reader σ) :=
  ((collect [] (splitLines seen).1).1.foldlM handle start).map fun state =>
    ⟨(splitLines seen).2, (collect [] (splitLines seen).1).2, state⟩

/-- A chunk goes on where the text before it has ended. -/
theorem readChunk_afterText (start : σ) (seen chunk : Text) :
    (do let reader ← afterText handle start seen
        readChunk handle reader chunk) = afterText handle start (seen ++ chunk) := by
  have split := splitLines_append seen chunk
  have events := collect_append [] (splitLines seen).1
    (splitLines ((splitLines seen).2 ++ chunk)).1
  simp only [afterText, split, events, List.foldlM_append]
  cases (collect [] (splitLines seen).1).1.foldlM handle start with
  | error error => rfl
  | ok state => exact readLines_eq _ _

/-- Chunks are read like the text they make up. -/
theorem readChunks_afterText (start : σ) (seen : Text) (chunks : List Text) :
    (do let reader ← afterText handle start seen
        chunks.foldlM (readChunk handle) reader) =
      afterText handle start (seen ++ chunks.flatten) := by
  induction chunks generalizing seen with
  | nil => simp
  | cons chunk rest ih =>
      have step := @readChunk_afterText _ _ handle start seen chunk
      rw [List.flatten_cons, ← List.append_assoc, ← ih (seen ++ chunk), ← step, bind_assoc]
      rfl

/-- Reading a body chunk by chunk handles the events of its whole text. -/
theorem read_eq (fail : Text → ε) (body : Body) (start : σ) :
    read handle fail body start =
      (body.events.foldlM handle start >>= fun state =>
        match body.ending with
        | .closed _ => .ok state
        | .broken message => .error (fail message, state)) := by
  obtain ⟨pieces, ending⟩ := body
  have chunks : pieces.foldlM (readChunk handle) ⟨[], [], start⟩ =
      afterText handle start pieces.flatten := readChunks_afterText start [] pieces
  cases ending with
  | broken message =>
      simp only [read, chunks, Body.events, Body.text, afterText]
      cases (collect [] (splitLines pieces.flatten).1).1.foldlM handle start <;> rfl
  | closed flushed =>
      have last := @readChunk_afterText _ _ handle start pieces.flatten flushed
      simp only [read, chunks, Body.events, Body.text, List.foldlM_append, List.foldlM_cons,
        List.foldlM_nil]
      rw [← bind_assoc, last, afterText]
      cases (collect [] (splitLines (pieces.flatten ++ flushed)).1).1.foldlM handle start with
      | error error => rfl
      | ok state =>
          simp only [Except.map, bind, Except.bind]
          cases handle state (collect [] (splitLines (pieces.flatten ++ flushed)).1).2 <;> rfl

end Solpg.Std.EventStream
