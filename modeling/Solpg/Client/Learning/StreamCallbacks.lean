import Solpg.Client.Learning.Api
import Solpg.Std.Utf8

/-!
# The callbacks of the tutor's stream

The callbacks that `streamTutor` makes, in order, on the bytes that arrive. They do not depend on
how the bytes are cut; a line that is not ended by a line feed is not read any more.
-/

namespace Solpg.Client.Learning

open Solpg.Std

inductive Callback where
  | responseId (id : Text)
  | text (delta : Text)
  | toolCall (call : TutorToolCall)

/-- The callback that an event makes. -/
def TutorEvent.callback (codec : Codec) (event : TutorEvent) : Option Callback :=
  match event with
  | .created _ => event.createdId.map .responseId
  | .outputTextDelta delta => some (.text (delta.getD []))
  | .outputItemDone _ => (event.toolCall codec).map .toolCall
  | _ => none

/-- What handling the data of an event does: it throws or makes a callback or none. -/
def Codec.effect (codec : Codec) (eventData : Text) : Except Text (Option Callback) :=
  match codec.event eventData with
  | .error message => .error message
  | .ok event =>
      match event.thrown with
      | some message => .error message
      | none => .ok (event.callback codec)

/-- `handleEvent` as it adds to the callbacks that have been made. -/
def recordCallback (codec : Codec) : EventStream.Handler (List Callback) Text :=
  fun made eventData =>
    match codec.effect eventData with
    | .error message => .error (message, made)
    | .ok callback => .ok (made ++ callback.toList)

/-- What a callback writes. -/
def StreamState.write (state : StreamState) : Callback → StreamState
  | .responseId id => { state with createdResponseId := some id, previousResponseId := some id }
  | .text delta => { state with text := state.text ++ delta }
  | .toolCall call => { state with toolCalls := state.toolCalls ++ [call] }

/-- The chunks as the decoder gives them. -/
def received (chunks : List (List UInt8)) : EventStream.Body where
  chunks := (Utf8.decodeChunks Utf8.initial chunks).1
  ending := .closed (Utf8.decodeChunks Utf8.initial chunks).2

/-- The callbacks of `streamTutor` until its end or the first error. -/
def streamCallbacks (codec : Codec) (chunks : List (List UInt8)) :
    Except (Text × List Callback) (List Callback) :=
  EventStream.read (recordCallback codec) id (received chunks) []

/-- The callbacks of the whole text, split into lines at once. -/
def wholeCallbacks (codec : Codec) (bytes : List UInt8) :
    Except (Text × List Callback) (List Callback) :=
  let (events, data) := EventStream.collect [] ((Utf8.decode bytes).splitOn '\n')
  (events ++ [data]).foldlM (recordCallback codec) []

/-- What is written when the callbacks have been made. -/
def written (state : StreamState) : Except (Text × List Callback) (List Callback) →
    Except (Text × StreamState) StreamState
  | .ok made => .ok (made.foldl StreamState.write state)
  | .error (message, made) => .error (message, made.foldl StreamState.write state)

variable {codec : Codec} {chunks : List (List UInt8)} {text : Text}

/-! ## What the callbacks write -/

theorem handleEvent_eq (state : StreamState) (made : List Callback) (eventData : Text) :
    handleEvent codec (made.foldl StreamState.write state) eventData =
      written state (recordCallback codec made eventData) := by
  simp only [handleEvent, recordCallback, Codec.effect]
  cases codec.event eventData with
  | error message => rfl
  | ok event =>
      simp only []
      cases thrown : event.thrown with
      | some message => rfl
      | none =>
          cases event with
          | created id =>
              rcases id with _ | _ | ⟨first, rest⟩
              · simp [TutorEvent.callback, TutorEvent.createdId, written]
              · simp [TutorEvent.callback, TutorEvent.createdId, written]
              · simp [TutorEvent.callback, TutorEvent.createdId, written, StreamState.write]
          | outputTextDelta delta => simp [TutorEvent.callback, written, StreamState.write]
          | outputItemDone item =>
              cases item with
              | functionCall callId name arguments =>
                  simp [TutorEvent.callback, TutorEvent.toolCall, written, StreamState.write]
              | other => simp [TutorEvent.callback, TutorEvent.toolCall, written]
          | error reported => cases thrown
          | failed reported => cases thrown
          | other => simp [TutorEvent.callback, written]

theorem handleEvents_eq (state : StreamState) (events : List Text) (made : List Callback) :
    events.foldlM (handleEvent codec) (made.foldl StreamState.write state) =
      written state (events.foldlM (recordCallback codec) made) := by
  induction events generalizing made with
  | nil => rfl
  | cons event rest ih =>
      rw [List.foldlM_cons, List.foldlM_cons, handleEvent_eq]
      cases recordCallback codec made event with
      | error error => rfl
      | ok more => exact ih more

/-- What `streamTutor` leaves is what its callbacks have written. -/
theorem streamTutor_eq (state : StreamState) :
    streamTutor codec (.stream (received chunks)) state =
      written state (streamCallbacks codec chunks) := by
  rw [streamTutor, streamCallbacks, EventStream.read_eq, EventStream.read_eq]
  have events : (received chunks).events.foldlM (handleEvent codec) state =
      written state ((received chunks).events.foldlM (recordCallback codec) []) :=
    handleEvents_eq state (received chunks).events []
  rw [events]
  cases (received chunks).events.foldlM (recordCallback codec) [] <;> rfl

/-! ## The last line -/

theorem splitOn_eq (text : Text) :
    text.splitOn '\n' = (EventStream.splitLines text).1 ++ [(EventStream.splitLines text).2] := by
  induction text with
  | nil => rfl
  | cons char rest ih =>
      rw [List.splitOn_cons_eq_if_modifyHead, EventStream.splitLines, ih]
      by_cases newline : char = '\n'
      · simp [newline]
      · rcases lines : (EventStream.splitLines rest).1 with _ | ⟨line, lines⟩ <;>
          simp [newline, lines]

/-- The lines that are ended by a line feed. -/
def endedLines (text : Text) : List Text := (EventStream.splitLines text).1

/-- What is behind the last line feed. -/
def lastLine (text : Text) : Text := (EventStream.splitLines text).2

/-- The last line is no data line, or its data adds nothing to what the event before it does, or
handling an event before has thrown. -/
def Complete (codec : Codec) (text : Text) : Prop :=
  let (events, data) := EventStream.collect [] (endedLines text)
  ∀ more, EventStream.lineData (lastLine text) = some more →
    events.any codec.throws = true ∨ codec.effect (data ++ more) = codec.effect data

theorem events_received : (received chunks).events =
    (EventStream.collect [] (endedLines (Utf8.decode chunks.flatten))).1 ++
      [(EventStream.collect [] (endedLines (Utf8.decode chunks.flatten))).2] := by
  have text : (received chunks).text = Utf8.decode chunks.flatten := Utf8.decodeChunks_initial chunks
  rw [EventStream.Body.events, text]
  rfl

theorem streamCallbacks_eq : streamCallbacks codec chunks =
    (received chunks).events.foldlM (recordCallback codec) [] := by
  rw [streamCallbacks, EventStream.read_eq]
  cases (received chunks).events.foldlM (recordCallback codec) [] <;> rfl

theorem effect_nil : codec.effect [] = .ok none := rfl

theorem throws_iff {eventData : Text} :
    codec.throws eventData = true ↔ ∃ message, codec.effect eventData = .error message := by
  rw [Codec.throws, Codec.effect]
  cases codec.event eventData with
  | error message => exact ⟨fun _ => ⟨message, rfl⟩, fun _ => rfl⟩
  | ok event =>
      simp only []
      cases event.thrown with
      | some message => exact ⟨fun _ => ⟨message, rfl⟩, fun _ => rfl⟩
      | none =>
          constructor
          · intro isSome
            cases isSome
          · rintro ⟨message, fails⟩
            cases fails

/-- Callbacks are made until the first error. -/
theorem foldlM_recordCallback (events : List Text) (made : List Callback) :
    (∃ error, events.foldlM (recordCallback codec) made = .error error) ↔
      events.any codec.throws = true := by
  induction events generalizing made with
  | nil =>
      constructor
      · rintro ⟨error, fails⟩
        cases fails
      · intro throws
        cases throws
  | cons event rest ih =>
      rw [List.foldlM_cons, List.any_cons, Bool.or_eq_true, throws_iff]
      cases handled : codec.effect event with
      | error message =>
          have fails : recordCallback codec made event = .error (message, made) := by
            rw [recordCallback, handled]
          rw [fails]
          exact ⟨fun _ => .inl ⟨message, rfl⟩, fun _ => ⟨_, rfl⟩⟩
      | ok callback =>
          have passes : recordCallback codec made event = .ok (made ++ callback.toList) := by
            rw [recordCallback, handled]
          rw [passes]
          refine (ih (made ++ callback.toList)).trans ⟨.inr, fun throws => ?_⟩
          rcases throws with ⟨message, fails⟩ | throws
          · cases fails
          · exact throws

/-- Two events that are recorded alike have the same effect. -/
theorem recordCallback_eq_iff {made : List Callback} {first second : Text} :
    recordCallback codec made first = recordCallback codec made second ↔
      codec.effect first = codec.effect second := by
  constructor
  · intro same
    rw [recordCallback, recordCallback] at same
    cases one : codec.effect first with
    | error message =>
        cases two : codec.effect second with
        | error other =>
            rw [one, two] at same
            cases same
            rfl
        | ok callback =>
            rw [one, two] at same
            cases same
    | ok callback =>
        cases two : codec.effect second with
        | error message =>
            rw [one, two] at same
            cases same
        | ok other =>
            rw [one, two] at same
            have added := List.append_cancel_left (Except.ok.inj same)
            cases callback <;> cases other <;> simp_all
  · intro same
    rw [recordCallback, recordCallback, same]

/-- The callbacks are those of the whole byte sequence exactly when the last line does not
matter, however the bytes are cut into chunks. -/
theorem streamCallbacks_eq_iff (codec : Codec) (chunks : List (List UInt8)) :
    streamCallbacks codec chunks = wholeCallbacks codec chunks.flatten ↔
      Complete codec (Utf8.decode chunks.flatten) := by
  rw [streamCallbacks_eq, events_received, wholeCallbacks, splitOn_eq, Complete]
  generalize Utf8.decode chunks.flatten = text
  rw [EventStream.collect_append]
  simp only [endedLines, lastLine]
  generalize EventStream.collect [] (EventStream.splitLines text).1 = collected
  obtain ⟨events, data⟩ := collected
  generalize (EventStream.splitLines text).2 = last
  simp only [EventStream.collect, List.foldlM_append]
  cases found : EventStream.lineData last with
  | none =>
      simp only [reduceCtorEq, false_imp_iff, implies_true, iff_true]
      -- A last line without data ends the event or is passed over.
      split
      · simp only [List.foldlM_cons, List.foldlM_nil]
        cases events.foldlM (recordCallback codec) [] with
        | error error => rfl
        | ok made =>
            simp only [bind, Except.bind]
            cases recordCallback codec made data with
            | error error => rfl
            | ok more => simp [recordCallback, effect_nil, pure, Except.pure]
      · simp
  | some more =>
      simp only [Option.some.injEq, forall_eq']
      cases handled : events.foldlM (recordCallback codec) [] with
      | error error =>
          have throws := (foldlM_recordCallback events []).mp ⟨error, handled⟩
          simp [throws, bind, Except.bind]
      | ok made =>
          have quiet : ¬ events.any codec.throws = true := by
            intro throws
            obtain ⟨error, fails⟩ := (foldlM_recordCallback events []).mpr throws
            cases fails.symm.trans handled
          rw [or_iff_right quiet]
          simp only [List.foldlM_cons, List.foldlM_nil]
          have unwrapped : ∀ result : Except (Text × List Callback) (List Callback),
              (result >>= pure) = result := bind_pure
          change (recordCallback codec made data >>= pure) =
            (recordCallback codec made (data ++ more) >>= pure) ↔ _
          rw [unwrapped, unwrapped, recordCallback_eq_iff, eq_comm]

/-- Every event is a piece of text. -/
def textCodec : Codec where
  decode data := .ok (.outputTextDelta (some data))
  parse _ := none
  render _ := []

/-- An event whose line is not ended makes no callback. -/
theorem not_always_whole : ¬ ∀ codec chunks,
    streamCallbacks codec chunks = wholeCallbacks codec chunks.flatten := by
  intro always
  have whole := always textCodec [("data: x".toList.map fun char => UInt8.ofNat char.toNat)]
  have complete := (streamCallbacks_eq_iff _ _).mp whole
  rcases complete ['x'] rfl with throws | same
  · cases throws
  · cases same

end Solpg.Client.Learning
