import Solpg.Server.Routes.Learning.Request
import Solpg.Std.EventStream

/-!
# The tutor's response stream

`streamTutor` of `learning/api.ts`. Its callbacks write to a `StreamState`; an
error leaves what they had written. `streamTutor_spec` says what one response
leaves behind in terms of the events of its body.
-/

namespace Solpg.Client.Learning

open Solpg.Std
open Solpg.Server.Routes.Learning

structure TutorToolCall where
  callId : Text
  name : Text
  arguments : Json

structure TutorError where
  code : Option Text
  message : Option Text

inductive OutputItem where
  | functionCall (callId name : Text) (arguments : Option Text)
  | other

/-- The events by their `type`, with the fields that are read. -/
inductive TutorEvent where
  | created (id : Option Text)
  | outputTextDelta (delta : Option Text)
  | outputItemDone (item : OutputItem)
  | error (reported : Option TutorError)
  | failed (reported : Option TutorError)
  | other

/-- The two sides' JSON. `decode` is `JSON.parse` on the data of an event, with
the message of its error; `parse` is `JSON.parse` on the arguments of a call;
`render` is the server's printer. -/
structure Codec where
  decode : Text → Except Text TutorEvent
  parse : Text → Option Json
  render : Json → Text

/-- What the callbacks of one call have written. `previousResponseId` is the
field of the workspace. -/
structure StreamState where
  createdResponseId : Option Text
  previousResponseId : Option Text
  text : Text
  toolCalls : List TutorToolCall

def getTutorErrorMessage (error : Option TutorError) : Text :=
  if (error.bind TutorError.code) = some "insufficient_quota".toList then
    ("Program Pal is out of OpenAI credits. Add billing to the configured OpenAI project or " ++
      "replace the server API key, then try again.").toList
  else
    match error.bind TutorError.message with
    | some (first :: rest) => first :: rest
    | _ => "Program Pal could not finish that response.".toList

/-- `JSON.parse` of the data, unless there is none or the stream says it is done. -/
def Codec.event (codec : Codec) (eventData : Text) : Except Text TutorEvent :=
  if eventData.isEmpty || eventData = "[DONE]".toList then .ok .other else codec.decode eventData

/-- The id that a `response.created` event announces. -/
def TutorEvent.createdId : TutorEvent → Option Text
  | .created (some (first :: rest)) => some (first :: rest)
  | _ => none

/-- The call that a `response.output_item.done` event reports. -/
def TutorEvent.toolCall (codec : Codec) : TutorEvent → Option TutorToolCall
  | .outputItemDone (.functionCall callId name arguments) =>
      some ⟨callId, name, (codec.parse (arguments.getD "\x7b\x7d".toList)).getD (.object [])⟩
  | _ => none

/-- The error that handling an event throws. -/
def TutorEvent.thrown : TutorEvent → Option Text
  | .error reported => some (getTutorErrorMessage reported)
  | .failed reported => some (getTutorErrorMessage reported)
  | _ => none

/-- `handleEvent`, a case of whose `switch` either throws or calls one callback. -/
def handleEvent (codec : Codec) : EventStream.Handler StreamState Text := fun state eventData =>
  match codec.event eventData with
  | .error message => .error (message, state)
  | .ok event =>
      match event.thrown with
      | some message => .error (message, state)
      | none =>
          match event with
          | .created _ =>
              match event.createdId with
              | some id =>
                  .ok { state with createdResponseId := some id, previousResponseId := some id }
              | none => .ok state
          | .outputTextDelta delta => .ok { state with text := state.text ++ delta.getD [] }
          | .outputItemDone _ =>
              .ok { state with toolCalls := state.toolCalls ++ (event.toolCall codec).toList }
          | _ => .ok state

/-- What `learningFetch` answers: it throws, the response is not `ok`, it has no
body, or its body is read. -/
inductive Response where
  | unreachable (message : Text)
  | refused (text : Text)
  | empty
  | stream (body : EventStream.Body)

def streamTutor (codec : Codec) (response : Response) (state : StreamState) :
    Except (Text × StreamState) StreamState :=
  match response with
  | .unreachable message => .error (message, state)
  | .refused text => .error (text, state)
  | .empty => .error ("Tutor stream was empty".toList, state)
  | .stream body => EventStream.read (handleEvent codec) id body state

/-! ## What a body says -/

/-- Handling this event's data throws. -/
def Codec.throws (codec : Codec) (eventData : Text) : Bool :=
  match codec.event eventData with
  | .error _ => true
  | .ok event => event.thrown.isSome

/-- The id that the event's data announces. -/
def Codec.createdId (codec : Codec) (eventData : Text) : Option Text :=
  match codec.event eventData with
  | .error _ => none
  | .ok event => event.createdId

/-- The call that the event's data reports. -/
def Codec.toolCall (codec : Codec) (eventData : Text) : Option TutorToolCall :=
  match codec.event eventData with
  | .error _ => none
  | .ok event => event.toolCall codec

/-- All function calls that the events report. -/
def Codec.toolCalls (codec : Codec) (events : List Text) : List TutorToolCall :=
  events.filterMap codec.toolCall

/-- An id is announced before the first error. -/
def Codec.announces (codec : Codec) (events : List Text) : Bool :=
  (events.takeWhile fun event => !codec.throws event).any fun event => (codec.createdId event).isSome

/-- The events are those of the response `id`. -/
def Codec.Of (codec : Codec) (events : List Text) (id : Text) : Prop :=
  ∀ event ∈ events, ∀ created, codec.createdId event = some created → created = id

variable {codec : Codec}

/-- What handling some events leaves of the ids. -/
structure Announced (codec : Codec) (events : List Text) (id : Text) (before after : StreamState) :
    Prop where
  created : after.createdResponseId =
    if codec.announces events then some id else before.createdResponseId
  stored : after.previousResponseId =
    if codec.announces events then some id else before.previousResponseId

/-- One event throws and changes nothing, or writes what it says. -/
theorem handleEvent_spec (state : StreamState) (event : Text) :
    Outcome.Ensures (handleEvent codec state event)
      (fun after => codec.throws event = false ∧
        after.toolCalls = state.toolCalls ++ (codec.toolCall event).toList ∧
        after.createdResponseId = (codec.createdId event <|> state.createdResponseId) ∧
        after.previousResponseId = (codec.createdId event <|> state.previousResponseId))
      (fun error => codec.throws event = true ∧ error.2 = state) := by
  simp only [handleEvent, Codec.throws, Codec.toolCall, Codec.createdId]
  cases codec.event event with
  | error message => exact ⟨rfl, rfl⟩
  | ok event =>
      cases event with
      | created id =>
          rcases id with _ | _ | ⟨first, rest⟩ <;>
            simp [TutorEvent.thrown, TutorEvent.createdId, TutorEvent.toolCall, Outcome.Ensures]
      | outputTextDelta delta =>
          simp [TutorEvent.thrown, TutorEvent.createdId, TutorEvent.toolCall, Outcome.Ensures]
      | outputItemDone item =>
          simp [TutorEvent.thrown, TutorEvent.createdId, Outcome.Ensures]
      | error reported => exact ⟨rfl, rfl⟩
      | failed reported => exact ⟨rfl, rfl⟩
      | other => simp [TutorEvent.thrown, TutorEvent.createdId, TutorEvent.toolCall, Outcome.Ensures]

/-- The events of one response, handled until the first error. -/
theorem handleEvents_spec {events : List Text} {id : Text} (named : codec.Of events id)
    (state : StreamState) :
    Outcome.Ensures (events.foldlM (handleEvent codec) state)
      (fun after => events.any codec.throws = false ∧ Announced codec events id state after ∧
        after.toolCalls = state.toolCalls ++ codec.toolCalls events)
      (fun error => events.any codec.throws = true ∧ Announced codec events id state error.2) := by
  induction events generalizing state with
  | nil =>
      exact ⟨rfl, ⟨rfl, rfl⟩, by simp [Codec.toolCalls]⟩
  | cons event rest ih =>
      have namedRest : codec.Of rest id := fun other member =>
        named other (List.mem_cons_of_mem _ member)
      have first := @handleEvent_spec codec state event
      rw [List.foldlM_cons]
      cases handled : handleEvent codec state event with
      | error error =>
          rw [handled] at first
          obtain ⟨throws, same⟩ := first
          refine ⟨by simp [throws], ?_, ?_⟩ <;> simp [Codec.announces, throws, same]
      | ok middle =>
          rw [handled] at first
          obtain ⟨quiet, calls, created, stored⟩ := first
          have announces : codec.announces (event :: rest) =
              ((codec.createdId event).isSome || codec.announces rest) := by
            simp [Codec.announces, quiet]
          have combine : ∀ {after : StreamState}, Announced codec rest id middle after →
              Announced codec (event :: rest) id state after := by
            rintro after ⟨createdAfter, storedAfter⟩
            cases found : codec.createdId event with
            | none =>
                rw [found] at created stored announces
                constructor <;> simp_all
            | some name =>
                have same := named event List.mem_cons_self name found
                rw [found] at created stored announces
                constructor <;> simp_all
          have later := ih namedRest middle
          cases result : rest.foldlM (handleEvent codec) middle with
          | error error =>
              rw [result] at later
              simp only [bind, Except.bind, result]
              exact ⟨by simp [quiet, later.1], combine later.2⟩
          | ok after =>
              rw [result] at later
              simp only [bind, Except.bind, result]
              obtain ⟨noThrow, announced, laterCalls⟩ := later
              refine ⟨by simp [quiet, noThrow], combine announced, ?_⟩
              rw [laterCalls, calls, List.append_assoc]
              cases found : codec.toolCall event <;> simp [Codec.toolCalls, found]

/-- The body ends in an error. -/
def Codec.fails (codec : Codec) (body : EventStream.Body) : Bool :=
  body.events.any codec.throws || match body.ending with
    | .closed _ => false
    | .broken _ => true

/-- What reading the body of the response `id` leaves. -/
theorem streamTutor_spec {body : EventStream.Body} {id : Text} (named : codec.Of body.events id)
    (state : StreamState) :
    Outcome.Ensures (streamTutor codec (.stream body) state)
      (fun after => codec.fails body = false ∧ Announced codec body.events id state after ∧
        after.toolCalls = state.toolCalls ++ codec.toolCalls body.events)
      (fun error => codec.fails body = true ∧ Announced codec body.events id state error.2) := by
  have handled := handleEvents_spec named state
  rw [streamTutor, EventStream.read_eq]
  cases result : body.events.foldlM (handleEvent codec) state with
  | error error =>
      rw [result] at handled
      exact ⟨by simp [Codec.fails, handled.1], handled.2⟩
  | ok after =>
      rw [result] at handled
      cases ending : body.ending with
      | closed flushed =>
          exact ⟨by simp [Codec.fails, handled.1, ending], handled.2⟩
      | broken message =>
          exact ⟨by simp [Codec.fails, ending], handled.2.1⟩

end Solpg.Client.Learning
