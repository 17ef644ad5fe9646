import Mathlib.Data.List.TakeWhile
import Mathlib.Data.Set.List
import Solpg.Client.Learning.UseTutor

/-!
# The sizes of the tutor's requests

What `askTutor` adds to a question about a tutorial, and the outputs of the tools, when
`validate_ai_request` takes them. The client counts code units before it adds its
headings, the server counts the bytes of the whole message.
-/

namespace Solpg.Client.Learning

open Solpg.Std
open Solpg.Server.Routes.Learning

/-- The request of the turn that the tutor is at is accepted. -/
def Valid (codec : Codec) (lesson : Lesson) (tutor : Tutor) (surroundings : Surroundings) : Prop :=
  ∃ turn request, tutor.phase = .asking turn ∧
    turn.request lesson.lessonId surroundings = some request ∧
    validateAiRequest codec.render request = .ok ()

/-- The bytes of the headings and of the blank lines between the parts. -/
def headingBytes : Nat := 190

/-- The slice of the teaching ends with a whole character, and the message with it has
no more bytes than the server takes. -/
def LessonFits (tutorial : Tutorial) (clean : Text) : Prop :=
  ∃ teaching, slice 16000 tutorial.teaching = some teaching ∧
    headingBytes + Text.utf8Length tutorial.name + Text.utf8Length tutorial.stage +
      Text.utf8Length teaching + Text.utf8Length clean ≤ maxMessageBytes

/-- The outputs of the calls, and what else the next request has, are within the limits. -/
structure OutputsFit (codec : Codec) (lesson : Lesson) (turn : Turn)
    (actions : TutorToolCall → ToolActions) (state : StreamState) (surroundings : Surroundings) :
    Prop where
  count : state.toolCalls.length ≤ 16
  callIds : ∀ tool ∈ state.toolCalls, Text.utf8Length tool.callId ≤ 128
  outputs : ∀ tool ∈ state.toolCalls, ∃ output,
    (toolOutput (actions tool) lesson.workspaceName tool).output = some output ∧
      Text.utf8Length (codec.render output) ≤ maxFileContentBytes
  previous : ∀ id, (state.createdResponseId <|> turn.responseId) = some id →
    Text.utf8Length id ≤ 128
  lesson : Text.utf8Length (lesson.lessonId.getD "custom-program".toList) ≤ 64
  files : surroundings.workspace.length ≤ maxWorkspaceFiles
  workspace : ∀ file ∈ surroundings.workspace, invalidWorkspaceFile file = false

section

variable {codec : Codec} {lesson : Lesson} {tutor : Tutor} {turn : Turn}
  {surroundings : Surroundings} {tutorial : Tutorial} {message clean text : Text}
  {actions : TutorToolCall → ToolActions} {state : StreamState}

@[simp] theorem utf8Length_append (first second : Text) :
    Text.utf8Length (first ++ second) = Text.utf8Length first + Text.utf8Length second := by
  simp [Text.utf8Length]

theorem utf8Length_tutorialMessage (sent : tutorialMessage tutorial clean = some text) :
    ∃ teaching, slice 16000 tutorial.teaching = some teaching ∧
      Text.utf8Length text = headingBytes + Text.utf8Length tutorial.name +
        Text.utf8Length tutorial.stage + Text.utf8Length teaching + Text.utf8Length clean := by
  obtain ⟨teaching, sliced, rfl⟩ := Option.map_eq_some_iff.mp sent
  refine ⟨teaching, sliced, ?_⟩
  have opening : Text.utf8Length "You are teaching the imported tutorial “".toList = 42 := by decide
  have closing : Text.utf8Length "”.".toList = 4 := by decide
  have stage : Text.utf8Length "The learner is at the ".toList = 22 := by decide
  have stageEnd : Text.utf8Length " stage.".toList = 7 := by decide
  have context : Text.utf8Length ("Use this authored tutorial context when answering, but do not repeat it unless it " ++
      "helps:").toList = 88 := by decide
  have question : Text.utf8Length "Learner question:".toList = 17 := by decide
  have blank : Text.utf8Length "\n\n".toList = 2 := by decide
  simp only [List.intercalate_cons_cons, List.intercalate_singleton, utf8Length_append, opening,
    closing, stage, stageEnd, context, question, blank, headingBytes]
  omega

/-! ## A question with its lesson -/

/-- The request of a question depends on the message alone in what the lesson changes. -/
theorem valid_start_iff (text : Text) : Valid codec lesson (tutor.start (some text)) surroundings ↔
    Accepts codec.render {
      message := text
      previousResponseId := tutor.previousResponseId
      workspace := surroundings.workspace
      currentFile := surroundings.currentFile
      selection := none
      lessonId := some (lesson.lessonId.getD "custom-program".toList)
      runtime := some surroundings.runtime
      toolOutputs := none } := by
  rw [← validateAiRequest_eq_ok]
  constructor
  · rintro ⟨_, _, ⟨⟩, ⟨⟩, accepted⟩
    exact accepted
  · exact fun accepted => ⟨_, _, rfl, rfl, accepted⟩

theorem not_valid_start_none : ¬ Valid codec lesson (tutor.start none) surroundings := by
  rintro ⟨_, _, ⟨⟩, ⟨⟩, -⟩

/-- With another message that is no longer than allowed the request stays valid. -/
theorem valid_start_message_iff {other : Text}
    (valid : Valid codec lesson (tutor.start (some text)) surroundings)
    (asks : (RustStr.trim other).isEmpty = false) :
    Valid codec lesson (tutor.start (some other)) surroundings ↔
      Text.utf8Length other ≤ maxMessageBytes := by
  have before := (valid_start_iff text).mp valid
  rw [valid_start_iff]
  constructor
  · exact fun accepts => accepts.message
  · intro short
    refine ⟨?_, short, before.selection, before.previous, before.lesson, before.outputs,
      before.files, before.workspace⟩
    intro empty
    exact absurd empty (by simp [asks])

theorem asks_tutorialMessage (sent : tutorialMessage tutorial clean = some text) :
    (RustStr.trim text).isEmpty = false := by
  obtain ⟨teaching, -, rfl⟩ := Option.map_eq_some_iff.mp sent
  change (RustStr.trim ('Y' :: _)).isEmpty = false
  exact RustStr.trim_cons_isEmpty rfl

/-- The lesson keeps a valid question valid exactly when its message fits. -/
theorem valid_lesson_iff
    (valid : Valid codec lesson (tutor.start (some clean)) surroundings) :
    Valid codec lesson (tutor.start (tutorialMessage tutorial clean)) surroundings ↔
      LessonFits tutorial clean := by
  cases sent : tutorialMessage tutorial clean with
  | none =>
      have cut : slice 16000 tutorial.teaching = none := Option.map_eq_none_iff.mp sent
      constructor
      · exact fun valid => absurd valid not_valid_start_none
      · rintro ⟨teaching, sliced, -⟩
        cases cut.symm.trans sliced
  | some text =>
      obtain ⟨teaching, sliced, bytes⟩ := utf8Length_tutorialMessage sent
      rw [valid_start_message_iff valid (asks_tutorialMessage sent), bytes]
      constructor
      · exact fun short => ⟨teaching, sliced, short⟩
      · rintro ⟨other, same, short⟩
        obtain rfl := Option.some.inj (sliced.symm.trans same)
        exact short

/-! ## The outputs of the tools -/

/-- An output as the client writes it. -/
def writtenOutput (output : ToolOutput) : ClientToolOutput := ⟨output.callId, some output.output⟩

theorem deserialize_eq_some_iff {output : ClientToolOutput} {read : ToolOutput} :
    output.deserialize = some read ↔ writtenOutput read = output := by
  rcases output with ⟨callId, _ | value⟩
  · simp [ClientToolOutput.deserialize, writtenOutput]
  · rcases read with ⟨readId, readValue⟩
    simp [ClientToolOutput.deserialize, writtenOutput, eq_comm]

theorem mapM_deserialize_iff {outputs : List ClientToolOutput} {read : List ToolOutput} :
    outputs.mapM ClientToolOutput.deserialize = some read ↔ read.map writtenOutput = outputs := by
  induction outputs generalizing read with
  | nil => simp [eq_comm]
  | cons output rest ih =>
      simp only [List.mapM_cons, Option.bind_eq_bind, Option.bind_eq_some_iff, ih,
        deserialize_eq_some_iff, List.map_eq_cons_iff]
      constructor
      · rintro ⟨first, same, others, rfl, made⟩
        obtain rfl := Option.some.inj made
        exact ⟨first, others, rfl, same, rfl⟩
      · rintro ⟨first, others, rfl, same, rfl⟩
        exact ⟨first, same, others, rfl, rfl⟩

/-- The outputs are read when each of them is there. -/
theorem exists_written_iff {outputs : List ClientToolOutput} :
    (∃ read : List ToolOutput, read.map writtenOutput = outputs) ↔
      ∀ output ∈ outputs, ∃ value, output.output = some value := by
  change outputs ∈ Set.range (List.map writtenOutput) ↔ _
  rw [Set.range_list_map]
  apply forall₂_congr
  rintro ⟨callId, value⟩ _
  constructor
  · rintro ⟨read, same⟩
    exact ⟨read.output, (congrArg ClientToolOutput.output same).symm⟩
  · rintro ⟨value, rfl⟩
    exact ⟨⟨callId, value⟩, rfl⟩

/-- A request with outputs is valid when they are read and the rest is within the limits. -/
theorem valid_outputs_iff {index : Nat} {responseId : Option Text} {outputs : List ClientToolOutput}
    (asking : tutor.phase = .asking ⟨index, responseId, some outputs, some []⟩) :
    Valid codec lesson tutor surroundings ↔
      ∃ read, read.map writtenOutput = outputs ∧ Accepts codec.render {
        message := []
        previousResponseId := responseId
        workspace := surroundings.workspace
        currentFile := surroundings.currentFile
        selection := none
        lessonId := some (lesson.lessonId.getD "custom-program".toList)
        runtime := some surroundings.runtime
        toolOutputs := some read } := by
  simp only [← mapM_deserialize_iff, ← validateAiRequest_eq_ok]
  constructor
  · rintro ⟨turn, request, phase, made, accepted⟩
    obtain rfl := Phase.asking.inj (asking.symm.trans phase)
    obtain ⟨_, ⟨⟩, made⟩ := Option.bind_eq_some_iff.mp made
    obtain ⟨_, readable, rfl⟩ := Option.map_eq_some_iff.mp made
    obtain ⟨read, reads, rfl⟩ := Option.map_eq_some_iff.mp readable
    exact ⟨read, reads, accepted⟩
  · rintro ⟨read, reads, accepted⟩
    refine ⟨_, _, asking, ?_, accepted⟩
    simp only [Turn.request, Turn.readOutputs, reads, Option.bind_some, Option.map_some]

/-- The request that follows a response with calls is valid exactly when the outputs fit. -/
theorem valid_proceed_iff (calls : state.toolCalls ≠ []) (more : turn.index + 1 < 4) :
    Valid codec lesson (tutor.proceed lesson turn actions state) surroundings ↔
      OutputsFit codec lesson turn actions state surroundings := by
  have asking : (tutor.proceed lesson turn actions state).phase = .asking
      ⟨turn.index + 1, state.createdResponseId <|> turn.responseId,
        some (state.toolCalls.map fun tool =>
          toolOutput (actions tool) lesson.workspaceName tool), some []⟩ := by
    simp [Tutor.proceed, calls, more]
  rw [valid_outputs_iff asking]
  constructor
  · rintro ⟨read, same, accepts⟩
    obtain ⟨count, each⟩ := accepts.outputs read rfl
    have readOf {tool : TutorToolCall} (member : tool ∈ state.toolCalls) :
        ∃ output ∈ read, writtenOutput output =
          toolOutput (actions tool) lesson.workspaceName tool := by
      apply List.mem_map.mp
      rw [same]
      exact List.mem_map.mpr ⟨tool, member, rfl⟩
    refine ⟨?_, ?_, ?_, accepts.previous, accepts.lesson _ rfl, accepts.files, accepts.workspace⟩
    · have lengths := congrArg List.length same
      simp only [List.length_map] at lengths
      omega
    · intro tool member
      obtain ⟨output, inRead, is⟩ := readOf member
      have short := (each output inRead).1
      rwa [show output.callId = tool.callId from congrArg ClientToolOutput.callId is] at short
    · intro tool member
      obtain ⟨output, inRead, is⟩ := readOf member
      exact ⟨output.output, (congrArg ClientToolOutput.output is).symm, (each output inRead).2⟩
  · intro fits
    have there : ∀ output ∈ state.toolCalls.map fun tool =>
        toolOutput (actions tool) lesson.workspaceName tool, ∃ value, output.output = some value := by
      rintro _ among
      obtain ⟨tool, member, rfl⟩ := List.mem_map.mp among
      obtain ⟨output, given, -⟩ := fits.outputs tool member
      exact ⟨output, given⟩
    obtain ⟨read, same⟩ := exists_written_iff.mpr there
    have lengths := congrArg List.length same
    simp only [List.length_map] at lengths
    refine ⟨read, same, ?_, Nat.zero_le _, (fun _ among => by cases among), fits.previous, ?_, ?_, fits.files,
      fits.workspace⟩
    · intro _ none
      have empty : read = [] := by simpa using none
      rw [empty] at lengths
      exact calls (List.length_eq_zero_iff.mp lengths.symm)
    · rintro _ ⟨⟩
      exact fits.lesson
    · rintro _ ⟨⟩
      refine ⟨lengths.trans_le fits.count, fun output inRead => ?_⟩
      have among : writtenOutput output ∈ state.toolCalls.map fun tool =>
          toolOutput (actions tool) lesson.workspaceName tool := by
        rw [← same]
        exact List.mem_map.mpr ⟨output, inRead, rfl⟩
      obtain ⟨tool, member, is⟩ := List.mem_map.mp among
      obtain ⟨value, given, short⟩ := fits.outputs tool member
      have value_eq : value = output.output :=
        Option.some.inj (given.symm.trans (congrArg ClientToolOutput.output is))
      have callId_eq : tool.callId = output.callId := congrArg ClientToolOutput.callId is
      exact ⟨callId_eq ▸ fits.callIds tool member, value_eq ▸ short⟩

/-! ## The requests of `askTutor` -/

/-- A valid question is not empty, and starts the loop. -/
theorem askTutor_of_valid (idle : tutor.phase = .idle)
    (valid : Valid codec lesson (askTutor tutor message none) surroundings) :
    (Text.trim message).isEmpty = false ∧
      askTutor tutor message none = tutor.start (some (Text.trim message)) := by
  cases empty : (Text.trim message).isEmpty with
  | false => exact ⟨rfl, by simp [askTutor, idle, empty]⟩
  | true =>
      obtain ⟨turn, request, asking, -⟩ := valid
      simp [askTutor, idle, empty] at asking

/-- A valid question stays valid with its lesson exactly when the message with the slice
of the lesson fits, and the request after a response with calls is valid exactly when the
outputs fit. -/
theorem tutorRequests_valid_iff (codec : Codec) (lesson : Lesson) :
    (∀ (tutor : Tutor) (message : Text) (tutorial : Tutorial) (surroundings : Surroundings),
      tutor.phase = .idle → Valid codec lesson (askTutor tutor message none) surroundings →
        (Valid codec lesson (askTutor tutor message (some (.ok tutorial))) surroundings ↔
          LessonFits tutorial (Text.trim message))) ∧
    ∀ (tutor : Tutor) (turn : Turn) (actions : TutorToolCall → ToolActions) (state : StreamState)
      (surroundings : Surroundings), state.toolCalls ≠ [] → turn.index + 1 < 4 →
        (Valid codec lesson (tutor.proceed lesson turn actions state) surroundings ↔
          OutputsFit codec lesson turn actions state surroundings) := by
  constructor
  · intro tutor message tutorial surroundings idle valid
    obtain ⟨some_, question⟩ := askTutor_of_valid idle valid
    have taught : askTutor tutor message (some (.ok tutorial)) =
        tutor.start (tutorialMessage tutorial (Text.trim message)) := by
      simp [askTutor, idle, some_]
    rw [question] at valid
    rw [taught]
    exact valid_lesson_iff valid
  · intro tutor turn actions state surroundings calls more
    exact valid_proceed_iff calls more

end

/-- A question about a short lesson, and the output of one build. -/
theorem tutorRequests_valid_of_short :
    Valid runCodec runLesson (askTutor freshTutor "Why?".toList
      (some (.ok ⟨"Counter".toList, "source".toList, "A counter.".toList⟩))) runSurroundings ∧
    Valid runCodec runLesson (freshTutor.proceed runLesson ⟨0, none, none, none⟩
      (fun _ => runActions)
      ⟨some "resp_1".toList, some "resp_1".toList, [],
        [⟨"call_1".toList, "build_program".toList, .object []⟩]⟩) runSurroundings := by
  obtain ⟨question, followUp⟩ := tutorRequests_valid_iff runCodec runLesson
  constructor
  · have valid : Valid runCodec runLesson (askTutor freshTutor "Why?".toList none)
        runSurroundings := ⟨_, _, rfl, rfl, rfl⟩
    exact (question _ _ _ _ rfl valid).mpr ⟨_, rfl, by decide⟩
  · apply (followUp _ _ _ _ _ (List.cons_ne_nil _ _) (by decide)).mpr
    refine ⟨by decide, ?_, ?_, ?_, by decide, by decide, List.forall_mem_nil _⟩
    · intro tool member
      obtain rfl := List.mem_singleton.mp member
      decide
    · intro tool member
      obtain rfl := List.mem_singleton.mp member
      exact ⟨_, rfl, by decide⟩
    · rintro _ ⟨⟩
      decide

theorem utf8Length_replicate (count : Nat) (char : Char) :
    Text.utf8Length (List.replicate count char) = count * char.utf8Size := by
  simp [Text.utf8Length]

/-- A question of as many bytes as the server takes. -/
def longQuestion : Text := List.replicate 16384 'a'

/-- The headings make a question that is just not too long too long. -/
theorem tutorRequests_not_always_valid : ¬ ∀ (codec : Codec) (lesson : Lesson),
    (∀ (tutor : Tutor) (message : Text) (tutorial : Tutorial) (surroundings : Surroundings),
      tutor.phase = .idle → Valid codec lesson (askTutor tutor message none) surroundings →
        Valid codec lesson (askTutor tutor message (some (.ok tutorial))) surroundings) ∧
    ∀ (tutor : Tutor) (turn : Turn) (actions : TutorToolCall → ToolActions) (state : StreamState)
      (surroundings : Surroundings), state.toolCalls ≠ [] → turn.index + 1 < 4 →
        Valid codec lesson (tutor.proceed lesson turn actions state) surroundings := by
  intro always
  have trimmed : Text.trim longQuestion = longQuestion := by
    apply Text.trim_eq_self
    · rintro char ⟨⟩
      rfl
    · intro char last
      obtain rfl := List.eq_of_mem_replicate (List.mem_of_getLast? last)
      rfl
  have bytes : Text.utf8Length longQuestion = 16384 := utf8Length_replicate 16384 'a'
  have asks : (RustStr.trim longQuestion).isEmpty = false := RustStr.trim_cons_isEmpty rfl
  have question : askTutor freshTutor longQuestion none = freshTutor.start (some longQuestion) := by
    rw [askTutor, trimmed]
    rfl
  have valid : Valid runCodec runLesson (freshTutor.start (some longQuestion)) runSurroundings := by
    rw [valid_start_iff]
    refine ⟨?_, bytes.le, nofun, nofun, ?_, nofun, Nat.zero_le _, List.forall_mem_nil _⟩
    · intro empty
      exact absurd empty (by simp [asks])
    · rintro _ ⟨⟩
      decide
  have lesson := (always runCodec runLesson).1 freshTutor longQuestion
    ⟨"Counter".toList, "source".toList, []⟩ runSurroundings rfl (question ▸ valid)
  have taught : askTutor freshTutor longQuestion (some (.ok ⟨"Counter".toList, "source".toList, []⟩)) =
      freshTutor.start (tutorialMessage ⟨"Counter".toList, "source".toList, []⟩ longQuestion) := by
    rw [askTutor, trimmed]
    rfl
  rw [taught] at lesson
  obtain ⟨teaching, -, fits⟩ := (valid_lesson_iff valid).mp lesson
  rw [bytes, headingBytes, maxMessageBytes] at fits
  omega

end Solpg.Client.Learning
