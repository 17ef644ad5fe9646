import Solpg.Client.Learning.Api
import Solpg.Std.Machine

/-!
# The tutor's tool calls

`askTutor` of `learning/useTutor.ts`, in one workspace: the learner asks, and
up to four requests follow, each of which carries the outputs of the calls that
the response before it reported. The workspace's `previousResponseId` is
written when a response is announced, before anything is known of its calls.
-/

namespace Solpg.Client.Learning

open Solpg.Std
open Solpg.Server.Routes.Learning

/-- What the page tells of the tutorial that is open. -/
structure Tutorial where
  name : Text
  stage : Text
  teaching : Text

/-- `String.prototype.slice` from the start, which counts code units. What ends within a
character is not a text. -/
def slice (limit : Nat) : Text → Option Text
  | [] => some []
  | char :: rest =>
      let units := if char.toNat < 0x10000 then 1 else 2
      if limit = 0 then some []
      else if limit < units then none
      else (slice (limit - units) rest).map (char :: ·)

/-- The message about an imported tutorial. -/
def tutorialMessage (tutorial : Tutorial) (clean : Text) : Option Text :=
  (slice 16000 tutorial.teaching).map fun teaching =>
    List.intercalate "\n\n".toList
      ["You are teaching the imported tutorial “".toList ++ tutorial.name ++ "”.".toList,
        "The learner is at the ".toList ++ tutorial.stage ++ " stage.".toList,
        ("Use this authored tutorial context when answering, but do not repeat it unless it " ++
          "helps:").toList,
        teaching, "Learner question:".toList, clean]

/-- What the actions of a tool answer when they are called. -/
structure ToolActions where
  activeWorkspaceName : Text
  validateWorkspacePatch : Json → Except (Option Text) Unit
  runBuild : Except (Option Text) (Option Json)
  runDeploy : Except (Option Text) (Option Json)
  runInteraction : Json → Except (Option Text) (Option Json)

/-- `executeTool`, whose errors are an `error.message`. A tool of another name
falls out of the `switch` with `undefined`. -/
def executeTool (actions : ToolActions) (tool : TutorToolCall) (workspaceName : Text) :
    Except (Option Text) (Option Json) :=
  if tool.name = "propose_workspace_patch".toList then
    (actions.validateWorkspacePatch tool.arguments).map fun _ =>
      some (.string ("The proposed workspace patch is visible for learner review. It has not " ++
        "been applied.").toList)
  else if tool.name = "build_program".toList then
    if actions.activeWorkspaceName ≠ workspaceName then
      .error (some ("The learner switched workspaces. Ask them to return before starting this " ++
        "build.").toList)
    else actions.runBuild
  else if tool.name = "deploy_program".toList then
    if actions.activeWorkspaceName ≠ workspaceName then
      .error (some ("The learner switched workspaces. Ask them to return before deploying this " ++
        "program.").toList)
    else actions.runDeploy
  else if tool.name = "run_instruction".toList then
    if actions.activeWorkspaceName ≠ workspaceName then
      .error (some ("The learner switched workspaces. Ask them to return before running this " ++
        "instruction.").toList)
    else actions.runInteraction tool.arguments
  else .ok none

/-- An output that is `undefined` is left out of the JSON body. -/
structure ClientToolOutput where
  callId : Text
  output : Option Json

/-- One element of the next `toolOutputs`. -/
def toolOutput (actions : ToolActions) (workspaceName : Text) (tool : TutorToolCall) :
    ClientToolOutput where
  callId := tool.callId
  output :=
    match executeTool actions tool workspaceName with
    | .ok output => output
    | .error message =>
        some (.object [("error".toList, .string (message.getD "The action failed.".toList))])

/-- What `streamTutor` reads when it makes a request. -/
structure Surroundings where
  files : List (Text × Option Text)
  currentFile : Option Text
  runtime : Json

/-- The learner's files. -/
def Surroundings.workspace (surroundings : Surroundings) : List WorkspaceFile :=
  surroundings.files.filterMap fun (path, content) =>
    if Text.startsWith path "src/".toList || Text.startsWith path "tests/".toList then
      content.map (WorkspaceFile.mk path)
    else none

/-- One turn of the loop, before its request. A message that is not a text is `none`. -/
structure Turn where
  index : Nat
  responseId : Option Text
  toolOutputs : Option (List ClientToolOutput)
  nextMessage : Option Text

/-- A tool output without its `output` is not a `ToolOutput` of the server. -/
def ClientToolOutput.deserialize (output : ClientToolOutput) : Option ToolOutput :=
  output.output.map (ToolOutput.mk output.callId)

/-- The `toolOutputs` of the turn as the server reads them. -/
def Turn.readOutputs (turn : Turn) : Option (Option (List ToolOutput)) :=
  match turn.toolOutputs with
  | none => some none
  | some outputs => (outputs.mapM ClientToolOutput.deserialize).map some

/-- The request of the turn as the server reads it. -/
def Turn.request (turn : Turn) (lessonId : Option Text) (surroundings : Surroundings) :
    Option AiRequest :=
  turn.nextMessage.bind fun message => turn.readOutputs.map fun toolOutputs =>
    { message := message
      previousResponseId := turn.responseId
      workspace := surroundings.workspace
      currentFile := surroundings.currentFile
      selection := none
      lessonId := some (lessonId.getD "custom-program".toList)
      runtime := some surroundings.runtime
      toolOutputs := toolOutputs }

/-- How the services answer a request that is valid. `refused` is any response
that is not `ok`; `stream` is the body of a new response of the model. -/
inductive Reply where
  | unreachable (message : Text)
  | refused (text : Text)
  | empty
  | stream (id : Text) (body : EventStream.Body)
  deriving DecidableEq, Repr

/-- The answer to the turn's request, by `ai_response`. -/
def answer (codec : Codec) (request : Option AiRequest) (reply : Reply) : Response :=
  match reply, request.map (validateAiRequest codec.render) with
  | .unreachable message, _ => .unreachable message
  | _, none => .refused "Failed to deserialize the JSON body into the target type".toList
  | _, some (.error message) => .refused message
  | .refused text, some (.ok ()) => .refused text
  | .empty, some (.ok ()) => .empty
  | .stream _ body, some (.ok ()) => .stream body

/-- Whether the tutor waits for an answer. -/
inductive Phase where
  | idle
  | asking (turn : Turn)

/-- The tutor of one workspace. `sent` are the requests that reached the server
and `responses` the model's responses with the calls each of them emitted. -/
structure Tutor where
  previousResponseId : Option Text
  tutorText : Text
  phase : Phase
  sent : List OpenAiRequest
  responses : List (Text × List Text)

/-- A question of the learner, or a turn with the model. -/
inductive Step where
  | ask (message : Text) (tutorial : Option (Except Text Tutorial))
  | turn (surroundings : Surroundings) (reply : Reply) (actions : TutorToolCall → ToolActions)

/-- What stays the same while a lesson is open. -/
structure Lesson where
  workspaceName : Text
  lessonId : Option Text
  model : Text
  owner : Text

/-- The text of the tutor message after an error. -/
def errorText (message : Text) : Text :=
  if message.isEmpty then
    "The tutor could not respond. Your code and Surfpool are still safe.".toList
  else message

/-- Enter the loop with an empty tutor message. -/
def Tutor.start (tutor : Tutor) (nextMessage : Option Text) : Tutor :=
  { tutor with
    tutorText := []
    phase := .asking ⟨0, tutor.previousResponseId, none, nextMessage⟩ }

/-- `askTutor` up to its loop. -/
def askTutor (tutor : Tutor) (message : Text) (tutorial : Option (Except Text Tutorial)) : Tutor :=
  let clean := Text.trim message
  match tutor.phase with
  | .asking _ => tutor
  | .idle =>
      if clean.isEmpty then tutor
      else
        match tutorial with
        | none => tutor.start (some clean)
        | some (.ok tutorial) => tutor.start (tutorialMessage tutorial clean)
        | some (.error message) => { tutor with tutorText := errorText message }

/-- The calls that the reply's response emits, if there is one. -/
def Reply.response (codec : Codec) (reply : Reply) : Option (Text × List Text) :=
  match reply with
  | .stream id body =>
      some (id, (codec.toolCalls body.events).map TutorToolCall.callId)
  | _ => none

/-- The response that the turn's request creates. -/
def Turn.response (turn : Turn) (codec : Codec) (lesson : Lesson) (surroundings : Surroundings)
    (reply : Reply) : Option (Text × List Text) :=
  match answer codec (turn.request lesson.lessonId surroundings) reply with
  | .stream _ => reply.response codec
  | _ => none

/-- The request goes out and the model may emit a response. -/
def Tutor.send (tutor : Tutor) (codec : Codec) (lesson : Lesson) (turn : Turn)
    (surroundings : Surroundings) (reply : Reply) : Tutor :=
  { tutor with
    sent := tutor.sent ++ ((turn.request lesson.lessonId surroundings).map fun payload =>
      createOpenAiRequest codec.render payload lesson.model lesson.owner).toList
    responses := tutor.responses ++ (turn.response codec lesson surroundings reply).toList }

/-- The `catch` and `finally` blocks. -/
def Tutor.caught (tutor : Tutor) (message : Text) (state : StreamState) : Tutor :=
  { tutor with
    previousResponseId := state.previousResponseId
    tutorText := errorText message
    phase := .idle }

/-- The rest of a turn whose stream ended: the tools run and the loop goes on,
unless there are none or this was the fourth turn. -/
def Tutor.proceed (tutor : Tutor) (lesson : Lesson) (turn : Turn)
    (actions : TutorToolCall → ToolActions) (state : StreamState) : Tutor :=
  let responseId := state.createdResponseId <|> turn.responseId
  let toolOutputs := state.toolCalls.map fun tool =>
    toolOutput (actions tool) lesson.workspaceName tool
  { tutor with
    previousResponseId := state.previousResponseId
    tutorText := state.text
    phase :=
      if state.toolCalls.isEmpty then .idle
      else if turn.index + 1 < 4 then .asking ⟨turn.index + 1, responseId, some toolOutputs, some []⟩
      else .idle }

/-- One turn of the loop of `askTutor`. -/
def takeTurn (codec : Codec) (lesson : Lesson) (tutor : Tutor) (turn : Turn)
    (surroundings : Surroundings) (reply : Reply) (actions : TutorToolCall → ToolActions) :
    Tutor :=
  let sent := tutor.send codec lesson turn surroundings reply
  let response := answer codec (turn.request lesson.lessonId surroundings) reply
  match streamTutor codec response ⟨none, tutor.previousResponseId, tutor.tutorText, []⟩ with
  | .error (message, state) => sent.caught message state
  | .ok state => sent.proceed lesson turn actions state

/-- The model's service gives every response a new id and announces no other
id in its stream. -/
def Reply.New (codec : Codec) (responses : List (Text × List Text)) : Reply → Prop
  | .stream id body => id ∉ responses.map Prod.fst ∧
      ∀ event ∈ body.events, codec.createdId event = none ∨ codec.createdId event = some id
  | _ => True

instance (codec : Codec) (responses : List (Text × List Text)) :
    (reply : Reply) → Decidable (reply.New codec responses)
  | .stream id body => inferInstanceAs (Decidable (id ∉ responses.map Prod.fst ∧
      ∀ event ∈ body.events, codec.createdId event = none ∨ codec.createdId event = some id))
  | .unreachable _ => inferInstanceAs (Decidable True)
  | .refused _ => inferInstanceAs (Decidable True)
  | .empty => inferInstanceAs (Decidable True)

/-- Any number of calls of `askTutor` in one workspace. -/
def tutorMachine (codec : Codec) (lesson : Lesson) : Machine Tutor Step where
  Initial tutor := tutor.previousResponseId = none ∧ tutor.phase = .idle ∧ tutor.sent = [] ∧
    tutor.responses = []
  next tutor step :=
    match step, tutor.phase with
    | .ask message tutorial, _ => some (askTutor tutor message tutorial)
    | .turn surroundings reply actions, .asking turn =>
        if reply.New codec tutor.responses then
          some (takeTurn codec lesson tutor turn surroundings reply actions)
        else none
    | .turn _ _ _, .idle => none

/-- The calls that the response emitted. -/
def callsOf (responses : List (Text × List Text)) (id : Text) : List Text :=
  (responses.filter fun response => response.1 = id).flatMap Prod.snd

/-- The request's input holds the outputs of the calls. -/
def AnswersAll (request : OpenAiRequest) (calls : List Text) : Prop :=
  ∀ callId ∈ calls, ∃ item ∈ request.input, item.Answers callId

/-- A request that continues a response answers its calls, and the response
that the next message continues has had its calls answered. -/
structure Answered (tutor : Tutor) : Prop where
  requests : ∀ request ∈ tutor.sent, ∀ id, request.previousResponseId = some id →
    AnswersAll request (callsOf tutor.responses id)
  stored : tutor.phase = .idle → ∀ id, tutor.previousResponseId = some id →
    ∀ callId ∈ callsOf tutor.responses id, ∃ request ∈ tutor.sent,
      request.previousResponseId = some id ∧ ∃ item ∈ request.input, item.Answers callId

/-- The calls of the response that would be continued. -/
def openCalls (responses : List (Text × List Text)) : Option Text → List Text
  | none => []
  | some id => callsOf responses id

/-- When a turn keeps the stored id answerable: a response that announces its
id emits no calls, or it ends well and another turn follows; and if none is
announced, the turn continues a response without calls. -/
def keepsAnswered (codec : Codec) (lesson : Lesson) (tutor : Tutor) (step : Step) : Bool :=
  match step, tutor.phase with
  | .turn surroundings reply _, .asking turn =>
      match answer codec (turn.request lesson.lessonId surroundings) reply with
      | .stream body =>
          if codec.announces body.events then
            (codec.toolCalls body.events).isEmpty || (!codec.fails body && turn.index < 3)
          else (openCalls tutor.responses turn.responseId).isEmpty
      | _ => (openCalls tutor.responses turn.responseId).isEmpty
  | _, _ => true

/-! ## The guarded runs -/

section Guarded

variable {codec : Codec} {lesson : Lesson} {tutor : Tutor} {turn : Turn}
  {surroundings : Surroundings} {reply : Reply} {actions : TutorToolCall → ToolActions}

/-- The ids of the log are those of its responses, and the calls of the
response that the loop continues are among the outputs it holds. -/
structure Continues (tutor : Tutor) : Prop where
  requests : ∀ request ∈ tutor.sent, ∀ id, request.previousResponseId = some id →
    id ∈ tutor.responses.map Prod.fst ∧ AnswersAll request (callsOf tutor.responses id)
  stored : ∀ id, tutor.previousResponseId = some id → id ∈ tutor.responses.map Prod.fst
  idle : tutor.phase = .idle → openCalls tutor.responses tutor.previousResponseId = []
  asking : ∀ turn, tutor.phase = .asking turn → turn.responseId = tutor.previousResponseId ∧
    ∀ callId ∈ openCalls tutor.responses tutor.previousResponseId,
      ∃ outputs, turn.toolOutputs = some outputs ∧
        callId ∈ outputs.map ClientToolOutput.callId

/-- A response stays in the log. -/
theorem known_send {id : Text} (known : id ∈ tutor.responses.map Prod.fst) :
    id ∈ (tutor.send codec lesson turn surroundings reply).responses.map Prod.fst := by
  simp only [Tutor.send, List.map_append, List.mem_append]
  exact .inl known

/-- Emitting a new response changes no earlier one. -/
theorem callsOf_send {id : Text} (new : reply.New codec tutor.responses)
    (known : id ∈ tutor.responses.map Prod.fst) :
    callsOf (tutor.send codec lesson turn surroundings reply).responses id =
      callsOf tutor.responses id := by
  simp only [callsOf, Tutor.send, Turn.response]
  cases answer codec (turn.request lesson.lessonId surroundings) reply with
  | stream body =>
      cases reply with
      | stream fresh body =>
          have different : fresh ≠ id := fun same => new.1 (same ▸ known)
          simp [Reply.response, different]
      | _ => simp [Reply.response]
  | _ => simp

/-- The new response has the calls it reports. -/
theorem callsOf_new {fresh : Text} {body : EventStream.Body}
    (new : (Reply.stream fresh body).New codec tutor.responses)
    (arrived : answer codec (turn.request lesson.lessonId surroundings) (.stream fresh body) =
      .stream body) :
    callsOf (tutor.send codec lesson turn surroundings (.stream fresh body)).responses fresh =
      (codec.toolCalls body.events).map TutorToolCall.callId := by
  have others : tutor.responses.filter (fun response => response.1 = fresh) = [] := by
    rw [List.filter_eq_nil_iff]
    intro response member same
    exact new.1 (List.mem_map.mpr ⟨response, member, by simpa using same⟩)
  simp [callsOf, Tutor.send, Turn.response, arrived, Reply.response, others]

/-- The request of a turn holds the outputs that the turn holds. -/
theorem request_answers {payload : AiRequest} {outputs : List ClientToolOutput}
    (made : turn.request lesson.lessonId surroundings = some payload)
    (held : turn.toolOutputs = some outputs) {callId : Text}
    (among : callId ∈ outputs.map ClientToolOutput.callId) :
    ∃ item ∈ createInput codec.render payload, item.Answers callId := by
  simp only [Turn.request, Turn.readOutputs, held, Option.bind_eq_some_iff, Option.map_map,
    Option.map_eq_some_iff] at made
  obtain ⟨message, -, read, deserialized, rfl⟩ := made
  have callIds : read.map ToolOutput.callId = outputs.map ClientToolOutput.callId := by
    clear held among
    induction outputs generalizing read with
    | nil =>
        cases deserialized
        rfl
    | cons first rest ih =>
        simp only [List.mapM_cons, Option.bind_eq_bind, Option.bind_eq_some_iff] at deserialized
        obtain ⟨output, firstRead, others, restRead, same⟩ := deserialized
        cases same
        obtain ⟨value, -, rfl⟩ := Option.map_eq_some_iff.mp firstRead
        simp [ih others restRead]
  exact (createInput_answers rfl callId).mpr (callIds ▸ among)

/-- Sending the turn's request keeps the log as it should be. -/
theorem Continues.send (continues : Continues tutor) (asking : tutor.phase = .asking turn)
    (new : reply.New codec tutor.responses) :
    let after := tutor.send codec lesson turn surroundings reply
    ∀ request ∈ after.sent, ∀ id, request.previousResponseId = some id →
      id ∈ after.responses.map Prod.fst ∧ AnswersAll request (callsOf after.responses id) := by
  intro after request member id continued
  obtain ⟨same, held⟩ := continues.asking turn asking
  rcases List.mem_append.mp member with before | now
  · obtain ⟨known, answers⟩ := continues.requests request before id continued
    exact ⟨known_send known, callsOf_send new known ▸ answers⟩
  · obtain ⟨payload, made, rfl⟩ : ∃ payload, turn.request lesson.lessonId surroundings = some payload ∧
        createOpenAiRequest codec.render payload lesson.model lesson.owner = request := by
      simpa using now
    have previous : turn.responseId = some id := by
      obtain ⟨_, -, made⟩ := Option.bind_eq_some_iff.mp made
      obtain ⟨_, -, rfl⟩ := Option.map_eq_some_iff.mp made
      exact continued
    have known := continues.stored id (same ▸ previous)
    refine ⟨known_send known, ?_⟩
    rw [callsOf_send new known]
    intro callId emitted
    rw [← same, previous] at held
    obtain ⟨outputs, given, among⟩ := held callId emitted
    exact request_answers made given among

/-- An answer that is not a stream is no answer of the model. -/
theorem answer_stream {request : Option AiRequest} {body : EventStream.Body}
    (arrived : answer codec request reply = .stream body) : ∃ id, reply = .stream id body := by
  unfold answer at arrived
  split at arrived <;> simp_all

/-- The calls that can still be continued after a turn with a stream. -/
theorem openCalls_after {fresh : Text} {body : EventStream.Body} (continues : Continues tutor)
    (new : (Reply.stream fresh body).New codec tutor.responses)
    (arrived : answer codec (turn.request lesson.lessonId surroundings) (.stream fresh body) =
      .stream body) :
    openCalls (tutor.send codec lesson turn surroundings (.stream fresh body)).responses
        (if codec.announces body.events then some fresh else tutor.previousResponseId) =
      if codec.announces body.events then
        (codec.toolCalls body.events).map TutorToolCall.callId
      else openCalls tutor.responses tutor.previousResponseId := by
  by_cases announced : codec.announces body.events
  · simp only [announced, if_true]
    exact callsOf_new new arrived
  · simp only [announced, Bool.false_eq_true, if_false]
    cases stored : tutor.previousResponseId with
    | none => rfl
    | some id => exact callsOf_send new (continues.stored id stored)

/-- The stored id after a turn with a stream is that of a response. -/
theorem known_after {fresh id : Text} {body : EventStream.Body} (continues : Continues tutor)
    (arrived : answer codec (turn.request lesson.lessonId surroundings) (.stream fresh body) =
      .stream body)
    (stored : (if codec.announces body.events then some fresh else tutor.previousResponseId) =
      some id) :
    id ∈ (tutor.send codec lesson turn surroundings (.stream fresh body)).responses.map
      Prod.fst := by
  by_cases announced : codec.announces body.events
  · simp only [announced, if_true, Option.some.injEq] at stored
    subst stored
    simp [Tutor.send, Turn.response, arrived, Reply.response]
  · simp only [announced, Bool.false_eq_true, if_false] at stored
    exact known_send (continues.stored id stored)

/-- A turn without a stream stores nothing. -/
theorem Continues.failedTurn (continues : Continues tutor) (asking : tutor.phase = .asking turn)
    (new : reply.New codec tutor.responses) {message : Text}
    (noCalls : openCalls tutor.responses turn.responseId = []) :
    Continues ((tutor.send codec lesson turn surroundings reply).caught message
      ⟨none, tutor.previousResponseId, tutor.tutorText, []⟩) where
  requests := continues.send asking new
  stored id stored := known_send (continues.stored id stored)
  idle _ := by
    rw [(continues.asking turn asking).1] at noCalls
    change openCalls (tutor.send codec lesson turn surroundings reply).responses
      tutor.previousResponseId = []
    cases stored : tutor.previousResponseId with
    | none => rfl
    | some id =>
        rw [stored] at noCalls
        exact (callsOf_send new (continues.stored id stored)).trans noCalls
  asking _ impossible := by cases impossible

/-- One guarded turn. -/
theorem Continues.takeTurn (continues : Continues tutor) (asking : tutor.phase = .asking turn)
    (new : reply.New codec tutor.responses)
    (kept : keepsAnswered codec lesson tutor (.turn surroundings reply actions) = true) :
    Continues (takeTurn codec lesson tutor turn surroundings reply actions) := by
  have same := (continues.asking turn asking).1
  simp only [keepsAnswered, asking] at kept
  cases arrived : answer codec (turn.request lesson.lessonId surroundings) reply with
  | unreachable message =>
      simp only [arrived, List.isEmpty_iff] at kept
      simpa only [Learning.takeTurn, arrived, streamTutor] using continues.failedTurn asking new kept
  | refused text =>
      simp only [arrived, List.isEmpty_iff] at kept
      simpa only [Learning.takeTurn, arrived, streamTutor] using continues.failedTurn asking new kept
  | empty =>
      simp only [arrived, List.isEmpty_iff] at kept
      simpa only [Learning.takeTurn, arrived, streamTutor] using continues.failedTurn asking new kept
  | stream body =>
      obtain ⟨fresh, rfl⟩ := answer_stream arrived
      have named : codec.Of body.events fresh := by
        intro event member created found
        rcases new.2 event member with none | this
        · simp [none] at found
        · simpa [this] using found.symm
      simp only [arrived, same] at kept
      have calls := openCalls_after continues new arrived
      have known : ∀ id, _ := fun id => @known_after _ _ _ _ _ _ id _ continues arrived
      have requests : ∀ request ∈ _, _ := @Continues.send _ lesson _ _ surroundings _ continues asking new
      have read := streamTutor_spec named
        ⟨none, tutor.previousResponseId, tutor.tutorText, []⟩
      cases result : streamTutor codec (.stream body)
          ⟨none, tutor.previousResponseId, tutor.tutorText, []⟩ with
      | error error =>
          rw [result] at read
          obtain ⟨fails, announced⟩ := read
          have shape : Learning.takeTurn codec lesson tutor turn surroundings (.stream fresh body)
              actions = (tutor.send codec lesson turn surroundings (.stream fresh body)).caught
                error.1 error.2 := by
            simp only [Learning.takeTurn, arrived, result]
          rw [shape]
          refine ⟨requests, fun id found => known id (announced.stored ▸ found), fun _ => ?_,
            fun _ impossible => by cases impossible⟩
          refine (congrArg _ announced.stored).trans (calls.trans ?_)
          by_cases announces : codec.announces body.events <;> simp_all
      | ok after =>
          rw [result] at read
          obtain ⟨ended, announced, reported⟩ := read
          have shape : Learning.takeTurn codec lesson tutor turn surroundings (.stream fresh body)
              actions = (tutor.send codec lesson turn surroundings (.stream fresh body)).proceed
                lesson turn actions after := by
            simp only [Learning.takeTurn, arrived, result]
          rw [shape]
          have stored := announced.stored
          have created := announced.created
          simp only [List.nil_append] at reported
          refine ⟨requests, fun id found => known id (stored ▸ found), fun idle => ?_,
            fun next asks => ?_⟩
          · have last : after.toolCalls = [] ∨ ¬ turn.index + 1 < 4 := by
              by_contra more
              obtain ⟨some, fewer⟩ := not_or.mp more
              simp [Tutor.proceed, some, not_not.mp fewer] at idle
            refine (congrArg _ stored).trans (calls.trans ?_)
            by_cases announces : codec.announces body.events
            · simp only [announces, if_true, ended, Bool.not_false, Bool.true_and,
                Bool.or_eq_true, List.isEmpty_iff, decide_eq_true_eq] at kept ⊢
              rcases last with none | full
              · simp [← reported, none]
              · rcases kept with none | fewer
                · simp [none]
                · omega
            · simpa [announces] using kept
          · have more : after.toolCalls ≠ [] ∧ turn.index + 1 < 4 := by
              constructor
              · intro none
                simp [Tutor.proceed, none] at asks
              · by_contra full
                simp [Tutor.proceed, full] at asks
            simp only [Tutor.proceed, List.isEmpty_iff, more.1, if_false, more.2, if_true,
              Phase.asking.injEq] at asks
            subst asks
            refine ⟨?_, fun callId emitted => ⟨_, rfl, ?_⟩⟩
            · change (after.createdResponseId <|> turn.responseId) = after.previousResponseId
              rw [created, stored, same]
              by_cases announces : codec.announces body.events <;> simp [announces]
            · have emitted := (congrArg _ stored).trans calls ▸ emitted
              by_cases announces : codec.announces body.events
              · simpa [announces, reported, toolOutput] using emitted
              · simp_all

/-- A question keeps the ledger of calls. -/
theorem Continues.ask (continues : Continues tutor) (message : Text)
    (tutorial : Option (Except Text Tutorial)) :
    Continues (askTutor tutor message tutorial) := by
  have started : tutor.phase = .idle → ∀ nextMessage, Continues (tutor.start nextMessage) := by
    intro idle nextMessage
    refine ⟨continues.requests, continues.stored, nofun, ?_⟩
    rintro turn asks
    cases asks
    refine ⟨rfl, fun callId emitted => ?_⟩
    have none : openCalls tutor.responses tutor.previousResponseId = [] := continues.idle idle
    exact absurd (none ▸ emitted) List.not_mem_nil
  unfold askTutor
  cases phase : tutor.phase with
  | asking turn => exact continues
  | idle =>
      dsimp only
      by_cases empty : (Text.trim message).isEmpty
      · rw [if_pos empty]
        exact continues
      · rw [if_neg empty]
        rcases tutorial with _ | error | tutorial
        · exact started phase _
        · refine ⟨continues.requests, continues.stored, fun _ => continues.idle phase, ?_⟩
          intro turn asks
          change Phase.idle = Phase.asking turn at asks
          cases asks
        · exact started phase _

/-- A step that answers all calls keeps the ledger. -/
theorem Continues.step {step : Step} {next : Tutor} (continues : Continues tutor)
    (stepped : ((tutorMachine codec lesson).restrict (keepsAnswered codec lesson)).next tutor step =
      some next) : Continues next := by
  obtain ⟨kept, stepped⟩ := Machine.restrict_next_eq_some.mp stepped
  cases step with
  | ask message tutorial =>
      cases stepped
      exact continues.ask message tutorial
  | turn surroundings reply actions =>
      cases phase : tutor.phase with
      | idle => simp [tutorMachine, phase] at stepped
      | asking turn =>
          simp only [tutorMachine, phase, Option.ite_none_right_eq_some, Option.some.injEq] at stepped
          obtain ⟨new, rfl⟩ := stepped
          exact continues.takeTurn phase new kept

/-- With the ledger every call is answered in the next request. -/
theorem Continues.answered (continues : Continues tutor) : Answered tutor where
  requests request member id continued := (continues.requests request member id continued).2
  stored idle id stored callId emitted := by
    have none : openCalls tutor.responses tutor.previousResponseId = [] := continues.idle idle
    rw [stored] at none
    change callsOf tutor.responses id = [] at none
    exact absurd (none ▸ emitted) List.not_mem_nil

end Guarded

/-- In every run whose turns keep the stored id answerable, a request that
continues a response answers the calls of that response. -/
theorem answered_of_guarded (codec : Codec) (lesson : Lesson) {tutor : Tutor}
    (reachable : ((tutorMachine codec lesson).restrict (keepsAnswered codec lesson)).Reachable
      tutor) : Answered tutor := by
  obtain ⟨start, steps, ⟨stored, idle, sent, responses⟩, ran⟩ := reachable
  have initial : Continues start := by
    refine ⟨?_, ?_, fun _ => ?_, ?_⟩
    · simp [sent]
    · simp [stored]
    · rw [stored]
      rfl
    · simp [idle]
  exact (Machine.run_preserves Continues Continues.step initial ran).answered

/-! ## A stream that fails after a call -/

/-- The event that announces a response. -/
def createdData (id : Text) : Text :=
  "\x7b\"type\":\"response.created\",\"response\":\x7b\"id\":\"".toList ++ id ++ "\"\x7d\x7d".toList

/-- The event of a call to build the program. -/
def callData (callId : Text) : Text :=
  ("\x7b\"type\":\"response.output_item.done\",\"item\":\x7b\"type\":\"function_call\",\"call_id\":" ++
    "\"").toList ++ callId ++ "\",\"name\":\"build_program\",\"arguments\":\"\x7b\x7d\"\x7d\x7d".toList

/-- The event of a failed response. -/
def errorData : Text :=
  "\x7b\"type\":\"error\",\"error\":\x7b\"message\":\"The server had an error\"\x7d\x7d".toList

/-- JSON on the texts of the two runs below. -/
def runCodec : Codec where
  decode data :=
    if data = createdData "resp_1".toList then .ok (.created (some "resp_1".toList))
    else if data = createdData "resp_2".toList then .ok (.created (some "resp_2".toList))
    else if data = callData "call_1".toList then
      .ok (.outputItemDone
        (.functionCall "call_1".toList "build_program".toList (some "\x7b\x7d".toList)))
    else if data = errorData then .ok (.error (some ⟨none, some "The server had an error".toList⟩))
    else .error "Unexpected token".toList
  parse text := if text = "\x7b\x7d".toList then some (.object []) else none
  render
    | .string text => '"' :: text ++ ['"']
    | _ => ("\x7b\"currentFile\":null,\"lesson\":\"hello-solana\",\"runtime\":\x7b\x7d," ++
        "\"selection\":null,\"workspace\":[]\x7d").toList

/-- A lesson to run the examples in. -/
def runLesson : Lesson where
  workspaceName := "hello-solana".toList
  lessonId := some "hello-solana".toList
  model := "gpt-5".toList
  owner := "owner".toList

/-- The page around it, without files. -/
def runSurroundings : Surroundings where
  files := []
  currentFile := none
  runtime := .object []

/-- Actions that all succeed. -/
def runActions : ToolActions where
  activeWorkspaceName := "hello-solana".toList
  validateWorkspacePatch _ := .ok ()
  runBuild := .ok (some (.string "Build finished.".toList))
  runDeploy := .ok (some (.string "Deployed.".toList))
  runInteraction _ := .ok (some (.string "Done.".toList))

/-- A turn whose stream brings these events. -/
def streamTurn (id : Text) (events : List Text) : Step :=
  .turn runSurroundings
    (.stream id ⟨events.map fun data => "data: ".toList ++ data ++ "\n\n".toList, .closed []⟩)
    fun _ => runActions

/-- A tutor that was asked nothing yet. -/
def freshTutor : Tutor := ⟨none, [], .idle, [], []⟩

/-- The learner asks, the stream fails after a call, and the learner asks again. -/
def failedRun : List Step :=
  [.ask "Build it".toList none,
    streamTurn "resp_1".toList
      [createdData "resp_1".toList, callData "call_1".toList, errorData],
    .ask "Why?".toList none, .turn runSurroundings (.refused "limit".toList) fun _ => runActions]

/-- The requests of a run: what each continues and which calls it answers. -/
def sentIds (tutor : Tutor) : List (Option Text × List Text) :=
  tutor.sent.map fun request => (request.previousResponseId, request.input.filterMap fun item =>
    match item with
    | .functionCallOutput callId _ => some callId
    | .user _ => none)

/-- What was sent after a failed response: no call is answered. -/
theorem failedRun_sent :
    ((tutorMachine runCodec runLesson).run freshTutor failedRun).map sentIds =
      some [(none, []), (some "resp_1".toList, [])] := by
  decide +kernel

/-- The failed response has a call. -/
theorem failedRun_calls :
    ((tutorMachine runCodec runLesson).run freshTutor failedRun).map
      (fun tutor => callsOf tutor.responses "resp_1".toList) = some ["call_1".toList] := by
  decide +kernel

/-- A request that continues a response answers its calls. -/
theorem sentIds_answers {tutor : Tutor} {id callId : Text} {answered : List Text}
    (listed : (some id, answered) ∈ sentIds tutor) (answers : Answered tutor)
    (emitted : callId ∈ callsOf tutor.responses id) : callId ∈ answered := by
  obtain ⟨request, member, same⟩ := List.mem_map.mp listed
  obtain ⟨continued, rfl⟩ := Prod.mk.inj same
  obtain ⟨item, inInput, itemAnswers⟩ := answers.requests request member id continued callId emitted
  refine List.mem_filterMap.mpr ⟨item, inInput, ?_⟩
  cases item with
  | functionCallOutput given output =>
      cases itemAnswers
      rfl
  | user text => exact itemAnswers.elim

/-- A stored response whose call was never answered is continued. -/
theorem not_always_answered :
    ∃ codec lesson tutor, (tutorMachine codec lesson).Reachable tutor ∧ ¬ Answered tutor := by
  obtain ⟨tutor, ran, sent⟩ := Option.map_eq_some_iff.mp failedRun_sent
  have calls : callsOf tutor.responses "resp_1".toList = ["call_1".toList] := by
    have emitted := failedRun_calls
    rw [ran] at emitted
    exact Option.some.inj emitted
  refine ⟨runCodec, runLesson, tutor, ⟨freshTutor, failedRun, ⟨rfl, rfl, rfl, rfl⟩, ran⟩, ?_⟩
  intro answered
  have listed : (some "resp_1".toList, []) ∈ sentIds tutor := by simp [sent]
  have emitted : "call_1".toList ∈ callsOf tutor.responses "resp_1".toList := by
    rw [calls]
    exact List.mem_singleton_self _
  exact absurd (sentIds_answers listed answered emitted) List.not_mem_nil

/-- The learner asks, the tutor builds and then explains. -/
def buildRun : List Step :=
  [.ask "Build it".toList none,
    streamTurn "resp_1".toList [createdData "resp_1".toList, callData "call_1".toList],
    streamTurn "resp_2".toList [createdData "resp_2".toList]]

/-- What was sent after a build: its call is answered. -/
theorem buildRun_sent :
    (((tutorMachine runCodec runLesson).restrict (keepsAnswered runCodec runLesson)).run freshTutor
      buildRun).map sentIds =
      some [(none, []), (some "resp_1".toList, ["call_1".toList])] := by
  decide +kernel

/-- A run whose calls are all answered. -/
theorem answered_of_buildRun :
    ∃ tutor, sentIds tutor = [(none, []), (some "resp_1".toList, ["call_1".toList])] ∧
      Answered tutor := by
  obtain ⟨tutor, ran, sent⟩ := Option.map_eq_some_iff.mp buildRun_sent
  exact ⟨tutor, sent, answered_of_guarded runCodec runLesson
    ⟨freshTutor, buildRun, ⟨rfl, rfl, rfl, rfl⟩, ran⟩⟩

end Solpg.Client.Learning
