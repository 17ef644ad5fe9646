import Solpg.Std.Outcome
import Solpg.Std.RustStr
import Solpg.Std.Text

/-!
# Requests of the tutor

`routes/learning/request.rs`: the checks that a tutor request has to pass and
the request to the model that is made from it. `ai_response` forwards only
validated requests, so `createInput` decides what a stored response is
continued with. `serde_json`'s printer is the parameter `render`.
-/

namespace Solpg.Server.Routes.Learning

open Solpg.Std

def maxWorkspaceFiles : Nat := 64
def maxFileContentBytes : Nat := 128 * 1024
def maxMessageBytes : Nat := 16 * 1024
def maxOutputTokens : Nat := 4096

structure WorkspaceFile where
  path : Text
  content : Text

structure ToolOutput where
  callId : Text
  output : Json

structure AiRequest where
  message : Text
  previousResponseId : Option Text
  workspace : List WorkspaceFile
  currentFile : Option Text
  selection : Option Text
  lessonId : Option Text
  runtime : Option Json
  toolOutputs : Option (List ToolOutput)

/-- One item of the `input` of a request to the model. -/
inductive InputItem where
  | functionCallOutput (callId output : Text)
  | user (text : Text)
  deriving DecidableEq, Repr

/-- The fields of the request to the model that depend on the caller or that
decide whether its response can be continued. -/
structure OpenAiRequest where
  model : Text
  input : List InputItem
  stream : Bool
  store : Bool
  maxOutputTokens : Nat
  safetyIdentifier : Text
  previousResponseId : Option Text
  deriving DecidableEq, Repr

section Create

variable (render : Json → Text)

def WorkspaceFile.toJson (file : WorkspaceFile) : Json :=
  .object [("path".toList, .string file.path), ("content".toList, .string file.content)]

def AiRequest.context (payload : AiRequest) : Json :=
  .object [("lesson".toList, .optional payload.lessonId),
    ("currentFile".toList, .optional payload.currentFile),
    ("selection".toList, .optional payload.selection),
    ("workspace".toList, .array (payload.workspace.map WorkspaceFile.toJson)),
    ("runtime".toList, payload.runtime.getD .null)]

/-- The tool outputs if there are any, or else the learner's message. -/
def createInput (payload : AiRequest) : List InputItem :=
  match payload.toolOutputs.filter fun items => !items.isEmpty with
  | some outputs =>
      outputs.map fun item => .functionCallOutput item.callId (render item.output)
  | none =>
      [.user (payload.message ++ "\n\n<playground_context>".toList ++ render payload.context ++
        "</playground_context>".toList)]

def createOpenAiRequest (payload : AiRequest) (model owner : Text) : OpenAiRequest where
  model := model
  input := createInput render payload
  stream := true
  store := true
  maxOutputTokens := maxOutputTokens
  safetyIdentifier := owner
  previousResponseId := payload.previousResponseId

def invalidWorkspaceFile (file : WorkspaceFile) : Bool :=
  let allowedPath := Text.startsWith file.path "src/".toList ||
    Text.startsWith file.path "tests/".toList
  !allowedPath || Text.includes file.path "..".toList || Text.includes file.path "//".toList ||
    256 < Text.utf8Length file.path || maxFileContentBytes < Text.utf8Length file.content

/-- `validate_ai_request`, with the texts of its errors. -/
def validateAiRequest (payload : AiRequest) : Except Text Unit := do
  Outcome.require
    (¬ ((RustStr.trim payload.message).isEmpty ∧ (payload.toolOutputs.map List.isEmpty).getD true))
    "Message cannot be empty".toList
  Outcome.require
    (¬ (maxMessageBytes < Text.utf8Length payload.message ∨
      (payload.selection.any fun selection => maxMessageBytes < Text.utf8Length selection) ∨
      (payload.previousResponseId.any fun id => 128 < Text.utf8Length id) ∨
      (payload.lessonId.any fun id => 64 < Text.utf8Length id) ∨
      (payload.toolOutputs.any fun outputs => 16 < outputs.length)))
    "Tutor request exceeds allowed limits".toList
  Outcome.require (payload.workspace.length ≤ maxWorkspaceFiles)
    "Workspace contains too many files".toList
  Outcome.require
    (¬ payload.toolOutputs.any fun outputs => outputs.any fun output =>
      128 < Text.utf8Length output.callId ||
        maxFileContentBytes < Text.utf8Length (render output.output))
    "Tutor tool output exceeds allowed limits".toList
  Outcome.require (¬ payload.workspace.any invalidWorkspaceFile)
    "Workspace file exceeds tutor limits".toList

end Create

/-- The input holds the output of the function call. -/
def InputItem.Answers (callId : Text) : InputItem → Prop
  | .functionCallOutput answered _ => answered = callId
  | .user _ => False

instance (callId : Text) : (item : InputItem) → Decidable (item.Answers callId)
  | .functionCallOutput answered _ => inferInstanceAs (Decidable (answered = callId))
  | .user _ => inferInstanceAs (Decidable False)

/-- What a request is accepted for. -/
structure Accepts (render : Json → Text) (payload : AiRequest) : Prop where
  asks : (RustStr.trim payload.message).isEmpty → (payload.toolOutputs.map List.isEmpty).getD true →
    False
  message : Text.utf8Length payload.message ≤ maxMessageBytes
  selection : ∀ selection, payload.selection = some selection →
    Text.utf8Length selection ≤ maxMessageBytes
  previous : ∀ id, payload.previousResponseId = some id → Text.utf8Length id ≤ 128
  lesson : ∀ id, payload.lessonId = some id → Text.utf8Length id ≤ 64
  outputs : ∀ outputs, payload.toolOutputs = some outputs → outputs.length ≤ 16 ∧
    ∀ output ∈ outputs, Text.utf8Length output.callId ≤ 128 ∧
      Text.utf8Length (render output.output) ≤ maxFileContentBytes
  files : payload.workspace.length ≤ maxWorkspaceFiles
  workspace : ∀ file ∈ payload.workspace, invalidWorkspaceFile file = false

variable {render : Json → Text}

theorem validateAiRequest_eq_ok {payload : AiRequest} :
    validateAiRequest render payload = .ok () ↔ Accepts render payload := by
  simp only [validateAiRequest, Outcome.bind_eq_ok, Outcome.require_eq_ok, not_or, not_and,
    Option.any_eq_true, List.any_eq_true, not_exists, Bool.or_eq_true, decide_eq_true_eq, not_lt]
  constructor
  · rintro ⟨asks, ⟨message, selection, previous, lesson, count⟩, files, outputs, workspace⟩
    refine ⟨asks, message, selection, previous, lesson, fun all given => ⟨count all given, ?_⟩,
      files, fun file member => Bool.eq_false_iff.mpr (workspace file member)⟩
    exact fun output member => outputs all given output member
  · intro accepts
    refine ⟨accepts.asks, ⟨accepts.message, accepts.selection, accepts.previous, accepts.lesson,
      fun all given => (accepts.outputs all given).1⟩, accepts.files, ?_,
      fun file member => Bool.eq_false_iff.mp (accepts.workspace file member)⟩
    exact fun all given output member => (accepts.outputs all given).2 output member

/-- A request with tool outputs answers exactly their calls. -/
theorem createInput_answers {payload : AiRequest} {outputs : List ToolOutput}
    (given : payload.toolOutputs = some outputs) (callId : Text) :
    (∃ item ∈ createInput render payload, item.Answers callId) ↔
      callId ∈ outputs.map ToolOutput.callId := by
  cases outputs with
  | nil =>
      obtain ⟨text, message⟩ : ∃ text, createInput render payload = [.user text] := by
        rw [createInput, given]
        exact ⟨_, rfl⟩
      simp [message, InputItem.Answers]
  | cons first rest =>
      simp only [createInput, given, Option.filter, List.isEmpty_cons, Bool.not_false, if_true,
        List.mem_map]
      constructor
      · rintro ⟨_, ⟨output, member, rfl⟩, answers⟩
        exact ⟨output, member, answers⟩
      · rintro ⟨output, member, rfl⟩
        exact ⟨_, ⟨output, member, rfl⟩, rfl⟩

end Solpg.Server.Routes.Learning
