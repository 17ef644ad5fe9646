import Solpg.Client.Learning.LearningWorkspace
import Solpg.Client.Utils.Explorer.State
import Solpg.Std.Outcome

/-!
# Stored workspace states

`workspace-state.ts`: the states of all workspaces are stored as one JSON object and read back
when the page is loaded. What is read is not checked below the lists of an entry. `JSON.stringify`
and `JSON.parse` are inverse on plain data, so the storage holds JSON values.
-/

namespace Solpg.Client.Learning

open Solpg.Std Solpg.Client.Utils

/-- `!!value`. A number is zero if the digits before its exponent are. -/
def truthy : Option Json → Bool
  | none | some .null => false
  | some (.bool value) => value
  | some (.number text) =>
      (text.takeWhile fun char => char ≠ 'e' && char ≠ 'E').any fun char => char.isDigit && char ≠ '0'
  | some (.string text) => !text.isEmpty
  | some (.array _) | some (.object _) => true

/-- `slice(-count)`. -/
def lastOf {α : Type} (count : Nat) (items : List α) : List α := items.drop (items.length - count)

/-- The parts of a state as plain data; an optional part is undefined or `null` if there is none. -/
structure WorkspaceLearningState where
  messages : List Json
  previousResponseId : Option Text
  patch : Json
  undoFiles : Option (List Json)
  events : List Json
  terminalLines : List Json
  programStage : ProgramStage
  chainAction : Option ChainAction
  experimentDismissed : Bool

/-- The learning states under the names of their workspaces. -/
abbrev WorkspaceLearningStates := List (Text × WorkspaceLearningState)

/-- A stage as it is stored. -/
def ProgramStage.toJson : ProgramStage → Json
  | .source => .string "source".toList
  | .built => .string "built".toList
  | .deployed => .string "deployed".toList

/-! ## Reading -/

/-- `event.status !== "working"`. -/
def isSettled (event : Json) : Except JsError Bool :=
  match event with
  | .null => .error (.ofMessage "Cannot read properties of null (reading 'status')")
  | event =>
      match Json.property event "status" with
      | some (.string status) => .ok (status ≠ "working".toList)
      | _ => .ok true

/-- The filter of `readEntry`, which throws at an event that is `null`. -/
def settledEvents : List Json → Except JsError (List Json)
  | [] => .ok []
  | event :: rest => do
      let settled ← isSettled event
      let others ← settledEvents rest
      .ok (if settled then event :: others else others)

/-- The list under a key, if it is one. -/
def listProperty (value : Json) (key : String) : Option (List Json) :=
  match Json.property value key with
  | some (.array items) => some items
  | _ => none

/-- `programStage` of a stored entry; whatever is unknown counts as source. -/
def readStage (value : Json) : ProgramStage :=
  match Json.property value "programStage" with
  | some (.string stage) =>
      if stage = "built".toList then .built
      else if stage = "deployed".toList then .deployed else .source
  | _ => .source

/-- An entry that has no list of messages is left out. -/
def readEntry (entry : Text × Json) : Except JsError WorkspaceLearningStates :=
  match listProperty entry.2 "messages" with
  | none => .ok []
  | some messages => do
      let events ← settledEvents ((listProperty entry.2 "events").getD [])
      .ok [(entry.1, {
        messages := lastOf 50 messages
        previousResponseId := match Json.property entry.2 "previousResponseId" with
          | some (.string id) => some id
          | _ => none
        patch := (Json.property entry.2 "patch").getD .null
        undoFiles := listProperty entry.2 "undoFiles"
        events := events.take 8
        terminalLines := lastOf 300 ((listProperty entry.2 "terminalLines").getD [])
        programStage := readStage entry.2
        chainAction := none
        experimentDismissed := truthy (Json.property entry.2 "experimentDismissed") })]

/-- `readWorkspaceLearningStates` behind `JSON.parse`. -/
def parseStates (parsed : Json) : Except JsError WorkspaceLearningStates :=
  match parsed with
  | .object fields => (fields.mapM readEntry).map List.flatten
  | _ => .ok []

/-- What the storage holds under the key, as `JSON.parse` reads it. -/
inductive Stored where
  | missing
  | unreadable
  | json (value : Json)

/-- Everything is under one `try`. -/
def readWorkspaceLearningStates (stored : Stored) : WorkspaceLearningStates :=
  match stored with
  | .missing => []
  | .unreadable => []
  | .json parsed =>
      match parseStates parsed with
      | .ok states => states
      | .error _ => []

/-! ## Writing -/

/-- `serializableWorkspaceStates` of one entry: the last messages, events and lines, and no
action. -/
def WorkspaceLearningState.serializable (state : WorkspaceLearningState) : WorkspaceLearningState :=
  { state with
    messages := lastOf 50 state.messages
    events := state.events.take 8
    terminalLines := lastOf 300 state.terminalLines
    chainAction := none }

/-- The smaller state that is stored when the first did not fit. -/
def WorkspaceLearningState.compact (state : WorkspaceLearningState) : WorkspaceLearningState :=
  { state with terminalLines := [], undoFiles := none, messages := lastOf 20 state.messages }

/-- A chain action as it is stored. -/
def ChainAction.toJson : ChainAction → Json
  | .build => .string "build".toList
  | .deploy => .string "deploy".toList
  | .interact => .string "interact".toList

/-- `JSON.stringify` leaves out what is undefined. -/
def WorkspaceLearningState.toJson (state : WorkspaceLearningState) : Json :=
  .object (("messages".toList, .array state.messages) ::
    ((state.previousResponseId.map fun id => ("previousResponseId".toList, Json.string id)).toList ++
      [("patch".toList, state.patch),
        ("undoFiles".toList, (state.undoFiles.map Json.array).getD .null),
        ("events".toList, .array state.events),
        ("terminalLines".toList, .array state.terminalLines),
        ("programStage".toList, state.programStage.toJson),
        ("chainAction".toList, (state.chainAction.map ChainAction.toJson).getD .null),
        ("experimentDismissed".toList, .bool state.experimentDismissed)]))

/-- The stored object. -/
def statesToJson (states : WorkspaceLearningStates) : Json :=
  .object (states.map fun entry => (entry.1, entry.2.toJson))

/-- `serializableWorkspaceStates`. -/
def serializableStates (states : WorkspaceLearningStates) : WorkspaceLearningStates :=
  states.map fun entry => (entry.1, entry.2.serializable)

/-- What the storage holds afterwards. It accepts a value unless it is too large. -/
def writeWorkspaceLearningStates (accepts : Json → Bool) (states : WorkspaceLearningStates)
    (stored : Stored) : Stored :=
  let serializable := serializableStates states
  if accepts (statesToJson serializable) then .json (statesToJson serializable)
  else
    let compact := serializable.map fun entry => (entry.1, entry.2.compact)
    if accepts (statesToJson compact) then .json (statesToJson compact) else stored

/-! ## Entries -/

variable {entry : Text × Json} {fields : List (Text × Json)} {events : List Json}

/-- The events that are not in progress any more, if each of them can be asked. -/
def isWorking (event : Json) : Prop := Json.property event "status" = some (.string "working".toList)

instance (event : Json) : Decidable (isWorking event) :=
  match found : Json.property event "status" with
  | some (.string status) =>
      if same : status = "working".toList then .isTrue (by rw [isWorking, found, same])
      else .isFalse (by
        rw [isWorking, found]
        exact fun equal => same (Json.string.inj (Option.some.inj equal)))
  | none => .isFalse (by rw [isWorking, found]; exact nofun)
  | some .null => .isFalse (by rw [isWorking, found]; exact nofun)
  | some (.bool _) => .isFalse (by rw [isWorking, found]; exact nofun)
  | some (.number _) => .isFalse (by rw [isWorking, found]; exact nofun)
  | some (.array _) => .isFalse (by rw [isWorking, found]; exact nofun)
  | some (.object _) => .isFalse (by rw [isWorking, found]; exact nofun)

/-- An event is settled when it is not working. -/
theorem isSettled_eq {event : Json} (notNull : event ≠ .null) :
    isSettled event = .ok (decide (¬ isWorking event)) := by
  have read : isSettled event = match Json.property event "status" with
      | some (.string status) => .ok (decide (status ≠ "working".toList))
      | _ => .ok true := by
    cases event with
    | null => exact absurd rfl notNull
    | _ => rfl
  rw [read]
  split
  · next status found =>
      have same : isWorking event ↔ status = "working".toList := by
        rw [isWorking, found, Option.some.injEq, Json.string.injEq]
      simp only [ne_eq, same]
  · next other =>
      have settled : ¬ isWorking event := fun working => other _ working
      rw [decide_eq_true settled]

/-- Without `null` the settled events are kept. -/
theorem settledEvents_eq (noNull : Json.null ∉ events) :
    settledEvents events = .ok (events.filter fun event => ¬ isWorking event) := by
  induction events with
  | nil => rfl
  | cons event rest ih =>
      obtain ⟨notNull, others⟩ := not_or.mp (mt List.mem_cons.mpr noNull)
      rw [settledEvents, isSettled_eq (Ne.symm notNull), ih others]
      by_cases working : isWorking event
      · simp [working, bind, Except.bind]
      · simp [working, bind, Except.bind]

/-- With `null` among the events reading throws. -/
theorem settledEvents_fails (isNull : Json.null ∈ events) :
    ∃ error, settledEvents events = .error error := by
  induction events with
  | nil => cases isNull
  | cons event rest ih =>
      rw [settledEvents]
      cases asked : isSettled event with
      | error error => exact ⟨error, rfl⟩
      | ok settled =>
          rcases List.mem_cons.mp isNull with rfl | later
          · cases asked
          · obtain ⟨error, fails⟩ := ih later
            exact ⟨error, by rw [fails]; rfl⟩

/-- An entry that makes reading fail: it has messages, and an event of it is `null`. -/
def Breaks (value : Json) : Prop :=
  (listProperty value "messages").isSome = true ∧
    Json.null ∈ (listProperty value "events").getD []

/-- Reading an entry throws exactly when its events have a `null`. -/
theorem readEntry_fails_iff : (∃ error, readEntry entry = .error error) ↔ Breaks entry.2 := by
  rw [readEntry, Breaks]
  cases listProperty entry.2 "messages" with
  | none => simp
  | some messages =>
      simp only [Option.isSome_some, true_and]
      by_cases isNull : Json.null ∈ (listProperty entry.2 "events").getD []
      · obtain ⟨error, fails⟩ := settledEvents_fails isNull
        simp only [isNull, iff_true]
        exact ⟨error, by rw [fails]; rfl⟩
      · rw [settledEvents_eq isNull]
        simp only [isNull, iff_false]
        rintro ⟨error, fails⟩
        cases fails

/-- One entry that throws makes the whole reading throw. -/
theorem parseStates_fails_iff :
    (∃ error, parseStates (.object fields) = .error error) ↔ ∃ entry ∈ fields, Breaks entry.2 := by
  rw [parseStates]
  cases all : fields.mapM readEntry with
  | error error =>
      refine ⟨fun _ => ?_, fun _ => ⟨error, rfl⟩⟩
      by_contra none
      obtain ⟨results, passes⟩ := Outcome.exists_mapM_ok.mpr fun (entry : Text × Json) member => by
        cases read : readEntry entry with
        | error error => exact absurd ⟨entry, member, readEntry_fails_iff.mp ⟨error, read⟩⟩ none
        | ok states => exact ⟨states, read⟩
      cases all.symm.trans passes
  | ok results =>
      constructor
      · rintro ⟨error, fails⟩
        cases fails
      · rintro ⟨entry, member, breaks⟩
        obtain ⟨error, fails⟩ := readEntry_fails_iff.mpr breaks
        obtain ⟨states, read⟩ := Outcome.exists_mapM_ok.mp ⟨results, all⟩ entry member
        cases fails.symm.trans read

/-! ## Isolation -/

/-- An entry as the playground writes it. -/
structure WellFormed (value : Json) : Prop where
  messages : (listProperty value "messages").isSome = true
  events : ∃ events, listProperty value "events" = some events ∧
    ∀ event ∈ events, ∃ fields, event = .object fields
  stage : ∃ stage : ProgramStage, Json.property value "programStage" = some stage.toJson

/-- The messages, the events and the progress of an entry have been read, the lists with the
limits that they are stored with. -/
structure ReadBack (value : Json) (state : WorkspaceLearningState) : Prop where
  messages : ∀ messages, listProperty value "messages" = some messages →
    state.messages = lastOf 50 messages
  events : ∀ events, listProperty value "events" = some events →
    state.events = (events.filter fun event => ¬ isWorking event).take 8
  stage : ∀ stage : ProgramStage, Json.property value "programStage" = some stage.toJson →
    state.programStage = stage

/-- A stored stage is read back. -/
theorem readStage_toJson {value : Json} {stage : ProgramStage}
    (found : Json.property value "programStage" = some stage.toJson) : readStage value = stage := by
  rw [readStage, found]
  cases stage with
  | source => rfl
  | built => rfl
  | deployed => rfl

/-- A well-formed entry is read back. -/
theorem readEntry_of_wellFormed (wellFormed : WellFormed entry.2) :
    ∃ state, readEntry entry = .ok [(entry.1, state)] ∧ ReadBack entry.2 state := by
  obtain ⟨messages, listed⟩ := Option.isSome_iff_exists.mp wellFormed.messages
  obtain ⟨events, found, objects⟩ := wellFormed.events
  have noNull : Json.null ∉ events := fun isNull => by
    obtain ⟨fields, same⟩ := objects _ isNull
    cases same
  rw [readEntry, listed, found, Option.getD_some, settledEvents_eq noNull]
  refine ⟨_, rfl, fun _ same => ?_, fun _ same => ?_, fun stage same => readStage_toJson same⟩
  · rw [listed] at same
    cases same
    rfl
  · rw [found] at same
    cases same
    rfl

/-- Reading keeps every well-formed entry exactly when no entry makes it fail, unless there is
none to keep. -/
theorem states_isolated_iff (fields : List (Text × Json)) :
    (∀ entry ∈ fields, WellFormed entry.2 → ∃ state,
      (entry.1, state) ∈ readWorkspaceLearningStates (.json (.object fields)) ∧
        ReadBack entry.2 state) ↔
      (∀ entry ∈ fields, ¬ Breaks entry.2) ∨ ∀ entry ∈ fields, ¬ WellFormed entry.2 := by
  rw [readWorkspaceLearningStates]
  cases parsed : parseStates (.object fields) with
  | error error =>
      obtain ⟨entry, member, breaks⟩ := parseStates_fails_iff.mp ⟨error, parsed⟩
      simp only [List.not_mem_nil, false_and, exists_false, imp_false]
      constructor
      · exact .inr
      · rintro (whole | none)
        · exact absurd breaks (whole entry member)
        · exact none
  | ok states =>
      refine ⟨fun _ => .inl fun entry member breaks => ?_, fun _ entry member wellFormed => ?_⟩
      · obtain ⟨error, fails⟩ := parseStates_fails_iff.mpr ⟨entry, member, breaks⟩
        cases parsed.symm.trans fails
      · obtain ⟨state, read, back⟩ := readEntry_of_wellFormed wellFormed
        refine ⟨state, ?_, back⟩
        rw [parseStates] at parsed
        cases all : fields.mapM readEntry with
        | error error =>
            rw [all] at parsed
            cases parsed
        | ok results =>
            rw [all] at parsed
            cases parsed
            obtain ⟨result, among, same⟩ := Outcome.exists_of_mapM_ok all member
            rw [read] at same
            cases same
            exact List.mem_flatten.mpr ⟨_, among, List.mem_singleton_self _⟩

/-- A workspace without anything in it, and one with an event that is `null`. -/
def brokenStates : List (Text × Json) :=
  [("a".toList, .object [("messages".toList, .array []), ("events".toList, .array [.null])]),
    ("b".toList, .object [("messages".toList, .array []), ("events".toList, .array []),
      ("programStage".toList, ProgramStage.built.toJson)])]

/-- One broken entry loses the well-formed ones as well. -/
theorem readStates_not_always_isolated : ¬ ∀ fields : List (Text × Json), ∀ entry ∈ fields, WellFormed entry.2 →
    ∃ state, (entry.1, state) ∈ readWorkspaceLearningStates (.json (.object fields)) ∧
      ReadBack entry.2 state := by
  intro always
  rcases (states_isolated_iff brokenStates).mp (always brokenStates) with whole | none
  · exact whole _ List.mem_cons_self ⟨rfl, List.mem_singleton_self _⟩
  · refine none _ (List.mem_cons_of_mem _ (List.mem_singleton_self _)) ⟨rfl, ⟨[], rfl, ?_⟩, .built, rfl⟩
    exact fun _ member => by cases member

/-! ## Reloading -/

/-- The message is marked as still arriving. -/
def isStreaming (message : Json) : Prop := Json.property message "streaming" = some (.bool true)

/-- Nothing in the state is waiting for an answer. -/
structure NothingInFlight (state : WorkspaceLearningState) : Prop where
  events : ∀ event ∈ state.events, ¬ isWorking event
  chainAction : state.chainAction = none
  messages : ∀ message ∈ state.messages, ¬ isStreaming message

/-- The ends of the lists, in order. -/
structure KeepsEnds (before after : WorkspaceLearningState) : Prop where
  messages : after.messages = lastOf 50 before.messages
  events : after.events = (before.events.take 8).filter fun event => ¬ isWorking event
  terminalLines : after.terminalLines = lastOf 300 before.terminalLines

/-- What is read back of the states. -/
def Reloads (states read : WorkspaceLearningStates) : Prop :=
  List.Forall₂ (fun before after => after.1 = before.1 ∧ KeepsEnds before.2 after.2 ∧
    NothingInFlight after.2) states read

/-- None of the messages that are stored is streaming, and none of the events is `null`. -/
structure AtRest (state : WorkspaceLearningState) : Prop where
  events : Json.null ∉ state.events.take 8
  messages : ∀ message ∈ lastOf 50 state.messages, ¬ isStreaming message

/-- The state that is read back. -/
def WorkspaceLearningState.reloaded (state : WorkspaceLearningState) : WorkspaceLearningState :=
  { state.serializable with
    events := (state.events.take 8).filter fun event => ¬ isWorking event }

/-- Taking the last ones twice takes them once. -/
theorem lastOf_lastOf {α : Type} (count : Nat) (items : List α) :
    lastOf count (lastOf count items) = lastOf count items := by
  rw [lastOf, lastOf, List.length_drop, List.drop_drop]
  congr 1
  omega

variable {state : WorkspaceLearningState} {name : Text}

/-- A property of a stored state is looked up among its fields. -/
theorem property_toJson (key : String) : Json.property state.toJson key =
    (("messages".toList, Json.array state.messages) ::
      ((state.previousResponseId.map fun id => ("previousResponseId".toList, Json.string id)).toList ++
        [("patch".toList, state.patch),
          ("undoFiles".toList, (state.undoFiles.map Json.array).getD .null),
          ("events".toList, .array state.events),
          ("terminalLines".toList, .array state.terminalLines),
          ("programStage".toList, state.programStage.toJson),
          ("chainAction".toList, (state.chainAction.map ChainAction.toJson).getD .null),
          ("experimentDismissed".toList, .bool state.experimentDismissed)])).lookup key.toList := rfl

/-- The stored messages are read back. -/
theorem listProperty_messages : listProperty state.toJson "messages" = some state.messages := rfl

/-- The stored events are read back. -/
theorem listProperty_events : listProperty state.toJson "events" = some state.events := by
  rw [listProperty, property_toJson]
  cases state.previousResponseId <;> rfl

/-- The stored terminal lines are read back. -/
theorem listProperty_terminalLines :
    listProperty state.toJson "terminalLines" = some state.terminalLines := by
  rw [listProperty, property_toJson]
  cases state.previousResponseId <;> rfl

/-- The stored files for an undo are read back. -/
theorem listProperty_undoFiles : listProperty state.toJson "undoFiles" = state.undoFiles := by
  rw [listProperty, property_toJson]
  cases state.previousResponseId <;> cases state.undoFiles <;> rfl

/-- The stored patch is read back. -/
theorem property_patch : Json.property state.toJson "patch" = some state.patch := by
  rw [property_toJson]
  cases state.previousResponseId <;> rfl

/-- The stored stage is read back. -/
theorem property_programStage :
    Json.property state.toJson "programStage" = some state.programStage.toJson := by
  rw [property_toJson]
  cases state.previousResponseId <;> rfl

/-- The stored dismissal is read back. -/
theorem property_experimentDismissed :
    Json.property state.toJson "experimentDismissed" = some (.bool state.experimentDismissed) := by
  rw [property_toJson]
  cases state.previousResponseId <;> rfl

/-- The stored response id is read back where there is one. -/
theorem property_previousResponseId : Json.property state.toJson "previousResponseId" =
    state.previousResponseId.map Json.string := by
  rw [property_toJson]
  cases state.previousResponseId <;> rfl

/-- An entry that was written is read with its ends. -/
theorem readEntry_serializable (noNull : Json.null ∉ state.events.take 8) :
    readEntry (name, state.serializable.toJson) = .ok [(name, state.reloaded)] := by
  have events : settledEvents state.serializable.events =
      .ok ((state.events.take 8).filter fun event => ¬ isWorking event) := settledEvents_eq noNull
  have short : ((state.events.take 8).filter fun event => ¬ isWorking event).length ≤ 8 :=
    (List.length_filter_le _ _).trans (List.length_take_le _ _)
  have id : (match state.previousResponseId.map Json.string with
      | some (.string id) => some id
      | _ => none) = state.previousResponseId := by
    cases state.previousResponseId <;> rfl
  simp only [readEntry, listProperty_messages, listProperty_events, listProperty_terminalLines,
    listProperty_undoFiles, property_patch, property_previousResponseId,
    property_experimentDismissed, Option.getD_some, events, readStage_toJson property_programStage]
  simp only [bind, Except.bind, List.take_of_length_le short, truthy]
  simp only [WorkspaceLearningState.reloaded, WorkspaceLearningState.serializable, lastOf_lastOf, id]

/-- A `null` among the stored events breaks the entry. -/
theorem breaks_serializable (isNull : Json.null ∈ state.events.take 8) :
    Breaks state.serializable.toJson := by
  refine ⟨by rw [listProperty_messages]; rfl, ?_⟩
  rw [listProperty_events]
  exact isNull

/-- A reload keeps the ends of the lists. -/
theorem reloaded_keepsEnds : KeepsEnds state state.reloaded := by
  constructor <;> simp only [WorkspaceLearningState.reloaded, WorkspaceLearningState.serializable]

/-- After a reload only a streaming message can still be in flight. -/
theorem reloaded_nothingInFlight : NothingInFlight state.reloaded ↔
    ∀ message ∈ lastOf 50 state.messages, ¬ isStreaming message := by
  refine ⟨fun nothing => nothing.messages, fun settled => ⟨fun event among => ?_, rfl, settled⟩⟩
  exact of_decide_eq_true (List.mem_filter.mp among).2

/-- What was stored without a `null` event is read back entry by entry. -/
theorem readEntries_serializable {states : WorkspaceLearningStates}
    (noNull : ∀ entry ∈ states, Json.null ∉ entry.2.events.take 8) :
    parseStates (statesToJson (serializableStates states)) =
      .ok (states.map fun entry => (entry.1, entry.2.reloaded)) := by
  induction states with
  | nil => rfl
  | cons entry rest ih =>
      obtain ⟨first, others⟩ := List.forall_mem_cons.mp noNull
      have later := ih others
      simp only [parseStates, statesToJson, serializableStates, List.map_cons, List.map_map,
        List.mapM_cons, readEntry_serializable first] at later ⊢
      cases all : (rest.map ((fun entry => (entry.1, entry.2.toJson)) ∘ fun entry =>
        (entry.1, entry.2.serializable))).mapM readEntry with
      | error error =>
          rw [all] at later
          cases later
      | ok results =>
          rw [all] at later
          have flattened := Except.ok.inj later
          simp only [bind, Except.bind, pure, Except.pure, Except.map, List.flatten_cons, flattened]
          rfl

/-- A reload keeps the ends of the lists and leaves nothing in flight exactly when no message that
is stored is streaming. -/
theorem reloads_iff {accepts : Json → Bool} {states : WorkspaceLearningStates} (stored : Stored)
    (accepted : accepts (statesToJson (serializableStates states)) = true) :
    Reloads states (readWorkspaceLearningStates
      (writeWorkspaceLearningStates accepts states stored)) ↔ ∀ entry ∈ states, AtRest entry.2 := by
  rw [writeWorkspaceLearningStates, if_pos accepted]
  by_cases noNull : ∀ entry ∈ states, Json.null ∉ entry.2.events.take 8
  · have read := readEntries_serializable noNull
    simp only [readWorkspaceLearningStates, read, Reloads, List.forall₂_map_right_iff,
      List.forall₂_same]
    refine forall₂_congr fun entry member => ?_
    rw [reloaded_nothingInFlight]
    constructor
    · rintro ⟨-, -, settled⟩
      exact ⟨noNull entry member, settled⟩
    · exact fun atRest => ⟨trivial, reloaded_keepsEnds, atRest.messages⟩
  · obtain ⟨entry, broken⟩ := not_forall.mp noNull
    obtain ⟨member, isNull⟩ := not_forall.mp broken
    have breaks := breaks_serializable (not_not.mp isNull)
    have stored : (entry.1, entry.2.serializable.toJson) ∈
        (serializableStates states).map fun entry => (entry.1, entry.2.toJson) :=
      List.mem_map.mpr ⟨(entry.1, entry.2.serializable), List.mem_map_of_mem member, rfl⟩
    obtain ⟨error, fails⟩ := parseStates_fails_iff.mpr ⟨_, stored, breaks⟩
    have nothing : readWorkspaceLearningStates
        (.json (statesToJson (serializableStates states))) = [] := by
      change (match parseStates (.object _) with
        | .ok states => states
        | .error _ => []) = []
      rw [fails]
    rw [nothing]
    constructor
    · intro reloads
      rw [Reloads, List.forall₂_nil_right_iff] at reloads
      rw [reloads] at member
      cases member
    · exact fun atRest => absurd (atRest entry member).events isNull

/-- A workspace with one message. -/
def oneMessage (streaming : Bool) : WorkspaceLearningState where
  messages := [.object [("streaming".toList, .bool streaming)]]
  previousResponseId := none
  patch := .null
  undoFiles := none
  events := []
  terminalLines := []
  programStage := .source
  chainAction := none
  experimentDismissed := false

/-- A state of one finished message survives a reload. -/
theorem reloads_oneMessage : Reloads [("a".toList, oneMessage false)] (readWorkspaceLearningStates
    (writeWorkspaceLearningStates (fun _ => true) [("a".toList, oneMessage false)] .missing)) := by
  refine (reloads_iff .missing rfl).mpr fun entry member => ?_
  obtain rfl := List.mem_singleton.mp member
  refine ⟨List.not_mem_nil, fun message among => ?_⟩
  obtain rfl := List.mem_singleton.mp among
  exact nofun

/-- A message that was streaming when the page was closed is streaming for ever. -/
theorem not_always_reloads : ¬ ∀ (accepts : Json → Bool) (states : WorkspaceLearningStates)
    (stored : Stored), accepts (statesToJson (serializableStates states)) = true →
      Reloads states (readWorkspaceLearningStates
        (writeWorkspaceLearningStates accepts states stored)) := by
  intro always
  have reloads := always (fun _ => true) [("a".toList, oneMessage true)] .missing rfl
  have atRest := (reloads_iff .missing rfl).mp reloads _ List.mem_cons_self
  exact atRest.messages _ List.mem_cons_self rfl

end Solpg.Client.Learning
