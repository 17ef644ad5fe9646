import Solpg.Client.Learning.LearningWorkspace
import Solpg.Std.Recent

/-!
# The timeline during a chain action

The calls of `addEvent` that a build, a deploy, an interaction, a navigation and the
listeners of the playground make, in any order. `addEvent` pairs the end of an
operation with its start by their kind. The log also tells whose an entry is, and how
many newer ones its workspace has got, which no call reads.
-/

namespace Solpg.Client.Learning

open Solpg.Std

/-- An entry of a timeline, and the chain action whose operation has added it, if one has. -/
structure TimelineEntry where
  event : LearningEvent
  action : Option ActiveAction
  deriving DecidableEq, Repr

namespace TimelineEntry

/-- The entry that `addEvent` looks for when it adds one. -/
def replaces (next other : TimelineEntry) : Bool :=
  next.event.status ≠ .working ∧ other.event.kind = next.event.kind ∧ other.event.status = .working

/-- The start of an operation of a chain action. -/
def isStart (entry : TimelineEntry) : Bool :=
  entry.event.status = .working ∧ entry.action.isSome

/-- The entry as the other writes of the page see it. -/
def toActionEvent (entry : TimelineEntry) : ActionEvent :=
  ⟨entry.event, entry.action.map ActiveAction.workspaceName⟩

end TimelineEntry

/-- The update that `addEvent` makes. -/
def recordEntry (next : TimelineEntry) (current : List TimelineEntry) : List TimelineEntry :=
  if next.event.status ≠ .working then
    match current.findIdx? fun other =>
        other.event.kind = next.event.kind ∧ other.event.status = .working with
    | some workingIndex => (next :: current.eraseIdx workingIndex).take 8
    | none => (next :: current).take 8
  else (next :: current).take 8

/-- Recording an entry pushes it in front of the eight latest. -/
theorem recordEntry_eq (next : TimelineEntry) (current : List TimelineEntry) :
    recordEntry next current = Recent.push 8 next.replaces next current := by
  have pushed := Recent.push_eq 8 (next.event.status ≠ .working) (fun other => decide
    (other.event.kind = next.event.kind ∧ other.event.status = .working)) next current
  simp only [decide_eq_true_eq] at pushed
  exact pushed.symm

/-- Whose the entries are makes no difference to `addEvent`. -/
theorem map_recordEntry (next : TimelineEntry) (current : List TimelineEntry) :
    (recordEntry next current).map TimelineEntry.toActionEvent =
      recordEvent next.toActionEvent (current.map TimelineEntry.toActionEvent) := by
  have pushed := Recent.push_eq 8 (next.event.status ≠ .working) (fun other : ActionEvent => decide
    (other.event.kind = next.event.kind ∧ other.event.status = .working)) next.toActionEvent
    (current.map TimelineEntry.toActionEvent)
  simp only [decide_eq_true_eq] at pushed
  rw [recordEntry_eq]
  exact (Recent.map_push TimelineEntry.toActionEvent _).trans pushed

/-- An operation of a chain action that has told its start. `workspaceName` is the
workspace where it has, and `newer` counts what has been told since in that of the action. -/
structure Operation where
  action : ActiveAction
  kind : EventKind
  workspaceName : Text
  newer : Nat
  deriving DecidableEq, Repr

namespace Operation

variable (operation : Operation)

/-- The entry that tells that the operation is at work. -/
def start : TimelineEntry := ⟨⟨operation.kind, .working⟩, some operation.action⟩

/-- The entry that ends the operation. -/
def settled (succeeded : Bool) : TimelineEntry :=
  ⟨⟨operation.kind, if succeeded then .success else .error⟩, some operation.action⟩

/-- The operation counts the entries recorded over its own. -/
def told (workspaceName : Text) : Operation :=
  if operation.action.workspaceName = workspaceName then
    { operation with newer := operation.newer + 1 }
  else operation

end Operation

/-- `explorer` is the current workspace of `PgExplorer`, `operations` are those that have
started and not ended, and `replaced` are the entries that newer ones have replaced. -/
structure EventLog where
  chain : ChainActions
  explorer : Option Text
  events : Text → List TimelineEntry
  operations : List Operation
  replaced : List (TimelineEntry × TimelineEntry)

/-- A call of `addEvent` that is of no operation. -/
inductive Notice where
  /-- `ensureSurfpool` connects, is connected or has failed. -/
  | connectRpc (status : EventStatus)
  /-- `openInteraction` without an IDL. -/
  | openInteraction
  | recordInstructionSuccess
  | onInstructionError (workspaceName : Text)
  /-- A lesson, a tutorial or a program could not be opened. -/
  | couldNotOpen
  | opened (workspaceName : Text)
  | noLongerAvailable
  | chainActionBlocks
  /-- The listeners of the commands and of the transactions. -/
  | onDidBuild (failed : Bool)
  | onDidDeploy (failed : Bool)
  | onDidSend
  deriving DecidableEq, Repr

/-- The calls that reach the event log. -/
inductive EventCall where
  | chain (call : ChainActions.ChainCall)
  /-- `PgExplorer` switches its workspace. -/
  | switchWorkspace (workspaceName : Option Text)
  | buildProgram (action : ActiveAction)
  | deployProgram (action : ActiveAction)
  | runLessonInteraction (action : ActiveAction)
  /-- The operation that a chain action is at returns or throws. -/
  | settle (action : ActiveAction) (succeeded : Bool)
  | notice (notice : Notice)
  /-- A new program takes the place of an earlier one of its name. -/
  | resetWorkspace (workspaceName : Text)
  deriving DecidableEq, Repr

namespace EventLog

/-- The page after it has loaded: no stored event is of an action at work. -/
def initial (activeWorkspaceName : Text) (explorer : Option Text)
    (events : Text → List { event : LearningEvent // event.status ≠ .working }) : EventLog where
  chain := .initial activeWorkspaceName
  explorer := explorer
  events workspaceName := (events workspaceName).map fun event => ⟨event.1, none⟩
  operations := []
  replaced := []

variable (log : EventLog)

/-- `addEvent`: the entry is recorded in the workspace. -/
def addEvent (entry : TimelineEntry) (workspaceName : Text) : EventLog :=
  { log with
    events := Function.update log.events workspaceName
      (recordEntry entry (log.events workspaceName))
    operations := log.operations.map (·.told workspaceName)
    replaced := log.replaced ++
      ((log.events workspaceName).find? entry.replaces).toList.map fun other => (other, entry) }

/-! ## The operations -/

/-- A chain action at the point of starting an operation. -/
def isIdle (action : ActiveAction) : Bool :=
  action ∈ log.chain.running ∧ log.operations.all fun operation => operation.action ≠ action

/-- An operation starts with an entry that is working. -/
def start (action : ActiveAction) (kind : EventKind) (workspaceName : Text) : EventLog :=
  let started := log.addEvent ⟨⟨kind, .working⟩, some action⟩ workspaceName
  { started with operations := started.operations ++ [⟨action, kind, workspaceName, 0⟩] }

/-- The workspace that `buildProgram` is called for: `runBuild` has read it when it was
called, and `deployProgram` reads it then. -/
def buildWorkspace (action : ActiveAction) : Text :=
  if action.action = .build then action.workspaceName else log.chain.activeWorkspaceName

/-- `buildProgram` starts in the workspace the explorer shows. -/
def buildProgram (action : ActiveAction) : Option EventLog :=
  if log.isIdle action ∧ log.explorer = some (log.buildWorkspace action) then
    some (log.start action .build (log.buildWorkspace action))
  else none

/-- `deployProgram` starts in the active workspace. -/
def deployProgram (action : ActiveAction) : Option EventLog :=
  if log.isIdle action ∧ action.action ≠ .build then
    some (log.start action .deploy log.chain.activeWorkspaceName)
  else none

/-- `runLessonInteraction` starts in the active workspace. -/
def runLessonInteraction (action : ActiveAction) : Option EventLog :=
  if log.isIdle action ∧ action.action = .interact then
    some (log.start action .instruction log.chain.activeWorkspaceName)
  else none

/-- The workspace where an operation tells its end. Only `buildProgram` names it. -/
def endWorkspace (operation : Operation) : Text :=
  if operation.kind = .build then operation.workspaceName else log.chain.activeWorkspaceName

/-- An operation ends with an entry of its own. -/
def finishOperation (operation : Operation) (succeeded : Bool) : EventLog :=
  { log with operations := log.operations.filter (·.action ≠ operation.action) }.addEvent
    (operation.settled succeeded) (log.endWorkspace operation)

/-- The operation of an action ends. -/
def settle (action : ActiveAction) (succeeded : Bool) : Option EventLog :=
  (log.operations.find? (·.action = action)).map (log.finishOperation · succeeded)

/-! ## The other events -/

/-- A deploy or an interaction keeps the page where it is. -/
def chainActionBlocks : Option (LearningEvent × Text) :=
  match log.chain.chainActionRef with
  | some current =>
      if current.action = .build then none
      else some (⟨if current.action = .deploy then .deploy else .instruction, .idle⟩,
        log.chain.activeWorkspaceName)
  | none => none

/-- The listener of the build command. -/
def onDidBuild (failed : Bool) : Option (LearningEvent × Text) :=
  log.explorer.bind fun workspaceName =>
    if log.chain.chainActionRef.any fun current => current.action = .build then none
    else some (⟨.build, if failed then .error else .success⟩, workspaceName)

/-- The listener of the deploy command. -/
def onDidDeploy (failed : Bool) : Option (LearningEvent × Text) :=
  log.explorer.bind fun workspaceName =>
    if log.chain.chainActionRef.any fun current => current.action = .deploy then none
    else some (⟨.deploy, if failed then .error else .success⟩, workspaceName)

/-- The listener of the transactions, for one that is not of the loader. -/
def onDidSend : Option (LearningEvent × Text) :=
  if log.chain.chainActionRef.isSome then none
  else some (⟨.instruction, .success⟩, log.chain.activeWorkspaceName)

/-- The event that is added, and the workspace where it is. -/
def told : Notice → Option (LearningEvent × Text)
  | .connectRpc status => some (⟨.network, status⟩, log.chain.activeWorkspaceName)
  | .openInteraction => some (⟨.instruction, .error⟩, log.chain.activeWorkspaceName)
  | .recordInstructionSuccess => some (⟨.instruction, .success⟩, log.chain.activeWorkspaceName)
  | .onInstructionError workspaceName => some (⟨.instruction, .error⟩, workspaceName)
  | .couldNotOpen => some (⟨.build, .error⟩, log.chain.activeWorkspaceName)
  | .opened workspaceName => some (⟨.idea, .success⟩, workspaceName)
  | .noLongerAvailable => some (⟨.idea, .error⟩, log.chain.activeWorkspaceName)
  | .chainActionBlocks => log.chainActionBlocks
  | .onDidBuild failed => log.onDidBuild failed
  | .onDidDeploy failed => log.onDidDeploy failed
  | .onDidSend => log.onDidSend

/-- A notice is recorded where it belongs. -/
def tell (notice : Notice) : EventLog :=
  match log.told notice with
  | some (event, workspaceName) => log.addEvent ⟨event, none⟩ workspaceName
  | none => log

/-- A workspace gets the log of a new one. -/
def resetWorkspace (workspaceName : Text) : EventLog :=
  { log with events := Function.update log.events workspaceName [⟨⟨.network, .idle⟩, none⟩] }

/-! ## Steps -/

/-- A chain action only returns when its operation has ended. -/
def stepChain (call : ChainActions.ChainCall) : Option EventLog :=
  match call with
  | .finish action =>
      if log.isIdle action then
        (log.chain.step call).map fun chain => { log with chain := chain }
      else none
  | _ => (log.chain.step call).map fun chain => { log with chain := chain }

/-- One call on the log. -/
def step : EventCall → Option EventLog
  | .chain call => log.stepChain call
  | .switchWorkspace workspaceName => some { log with explorer := workspaceName }
  | .buildProgram action => log.buildProgram action
  | .deployProgram action => log.deployProgram action
  | .runLessonInteraction action => log.runLessonInteraction action
  | .settle action succeeded => log.settle action succeeded
  | .notice notice => some (log.tell notice)
  | .resetWorkspace workspaceName => some (log.resetWorkspace workspaceName)

/-- The event log from its first state on. -/
def machine : Machine EventLog EventCall where
  Initial log := ∃ activeWorkspaceName explorer events,
    log = initial activeWorkspaceName explorer events
  next log call := log.step call

/-! ## Entries that stay -/

/-- While an operation is at work its entry is in the workspace of the chain action, if
fewer than eight have been added there since. Only its own end replaces it, and none is
left when it has ended. -/
structure Visible : Prop where
  shown : ∀ operation ∈ log.operations,
    operation.start ∈ log.events operation.action.workspaceName ∨ 8 ≤ operation.newer
  replaced : ∀ pair ∈ log.replaced, ∀ action, pair.1.action = some action →
    pair.2.action = some action
  ended : ∀ workspaceName, ∀ entry ∈ log.events workspaceName, entry.event.status = .working →
    ∀ action, entry.action = some action → action ∈ log.chain.running ∧
      ∃ operation ∈ log.operations, operation.start = entry

/-- The first entry at work of the same kind, which the event replaces, is of the same
chain action. -/
def Spares (entry : TimelineEntry) (workspaceName : Text) : Prop :=
  ∀ other, (log.events workspaceName).find? entry.replaces = some other →
    other.action = entry.action

/-- Events replace what is of their own action. An operation starts in the workspace of
its chain action, and ends there if its entry is still shown. A new program does not
take the name of a workspace that shows one. -/
def Keeps (log : EventLog) : EventCall → Prop
  | .buildProgram action => log.buildWorkspace action = action.workspaceName
  | .deployProgram action | .runLessonInteraction action =>
      log.chain.activeWorkspaceName = action.workspaceName
  | .settle action succeeded => ∀ operation ∈ log.operations, operation.action = action →
      log.Spares (operation.settled succeeded) (log.endWorkspace operation) ∧
        (operation.start ∈ log.events action.workspaceName →
          log.endWorkspace operation = action.workspaceName)
  | .notice notice => ∀ event workspaceName, log.told notice = some (event, workspaceName) →
      log.Spares ⟨event, none⟩ workspaceName
  | .resetWorkspace workspaceName =>
      ∀ operation ∈ log.operations, operation.start ∉ log.events workspaceName
  | _ => True

/-- The entry of an operation is among those that have been added since and itself. -/
def Shows (operation : Operation) : Prop :=
  operation.start ∈
      (log.events operation.action.workspaceName).take (operation.newer + 1) ∨
    8 ≤ operation.newer

/-- What every call keeps. An entry of the action `finished` can be left without an operation. -/
structure Steady (finished : Option ActiveAction) : Prop where
  recent : ∀ operation ∈ log.operations, log.Shows operation
  own : ∀ pair ∈ log.replaced, pair.1.action = pair.2.action
  started : ∀ workspaceName, ∀ entry ∈ log.events workspaceName, entry.isStart →
    entry.action ≠ finished → ∃ operation ∈ log.operations,
      operation.start = entry ∧ operation.action.workspaceName = workspaceName
  distinct : ∀ workspaceName, ((log.events workspaceName).filter TimelineEntry.isStart).Nodup
  single : (log.operations.map Operation.action).Nodup
  running : ∀ operation ∈ log.operations, operation.action ∈ log.chain.running

variable {log} {next : EventLog} {call : EventCall} {entry : TimelineEntry}
  {workspaceName : Text} {operation : Operation} {action : ActiveAction}
  {finished : Option ActiveAction}

@[simp] theorem told_action : (operation.told workspaceName).action = operation.action := by
  rw [Operation.told]
  split <;> rfl

@[simp] theorem told_start : (operation.told workspaceName).start = operation.start := by
  rw [Operation.told]
  split <;> rfl

/-- An entry at work is of an operation whose start it is. -/
theorem isStart_iff :
    entry.isStart ↔ entry.event.status = .working ∧ ∃ action, entry.action = some action := by
  simp [TimelineEntry.isStart, Option.isSome_iff_exists]

/-- The workspace of the entry gets it on top. -/
theorem events_addEvent_self :
    (log.addEvent entry workspaceName).events workspaceName =
      Recent.push 8 entry.replaces entry (log.events workspaceName) := by
  simp [addEvent, recordEntry_eq]

/-- Other workspaces keep their entries. -/
theorem events_addEvent_of_ne {other : Text} (elsewhere : other ≠ workspaceName) :
    (log.addEvent entry workspaceName).events other = log.events other := by
  simp [addEvent, elsewhere]

/-- An entry is the new one or was there before. -/
theorem mem_events_addEvent {other : TimelineEntry} {there : Text}
    (member : other ∈ (log.addEvent entry workspaceName).events there) :
    (other = entry ∧ there = workspaceName) ∨ other ∈ log.events there := by
  by_cases here : there = workspaceName
  · subst here
    rw [events_addEvent_self] at member
    exact (Recent.mem_of_mem_push member).imp_left fun new => ⟨new, rfl⟩
  · rw [events_addEvent_of_ne here] at member
    exact .inr member

/-- An event that does not replace the entry of an operation moves it back by one. -/
theorem Shows.told (recent : log.Shows operation)
    (spared : (log.events workspaceName).find? entry.replaces ≠ some operation.start) :
    (log.addEvent entry workspaceName).Shows (operation.told workspaceName) := by
  by_cases here : operation.action.workspaceName = workspaceName
  · subst here
    rw [EventLog.Shows, told_start, told_action, events_addEvent_self, Operation.told, if_pos rfl]
    obtain shown | many := recent
    · by_cases room : operation.newer + 1 < 8
      · exact .inl (Recent.mem_take_push shown spared room)
      · right
        change 8 ≤ operation.newer + 1
        omega
    · right
      change 8 ≤ operation.newer + 1
      omega
  · rw [EventLog.Shows, told_start, told_action, events_addEvent_of_ne here, Operation.told,
      if_neg here]
    exact recent

/-- An event that is of no operation at work keeps those that are. -/
theorem Steady.addEvent (steady : Steady log finished) (spares : log.Spares entry workspaceName)
    (apart : ∀ operation ∈ log.operations, entry.action ≠ some operation.action)
    (fresh : entry.isStart → entry.action = finished ∧ entry ∉ log.events workspaceName) :
    Steady (log.addEvent entry workspaceName) finished where
  recent other member := by
    obtain ⟨operation, works, rfl⟩ := List.mem_map.mp member
    apply (steady.recent operation works).told
    intro replaced
    exact apart operation works (spares _ replaced).symm
  own pair member := by
    obtain old | new := List.mem_append.mp member
    · exact steady.own pair old
    · obtain ⟨other, found, rfl⟩ := List.mem_map.mp new
      exact spares other (Option.mem_toList.mp found)
  started there other member starts others := by
    obtain ⟨rfl, -⟩ | old := mem_events_addEvent member
    · exact absurd (fresh starts).1 others
    · obtain ⟨operation, works, start, here⟩ := steady.started there other old starts others
      exact ⟨operation.told workspaceName, List.mem_map_of_mem works, told_start.trans start,
        (congrArg ActiveAction.workspaceName told_action).trans here⟩
  distinct there := by
    by_cases here : there = workspaceName
    · subst here
      rw [events_addEvent_self]
      exact Recent.nodup_filter_push (steady.distinct there) fun starts => (fresh starts).2
    · rw [events_addEvent_of_ne here]
      exact steady.distinct there
  single := by
    have actions : (log.operations.map (·.told workspaceName)).map Operation.action =
        log.operations.map Operation.action := by
      rw [List.map_map]
      exact List.map_congr_left fun _ _ => told_action
    change ((log.operations.map (·.told workspaceName)).map Operation.action).Nodup
    rw [actions]
    exact steady.single
  running other member := by
    obtain ⟨operation, works, rfl⟩ := List.mem_map.mp member
    rw [told_action]
    exact steady.running operation works

/-- In a steady log every working entry has its operation. -/
theorem Steady.visible (steady : Steady log none) : Visible log where
  shown operation works :=
    (steady.recent operation works).imp_left List.mem_of_mem_take
  replaced pair member action own := (steady.own pair member).symm.trans own
  ended there entry member working action own := by
    have starts : entry.isStart := isStart_iff.mpr ⟨working, action, own⟩
    obtain ⟨operation, works, start, -⟩ :=
      steady.started there entry member starts (by rw [own]; nofun)
    have same : operation.action = action := Option.some.inj ((congrArg _ start).trans own)
    exact ⟨same ▸ steady.running operation works, operation, works, start⟩

/-- An action is idle when it runs and has no operation. -/
theorem isIdle_iff : log.isIdle action ↔ action ∈ log.chain.running ∧
    ∀ operation ∈ log.operations, operation.action ≠ action := by
  simp [isIdle]

/-- An operation starts in the workspace of its chain action. -/
theorem Steady.start (steady : Steady log none) (idle : log.isIdle action) (kind : EventKind) :
    Steady (log.start action kind action.workspaceName) none := by
  have none_of : ∀ there, ∀ entry ∈ log.events there, entry.isStart →
      entry.action ≠ some action := by
    rintro there entry member starts own
    obtain ⟨operation, works, rfl, -⟩ :=
      steady.started there entry member starts (by rw [own]; nofun)
    exact (isIdle_iff.mp idle).2 operation works (Option.some.inj own)
  have others : Steady log (some action) :=
    ⟨steady.recent, steady.own, fun there entry member starts _ =>
      steady.started there entry member starts (by
        obtain ⟨-, owner, own⟩ := isStart_iff.mp starts
        rw [own]
        nofun), steady.distinct, steady.single, steady.running⟩
  let entry : TimelineEntry := ⟨⟨kind, .working⟩, some action⟩
  have starts : entry.isStart := isStart_iff.mpr ⟨rfl, action, rfl⟩
  have added : Steady (log.addEvent entry action.workspaceName) (some action) := by
    apply others.addEvent
    · intro other found
      have := List.find?_some found
      simp [TimelineEntry.replaces, entry] at this
    · intro operation works same
      exact (isIdle_iff.mp idle).2 operation works (Option.some.inj same).symm
    · exact fun _ => ⟨rfl, fun member => none_of _ entry member starts rfl⟩
  refine ⟨?_, added.own, ?_, added.distinct, ?_, ?_⟩
  · intro operation works
    obtain old | new := List.mem_append.mp works
    · exact added.recent operation old
    · obtain rfl := List.mem_singleton.mp new
      left
      change entry ∈ ((log.addEvent entry _).events _).take 1
      rw [events_addEvent_self]
      exact Recent.mem_push_self (by omega)
  · intro there other member starts _
    by_cases own : other.action = some action
    · obtain ⟨rfl, rfl⟩ | old := mem_events_addEvent member
      · exact ⟨_, List.mem_append_right _ (List.mem_singleton_self _), rfl, rfl⟩
      · exact absurd own (none_of there other old starts)
    · obtain ⟨operation, works, start, here⟩ := added.started there other member starts own
      exact ⟨operation, List.mem_append_left _ works, start, here⟩
  · change ((_ ++ [_]).map Operation.action).Nodup
    rw [List.map_append]
    apply added.single.append (List.nodup_singleton _)
    intro other member new
    obtain ⟨operation, works, rfl⟩ := List.mem_map.mp member
    obtain ⟨before, worked, rfl⟩ := List.mem_map.mp works
    apply (isIdle_iff.mp idle).2 before worked
    exact told_action.symm.trans (List.mem_singleton.mp new)
  · intro operation works
    obtain old | new := List.mem_append.mp works
    · exact added.running operation old
    · obtain rfl := List.mem_singleton.mp new
      exact (isIdle_iff.mp idle).1

/-- The operations of one chain action are one. -/
theorem Steady.eq_of_action (steady : Steady log finished) {other : Operation}
    (works : operation ∈ log.operations) (worksToo : other ∈ log.operations)
    (same : other.action = operation.action) : other = operation :=
  List.inj_on_of_nodup_map steady.single worksToo works same

/-- The end of an operation replaces its start. -/
theorem replaces_settled (succeeded : Bool) : (operation.settled succeeded).replaces operation.start := by
  cases succeeded <;> simp [TimelineEntry.replaces, Operation.settled, Operation.start]

/-- The end of an operation is not its start. -/
theorem start_ne_settled (succeeded : Bool) : operation.start ≠ operation.settled succeeded := by
  cases succeeded <;> simp [Operation.settled, Operation.start]

/-- The end of an operation replaces its start, if that is still shown. -/
theorem Steady.find_settled (steady : Steady log none) (works : operation ∈ log.operations)
    {succeeded : Bool} (shown : operation.start ∈ log.events workspaceName)
    (spares : log.Spares (operation.settled succeeded) workspaceName) :
    (log.events workspaceName).find? (operation.settled succeeded).replaces =
      some operation.start := by
  cases found : (log.events workspaceName).find? (operation.settled succeeded).replaces with
  | none => exact absurd (replaces_settled succeeded) (List.find?_eq_none.mp found _ shown)
  | some other =>
      have own : other.action = some operation.action := spares other found
      have working : other.event.status = .working := by
        have paired := List.find?_some found
        simp only [TimelineEntry.replaces, decide_eq_true_eq] at paired
        exact paired.2.2
      obtain ⟨worker, worksToo, rfl, -⟩ := steady.started workspaceName other
        (List.mem_of_find?_eq_some found) (isStart_iff.mpr ⟨working, _, own⟩) (by rw [own]; nofun)
      rw [steady.eq_of_action works worksToo (Option.some.inj own)]

/-- An operation ends without an entry that is left. -/
theorem Steady.finishOperation (steady : Steady log none) (works : operation ∈ log.operations)
    {succeeded : Bool}
    (spares : log.Spares (operation.settled succeeded) (log.endWorkspace operation))
    (here : operation.start ∈ log.events operation.action.workspaceName →
      log.endWorkspace operation = operation.action.workspaceName) :
    Steady (log.finishOperation operation succeeded) none := by
  let rest : EventLog :=
    { log with operations := log.operations.filter (·.action ≠ operation.action) }
  have without : Steady rest (some operation.action) := by
    refine ⟨?_, steady.own, ?_, steady.distinct, ?_, ?_⟩
    · exact fun other member => steady.recent other (List.mem_filter.mp member).1
    · intro there entry member starts others
      obtain ⟨-, owner, own⟩ := isStart_iff.mp starts
      obtain ⟨other, worksToo, rfl, at_there⟩ :=
        steady.started there entry member starts (by rw [own]; nofun)
      have apart : other.action ≠ operation.action := fun same => others (congrArg some same)
      exact ⟨other, List.mem_filter.mpr ⟨worksToo, by simpa using apart⟩, rfl, at_there⟩
    · exact steady.single.sublist (List.filter_sublist.map _)
    · exact fun other member => steady.running other (List.mem_filter.mp member).1
  have ended : Steady (log.finishOperation operation succeeded) (some operation.action) := by
    apply without.addEvent spares
    · intro other member same
      have apart := (List.mem_filter.mp member).2
      simp [← Option.some.inj same] at apart
    · cases succeeded <;> exact fun starts => absurd (isStart_iff.mp starts).1 nofun
  refine ⟨ended.recent, ended.own, ?_, ended.distinct, ended.single, ended.running⟩
  intro there entry member starts owned
  apply ended.started there entry member starts
  intro own
  -- An entry of the operation that is left would be the one that its end replaces.
  have before : entry ∈ log.events there := by
    obtain ⟨rfl, -⟩ | old := mem_events_addEvent member
    · cases succeeded <;> exact absurd (isStart_iff.mp starts).1 nofun
    · exact old
  obtain ⟨other, worksToo, rfl, at_there⟩ := steady.started there entry before starts owned
  obtain rfl := steady.eq_of_action works worksToo (Option.some.inj own)
  subst at_there
  have same := here before
  rw [EventLog.finishOperation, same] at member
  rw [events_addEvent_self] at member
  rw [same] at spares
  exact Recent.not_mem_push (steady.distinct _) (steady.find_settled works before spares) starts
    (start_ne_settled succeeded) member

/-- A notice that keeps to its workspace keeps the log steady. -/
theorem Steady.tell (steady : Steady log none) {notice : Notice}
    (keeps : log.Keeps (.notice notice)) : Steady (log.tell notice) none := by
  rw [EventLog.tell]
  split
  next event workspaceName told =>
    apply steady.addEvent (keeps event workspaceName told)
    · exact fun operation _ => nofun
    · intro starts
      simp [TimelineEntry.isStart] at starts
  next => exact steady

/-- A reset workspace has its first entry only. -/
theorem events_resetWorkspace_self : (log.resetWorkspace workspaceName).events workspaceName =
    [⟨⟨.network, .idle⟩, none⟩] := by
  simp [resetWorkspace]

/-- A reset leaves other workspaces alone. -/
theorem events_resetWorkspace_of_ne {other : Text} (elsewhere : other ≠ workspaceName) :
    (log.resetWorkspace workspaceName).events other = log.events other := by
  simp [resetWorkspace, elsewhere]

/-- A reset of an idle workspace keeps the log steady. -/
theorem Steady.resetWorkspace (steady : Steady log none)
    (keeps : log.Keeps (.resetWorkspace workspaceName)) :
    Steady (log.resetWorkspace workspaceName) none where
  recent operation works := by
    by_cases here : operation.action.workspaceName = workspaceName
    · right
      apply (steady.recent operation works).resolve_left
      intro shown
      exact keeps operation works (here ▸ List.mem_of_mem_take shown)
    · rw [EventLog.Shows, events_resetWorkspace_of_ne here]
      exact steady.recent operation works
  own := steady.own
  started there entry member starts owned := by
    by_cases here : there = workspaceName
    · rw [here, events_resetWorkspace_self] at member
      obtain rfl := List.mem_singleton.mp member
      cases starts
    · rw [events_resetWorkspace_of_ne here] at member
      exact steady.started there entry member starts owned
  distinct there := by
    by_cases here : there = workspaceName
    · rw [here, events_resetWorkspace_self]
      exact List.nodup_nil
    · rw [events_resetWorkspace_of_ne here]
      exact steady.distinct there
  single := steady.single
  running := steady.running

/-- A chain action is running until it returns. -/
theorem mem_running_step {chain after : ChainActions} {call : ChainActions.ChainCall}
    (running : action ∈ chain.running) (other : call ≠ .finish action)
    (stepped : chain.step call = some after) : action ∈ after.running := by
  cases call with
  | runChainAction kind =>
      cases taken : chain.chainActionRef with
      | none =>
          simp only [ChainActions.step, ChainActions.runChainAction, taken] at stepped
          cases stepped
          exact List.mem_append_left _ running
      | some current =>
          simp only [ChainActions.step, ChainActions.runChainAction, taken] at stepped
          cases stepped
          exact running
  | finish finished =>
      simp only [ChainActions.step] at stepped
      split at stepped
      next =>
        cases stepped
        have apart : action ≠ finished := fun same => other (congrArg _ same.symm)
        exact (List.mem_erase_of_ne apart).mpr running
      next => cases stepped
  | test workspaceName =>
      cases stepped
      exact running
  | tested workspaceName =>
      simp only [ChainActions.step] at stepped
      split at stepped
      next =>
        cases stepped
        simp only [ChainActions.setInlineInteractionRunning]
        split
        next => exact running
        split
        · split <;> exact running
        · exact running
      next => cases stepped
  | switchWorkspace workspaceName =>
      cases stepped
      exact running

/-- The chain actions keep the log steady. -/
theorem Steady.stepChain (steady : Steady log none) {call : ChainActions.ChainCall}
    (stepped : log.stepChain call = some next) : Steady next none := by
  have moved {after : ChainActions} (ran : log.chain.step call = some after)
      (idle : ∀ action, call = .finish action → log.isIdle action) :
      Steady { log with chain := after } none := by
    refine ⟨steady.recent, steady.own, steady.started, steady.distinct, steady.single, ?_⟩
    intro operation works
    apply mem_running_step (steady.running operation works) ?_ ran
    intro finishes
    exact (isIdle_iff.mp (idle _ finishes)).2 operation works rfl
  unfold EventLog.stepChain at stepped
  split at stepped
  next action =>
    split at stepped
    next idle =>
      obtain ⟨after, ran, rfl⟩ := Option.map_eq_some_iff.mp stepped
      exact moved ran fun other same => (ChainActions.ChainCall.finish.inj same) ▸ idle
    next => cases stepped
  next other =>
    obtain ⟨after, ran, rfl⟩ := Option.map_eq_some_iff.mp stepped
    exact moved ran fun action same => absurd same (other action)

/-- By cases on the call. -/
theorem steady_step (steady : Steady log none) (keeps : log.Keeps call)
    (stepped : log.step call = some next) : Steady next none := by
  cases call with
  | chain call => exact steady.stepChain stepped
  | switchWorkspace workspaceName =>
      cases stepped
      exact ⟨steady.recent, steady.own, steady.started, steady.distinct, steady.single,
        steady.running⟩
  | buildProgram action =>
      simp only [EventLog.step, EventLog.buildProgram] at stepped
      split at stepped
      next ready =>
        cases stepped
        rw [show log.buildWorkspace action = action.workspaceName from keeps]
        exact steady.start ready.1 .build
      next => cases stepped
  | deployProgram action =>
      simp only [EventLog.step, EventLog.deployProgram] at stepped
      split at stepped
      next ready =>
        cases stepped
        rw [show log.chain.activeWorkspaceName = action.workspaceName from keeps]
        exact steady.start ready.1 .deploy
      next => cases stepped
  | runLessonInteraction action =>
      simp only [EventLog.step, EventLog.runLessonInteraction] at stepped
      split at stepped
      next ready =>
        cases stepped
        rw [show log.chain.activeWorkspaceName = action.workspaceName from keeps]
        exact steady.start ready.1 .instruction
      next => cases stepped
  | settle action succeeded =>
      obtain ⟨operation, found, rfl⟩ := Option.map_eq_some_iff.mp stepped
      have works := List.mem_of_find?_eq_some found
      have own : operation.action = action := by simpa using List.find?_some found
      obtain ⟨spares, here⟩ := keeps operation works own
      exact steady.finishOperation works spares (own ▸ here)
  | notice notice =>
      cases stepped
      exact steady.tell keeps
  | resetWorkspace workspaceName =>
      cases stepped
      exact steady.resetWorkspace keeps

/-- A log without working entries is steady. -/
theorem steady_initial (activeWorkspaceName : Text) (explorer : Option Text)
    (events : Text → List { event : LearningEvent // event.status ≠ .working }) :
    Steady (initial activeWorkspaceName explorer events) none where
  recent := List.forall_mem_nil _
  own := List.forall_mem_nil _
  started workspaceName entry member starts := by
    obtain ⟨event, -, rfl⟩ := List.mem_map.mp member
    exact absurd (isStart_iff.mp starts).1 event.2
  distinct workspaceName := by
    have none : ((initial activeWorkspaceName explorer events).events workspaceName).filter
        TimelineEntry.isStart = [] := by
      apply List.filter_eq_nil_iff.mpr
      intro entry member starts
      obtain ⟨event, -, rfl⟩ := List.mem_map.mp member
      exact absurd (isStart_iff.mp starts).1 event.2
    rw [none]
    exact List.nodup_nil
  single := List.nodup_nil
  running := List.forall_mem_nil _

/-- In a run in which events replace what is of their own action, and operations start and
end in the workspace of theirs, the timelines show what is at work and nothing else. -/
theorem visible_throughout (activeWorkspaceName : Text) (explorer : Option Text)
    (events : Text → List { event : LearningEvent // event.status ≠ .working })
    (calls : List EventCall)
    (keeps : machine.Meets Keeps (initial activeWorkspaceName explorer events) calls) :
    machine.Throughout Visible (initial activeWorkspaceName explorer events) calls := by
  have steady : machine.Throughout (Steady · none) _ calls :=
    Machine.throughout_of_meets (Steady · none) steady_step
      (steady_initial activeWorkspaceName explorer events) keeps
  exact steady.mono fun log here => here.visible

/-- A deploy from its start to its end, while a program is opened in another workspace. -/
theorem visible_throughout_deploy :
    machine.Throughout Visible (initial "counter".toList (some "counter".toList) fun _ => [])
      [.chain (.runChainAction .deploy), .deployProgram ⟨.deploy, "counter".toList, 0⟩,
        .notice (.opened "vault".toList), .settle ⟨.deploy, "counter".toList, 0⟩ true,
        .chain (.finish ⟨.deploy, "counter".toList, 0⟩)] := by
  apply visible_throughout
  refine ⟨trivial, ?_⟩
  rintro _ ⟨⟩
  refine ⟨rfl, ?_⟩
  rintro _ ⟨⟩
  constructor
  · rintro event workspaceName ⟨⟩ other found
    cases found
  rintro _ ⟨⟩
  constructor
  · intro operation works _
    obtain rfl := List.mem_singleton.mp works
    constructor
    · rintro other ⟨⟩
      rfl
    · exact fun _ => rfl
  rintro _ ⟨⟩
  exact ⟨trivial, fun _ _ => trivial⟩

/-- A lesson that is selected during a deploy replaces the entry of the deploy. -/
theorem not_always_visible : ¬ ∀ (activeWorkspaceName : Text) (explorer : Option Text)
    (events : Text → List { event : LearningEvent // event.status ≠ .working })
    (calls : List EventCall),
    machine.Throughout Visible (initial activeWorkspaceName explorer events) calls := by
  intro visible
  have after := (visible "counter".toList (some "counter".toList) (fun _ => [])
    [.chain (.runChainAction .deploy), .deployProgram ⟨.deploy, "counter".toList, 0⟩,
      .notice .chainActionBlocks]).of_run rfl
  have shown := after.shown _ (List.mem_singleton_self _)
  exact absurd shown (by decide)

end EventLog
end Solpg.Client.Learning
