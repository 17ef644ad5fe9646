import Mathlib.Logic.Function.Basic
import Solpg.Client.Learning.ChainActions

/-!
# Workspace states

`useLearningWorkspace`: how far the program of each workspace is, and the events
that its timeline shows. An event carries the workspace whose chain action it is of.
-/

namespace Solpg.Client.Learning

open Solpg.Std

inductive ProgramStage where
  | source
  | built
  | deployed
  deriving DecidableEq, Repr

inductive EventKind where
  | network
  | build
  | deploy
  | instruction
  | idea
  deriving DecidableEq, Repr

inductive EventStatus where
  | idle
  | working
  | success
  | error
  deriving DecidableEq, Repr

structure LearningEvent where
  kind : EventKind
  status : EventStatus
  deriving DecidableEq, Repr

/-- An event and the workspace that its chain action was started for, if it is of one. -/
structure ActionEvent where
  event : LearningEvent
  startedFor : Option Text
  deriving DecidableEq, Repr

/-- The update that `addEvent` makes: what is settled replaces what was in progress. -/
def recordEvent (next : ActionEvent) (current : List ActionEvent) : List ActionEvent :=
  if next.event.status ≠ .working then
    match current.findIdx? fun other =>
        other.event.kind = next.event.kind ∧ other.event.status = .working with
    | some workingIndex => (next :: current.eraseIdx workingIndex).take 8
    | none => (next :: current).take 8
  else (next :: current).take 8

theorem mem_of_mem_recordEvent {next event : ActionEvent} {current : List ActionEvent}
    (recorded : event ∈ recordEvent next current) : event = next ∨ event ∈ current := by
  have of_take {rest : List ActionEvent} (sublist : rest ⊆ current)
      (recorded : event ∈ (next :: rest).take 8) : event = next ∨ event ∈ current :=
    (List.mem_cons.mp (List.mem_of_mem_take recorded)).imp_right fun mem => sublist mem
  rw [recordEvent] at recorded
  split at recorded
  · split at recorded
    · exact of_take (List.eraseIdx_subset) recorded
    · exact of_take (List.Subset.refl _) recorded
  · exact of_take (List.Subset.refl _) recorded

/-- A program, by the workspaces that its code and its program info are of. -/
structure Program where
  code : Option Text
  info : Option Text
  deriving DecidableEq, Repr

/-- The program of a workspace. -/
def Program.own (workspaceName : Text) : Program := ⟨some workspaceName, some workspaceName⟩

structure LearningWorkspaces where
  programStage : Text → ProgramStage
  events : Text → List ActionEvent

namespace LearningWorkspaces

/-- The states that the browser has stored. -/
def stored (stages : Text → ProgramStage) (events : Text → List LearningEvent) :
    LearningWorkspaces where
  programStage := stages
  events workspaceName := (events workspaceName).map (⟨·, none⟩)

variable (workspaces : LearningWorkspaces)

def setProgramStage (workspaceName : Text) (stage : ProgramStage) : LearningWorkspaces :=
  { workspaces with programStage := Function.update workspaces.programStage workspaceName stage }

def addEvent (event : ActionEvent) (workspaceName : Text) : LearningWorkspaces :=
  { workspaces with
    events := Function.update workspaces.events workspaceName
      (recordEvent event (workspaces.events workspaceName)) }

/-- `createWorkspaceLearningState` in place of the state that a workspace had. -/
def reset (workspaceName : Text) : LearningWorkspaces where
  programStage := Function.update workspaces.programStage workspaceName .source
  events := Function.update workspaces.events workspaceName [⟨⟨.network, .idle⟩, none⟩]

/-! ## Stages and events of the workspace's own actions -/

/-- An event can be in the timeline of the workspace. -/
def Belongs (event : ActionEvent) (workspaceName : Text) : Prop :=
  event.event.status = .success ∨ event.event.status = .error →
    ∀ owner, event.startedFor = some owner → owner = workspaceName

/-- The stages that were not `stored` are those of own programs that have been built and
deployed, and how an action has ended is told where it was started. -/
structure Attached (stages : Text → ProgramStage) (completed : List (ChainAction × Program))
    (workspaces : LearningWorkspaces) : Prop where
  built : ∀ workspaceName, workspaces.programStage workspaceName = .built →
    stages workspaceName = .built ∨ (.build, .own workspaceName) ∈ completed
  deployed : ∀ workspaceName, workspaces.programStage workspaceName = .deployed →
    stages workspaceName = .deployed ∨ (.deploy, .own workspaceName) ∈ completed
  events : ∀ workspaceName, ∀ event ∈ workspaces.events workspaceName, Belongs event workspaceName

variable {workspaces} {stages : Text → ProgramStage} {completed : List (ChainAction × Program)}
  {workspaceName : Text}

theorem attached_stored (events : Text → List LearningEvent) :
    Attached stages completed (stored stages events) where
  built _ := .inl
  deployed _ := .inl
  events workspaceName event recorded := by
    obtain ⟨past, -, rfl⟩ := List.mem_map.mp recorded
    exact fun _ _ => nofun

theorem Attached.complete (attached : Attached stages completed workspaces)
    (completion : ChainAction × Program) :
    Attached stages (completed ++ [completion]) workspaces where
  built workspaceName stage :=
    (attached.built workspaceName stage).imp_right (List.mem_append_left _)
  deployed workspaceName stage :=
    (attached.deployed workspaceName stage).imp_right (List.mem_append_left _)
  events := attached.events

/-- The stage of a workspace follows its own build and its own deploy. -/
theorem Attached.setProgramStage {stage : ProgramStage}
    (attached : Attached stages completed workspaces)
    (built : stage = .built → (.build, .own workspaceName) ∈ completed)
    (deployed : stage = .deployed → (.deploy, .own workspaceName) ∈ completed) :
    Attached stages completed (workspaces.setProgramStage workspaceName stage) where
  built other := by
    by_cases same : other = workspaceName
    · subst same
      simpa [LearningWorkspaces.setProgramStage] using fun is => .inr (built is)
    · simpa [LearningWorkspaces.setProgramStage, same] using attached.built other
  deployed other := by
    by_cases same : other = workspaceName
    · subst same
      simpa [LearningWorkspaces.setProgramStage] using fun is => .inr (deployed is)
    · simpa [LearningWorkspaces.setProgramStage, same] using attached.deployed other
  events := attached.events

theorem Attached.addEvent {event : ActionEvent} (attached : Attached stages completed workspaces)
    (belongs : Belongs event workspaceName) :
    Attached stages completed (workspaces.addEvent event workspaceName) where
  built := attached.built
  deployed := attached.deployed
  events other member recorded := by
    by_cases same : other = workspaceName
    · subst same
      simp only [LearningWorkspaces.addEvent, Function.update_self] at recorded
      obtain rfl | before := mem_of_mem_recordEvent recorded
      · exact belongs
      · exact attached.events other member before
    · simp only [LearningWorkspaces.addEvent, Function.update_of_ne same] at recorded
      exact attached.events other member recorded

theorem Attached.reset (attached : Attached stages completed workspaces) (workspaceName : Text) :
    Attached stages completed (workspaces.reset workspaceName) where
  built other := by
    by_cases same : other = workspaceName
    · simp [LearningWorkspaces.reset, same]
    · simpa [LearningWorkspaces.reset, same] using attached.built other
  deployed other := by
    by_cases same : other = workspaceName
    · simp [LearningWorkspaces.reset, same]
    · simpa [LearningWorkspaces.reset, same] using attached.deployed other
  events other event recorded := by
    by_cases same : other = workspaceName
    · obtain rfl : event = ⟨⟨.network, .idle⟩, none⟩ := by
        simpa [LearningWorkspaces.reset, same] using recorded
      exact fun _ _ => nofun
    · simp only [LearningWorkspaces.reset, Function.update_of_ne same] at recorded
      exact attached.events other event recorded

end LearningWorkspaces
end Solpg.Client.Learning
