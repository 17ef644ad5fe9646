import Solpg.Client.Learning.LearningWorkspace

/-!
# Chain actions and navigation

`useProgramActions`, `useWorkspaceNavigation` and `usePlaygroundEvents` together. A
step is what runs between two awaits. Some writes name the workspace that their
action was started for, others take the active one, and the listeners of the commands
take that of `PgExplorer`.
-/

namespace Solpg.Client.Learning

open Solpg.Std LearningWorkspaces

/-- Where the operation of a chain action is. -/
inductive ActionPhase where
  /-- `deployProgram` awaits `ensureSurfpool`. -/
  | connecting
  /-- `buildProgram` awaits `buildCurrentProgram`. -/
  | building (workspaceName : Text) (program : Program)
  /-- The deploy command runs its checks. -/
  | checking
  /-- The checks await the build command. -/
  | rebuilding (program : Program)
  /-- The deploy command has the binary of a workspace. -/
  | uploading (binary : Option Text)
  /-- The deploy command has returned or thrown. -/
  | executed (succeeded : Bool)
  /-- `runLessonInteraction` awaits the test command. -/
  | testing
  | ended
  deriving DecidableEq, Repr

/-- How the build command ends. -/
inductive BuildOutcome where
  | built
  /-- The compiler has found an issue. -/
  | failed
  | thrown
  deriving DecidableEq, Repr

/-- What the user navigates to. -/
inductive NavigationKind where
  | lesson
  | tutorial
  | program
  | customProgram
  | newProgram
  deriving DecidableEq, Repr

/-- A navigation under way and the workspace it leads to. -/
structure Navigation where
  kind : NavigationKind
  workspaceName : Text
  deriving DecidableEq, Repr

/-- The state of the page. `explorer` is the current workspace of `PgExplorer`, and
`programInfo` the one whose program info is loaded. `navigations` are those that await
`PgExplorer`, `completed` are the programs that have been built and deployed. -/
structure Playground where
  chain : ChainActions
  explorer : Option Text
  programInfo : Option Text
  operation : Option ActionPhase
  workspaces : LearningWorkspaces
  navigations : List Navigation
  completed : List (ChainAction × Program)

namespace Playground

/-- The page after it has loaded. -/
def initial (stages : Text → ProgramStage) (events : Text → List LearningEvent)
    (activeWorkspaceName : Text) (explorer programInfo : Option Text) : Playground where
  chain := .initial activeWorkspaceName
  explorer := explorer
  programInfo := programInfo
  operation := none
  workspaces := .stored stages events
  navigations := []
  completed := []

variable (playground : Playground)

/-- The workspace the page shows. -/
def activeWorkspaceName : Text := playground.chain.activeWorkspaceName

/-- `setActiveWorkspaceName` of the page. -/
def setActiveWorkspaceName (workspaceName : Text) : Playground :=
  { playground with chain := { playground.chain with activeWorkspaceName := workspaceName } }

/-- The workspace that the chain action was started for. -/
def owner : Option Text := playground.chain.chainActionRef.map ActiveAction.workspaceName

/-- Whether the running chain action is of this kind. -/
def actionIs (action : ChainAction) : Bool :=
  playground.chain.chainActionRef.any fun current => current.action = action

/-- `addEvent` in an operation, or in a listener while one is under way. -/
def record (kind : EventKind) (status : EventStatus) (workspaceName : Text) : Playground :=
  { playground with
    workspaces := playground.workspaces.addEvent ⟨⟨kind, status⟩, playground.owner⟩ workspaceName }

/-- `setProgramStage` of the workspace states. -/
def setStage (workspaceName : Text) (stage : ProgramStage) : Playground :=
  { playground with workspaces := playground.workspaces.setProgramStage workspaceName stage }

/-- The running action waits for the end of a phase. -/
def await (phase : ActionPhase) : Playground := { playground with operation := some phase }

/-! ## The operations -/

/-- `buildProgram` up to its await. -/
def buildProgram (workspaceName : Text) : Playground :=
  if playground.explorer = some workspaceName then
    ((playground.setStage workspaceName .source).record .build .working workspaceName).await
      (.building workspaceName ⟨playground.explorer, playground.programInfo⟩)
  else playground.await .ended

/-- `deployProgram` from the call of the deploy command. -/
def executeDeploy : Playground :=
  (playground.record .deploy .working playground.activeWorkspaceName).await .checking

/-- `deployProgram` with a connection. `unbuilt` tells that the loaded program info has no
successful build. -/
def deployConnected (unbuilt : Bool) : Playground :=
  if unbuilt then playground.buildProgram playground.activeWorkspaceName
  else playground.executeDeploy

/-- `deployProgram`, which first connects to the cluster when it has to. -/
def deployProgram (surfpoolConnected unbuilt : Bool) : Playground :=
  if surfpoolConnected then playground.deployConnected unbuilt else playground.await .connecting

/-- `runLessonInteraction` from the call of the test command. -/
def executeTest : Playground :=
  (playground.record .instruction .working playground.activeWorkspaceName).await .testing

/-- `runLessonInteraction`, which deploys first when the program is not deployed. -/
def runLessonInteraction (surfpoolConnected unbuilt : Bool) : Playground :=
  if playground.workspaces.programStage playground.activeWorkspaceName ≠ .deployed then
    playground.deployProgram surfpoolConnected unbuilt
  else playground.executeTest

/-- `runChainAction` up to the first await of its operation. -/
def runChainAction (action : ChainAction) (operation : Playground → Playground) : Playground :=
  match playground.chain.runChainAction action with
  | .ok chain => operation { playground with chain := chain }
  | .error _ => playground

/-- The build button. -/
def runBuild : Playground :=
  playground.runChainAction .build fun started =>
    started.buildProgram playground.activeWorkspaceName

/-- The deploy button. -/
def runDeploy (surfpoolConnected unbuilt : Bool) : Playground :=
  playground.runChainAction .deploy fun started => started.deployProgram surfpoolConnected unbuilt

/-- The interaction button. -/
def runInteraction (surfpoolConnected unbuilt : Bool) : Playground :=
  playground.runChainAction .interact fun started =>
    started.runLessonInteraction surfpoolConnected unbuilt

/-- An action has ended for this program. -/
def complete (action : ChainAction) (program : Program) : Playground :=
  { playground with completed := playground.completed ++ [(action, program)] }

/-- `buildProgram` after its await, and what its caller goes on with. -/
def built (workspaceName : Text) (program : Program) (succeeded : Bool) : Playground :=
  if succeeded then
    let done := ((playground.complete .build program).setStage workspaceName .built).record
      .build .success workspaceName
    if playground.actionIs .build then done.await .ended else done.executeDeploy
  else
    ((playground.setStage workspaceName .source).record .build .error workspaceName).await .ended

/-- The listener of the build command. -/
def buildListener (failed : Bool) : Playground :=
  match playground.explorer with
  | none => playground
  | some workspaceName =>
      let staged := playground.setStage workspaceName (if failed then .source else .built)
      if playground.actionIs .build then staged
      else staged.record .build (if failed then .error else .success) workspaceName

/-- The build command that the checks have called ends. -/
def rebuilt (program : Program) : BuildOutcome → Playground
  | .built => ((playground.complete .build program).buildListener false).await .checking
  | .failed => (playground.buildListener true).await .checking
  | .thrown => (playground.buildListener true).await (.executed false)

/-- The listener of the deploy command. -/
def deployListener (succeeded : Bool) : Playground :=
  match playground.explorer with
  | none => playground
  | some workspaceName =>
      if playground.actionIs .deploy then playground
      else if succeeded then
        (playground.setStage workspaceName .deployed).record .deploy .success workspaceName
      else playground.record .deploy .error workspaceName

/-- The handler of the deploy command ends. The program id is that of the program info that
is loaded by then. -/
def uploaded (binary : Option Text) : Bool → Playground
  | true =>
      ((playground.complete .deploy ⟨binary, playground.programInfo⟩).deployListener true).await
        (.executed true)
  | false => (playground.deployListener false).await (.executed false)

/-- `deployProgram` after the deploy command, and what its caller goes on with. -/
def deployed : Bool → Playground
  | true =>
      let done := (playground.setStage playground.activeWorkspaceName .deployed).record
        .deploy .success playground.activeWorkspaceName
      if playground.actionIs .deploy then done.await .ended else done.executeTest
  | false => (playground.record .deploy .error playground.activeWorkspaceName).await .ended

/-- `runLessonInteraction` after the test command. -/
def tested (succeeded : Bool) : Playground :=
  (playground.record .instruction (if succeeded then .success else .error)
    playground.activeWorkspaceName).await .ended

/-- The end of `runChainAction`. -/
def finish : Option Playground :=
  playground.chain.chainActionRef.map fun current =>
    { playground with chain := playground.chain.finish current, operation := none }

/-! ## Navigation -/

/-- A chain action other than a build keeps the user from leaving. -/
def chainActionBlocks : Bool :=
  playground.chain.chainActionRef.any fun current => current.action ≠ .build

/-- `addEvent` in a navigation. -/
def note (kind : EventKind) (status : EventStatus) (workspaceName : Text) : Playground :=
  { playground with
    workspaces := playground.workspaces.addEvent ⟨⟨kind, status⟩, none⟩ workspaceName }

/-- A navigation up to its awaits. -/
def navigate (navigation : Navigation) : Playground :=
  if navigation.kind = .customProgram ∧
      navigation.workspaceName = playground.activeWorkspaceName then playground
  else if playground.chainActionBlocks then
    playground.note (if playground.actionIs .deploy then .deploy else .instruction) .idle
      playground.activeWorkspaceName
  else { playground with navigations := playground.navigations ++ [navigation] }

/-- A new program does not inherit the state of an earlier one of its name. -/
def resetWorkspace (workspaceName : Text) : Playground :=
  { playground with
    workspaces := playground.workspaces.reset workspaceName
    chain := { playground.chain with
      chainAction := Function.update playground.chain.chainAction workspaceName none } }

/-- A navigation after its awaits. -/
def arrived (navigation : Navigation) : Playground :=
  match navigation.kind with
  | .lesson | .customProgram => playground.setActiveWorkspaceName navigation.workspaceName
  | .tutorial | .program =>
      (playground.setActiveWorkspaceName navigation.workspaceName).note .idea .success
        navigation.workspaceName
  | .newProgram =>
      ((playground.resetWorkspace navigation.workspaceName).setActiveWorkspaceName
        navigation.workspaceName).note .idea .success navigation.workspaceName

/-- A navigation that failed. -/
def notArrived (navigation : Navigation) : Playground :=
  match navigation.kind with
  | .tutorial | .program => playground.note .build .error playground.activeWorkspaceName
  | _ => playground

/-- The end of a navigation, with or without success. -/
def arrive (navigation : Navigation) (succeeded : Bool) : Playground :=
  let rest := { playground with navigations := playground.navigations.erase navigation }
  if succeeded then rest.arrived navigation else rest.notArrived navigation

/-- The listener of `PgExplorer`. -/
def syncWorkspace : Playground :=
  match playground.explorer with
  | none => playground
  | some workspaceName => playground.setActiveWorkspaceName workspaceName

/-! ## Steps -/

/-- What an operation awaits comes to its end. -/
inductive Progress where
  /-- `ensureSurfpool` is settled. -/
  | connected (succeeded unbuilt : Bool)
  | built (succeeded : Bool)
  /-- The checks of the deploy command find no build and run one. -/
  | rebuild
  | rebuilt (outcome : BuildOutcome)
  /-- A check of the deploy command fails. -/
  | reject
  | upload
  | uploaded (succeeded : Bool)
  | deployed
  | tested (succeeded : Bool)
  | finish
  deriving DecidableEq, Repr

/-- The phase the running action waits for has ended. -/
def proceed : ActionPhase → Progress → Option Playground
  | .connecting, .connected true unbuilt => some (playground.deployConnected unbuilt)
  | .connecting, .connected false _ => some (playground.await .ended)
  | .building workspaceName program, .built succeeded =>
      some (playground.built workspaceName program succeeded)
  | .checking, .rebuild =>
      some (playground.await (.rebuilding ⟨playground.explorer, playground.programInfo⟩))
  | .rebuilding program, .rebuilt outcome => some (playground.rebuilt program outcome)
  | .checking, .reject => some (playground.await (.executed false))
  | .checking, .upload => some (playground.await (.uploading playground.programInfo))
  | .uploading binary, .uploaded succeeded => some (playground.uploaded binary succeeded)
  | .executed succeeded, .deployed => some (playground.deployed succeeded)
  | .testing, .tested succeeded => some (playground.tested succeeded)
  | .ended, .finish => playground.finish
  | _, _ => none

/-- What the user does and what the outside answers. -/
inductive PlaygroundCall where
  | runBuild
  | runDeploy (surfpoolConnected unbuilt : Bool)
  | runInteraction (surfpoolConnected unbuilt : Bool)
  | proceed (progress : Progress)
  | navigate (navigation : Navigation)
  | arrive (navigation : Navigation) (succeeded : Bool)
  /-- `PgExplorer` switches its workspace, for a navigation or for itself. -/
  | switchWorkspace (workspaceName : Option Text)
  | syncWorkspace
  /-- The program info of a workspace is loaded. -/
  | refresh (workspaceName : Option Text)
  deriving DecidableEq, Repr

/-- One event of the page. -/
def step : PlaygroundCall → Option Playground
  | .runBuild => some playground.runBuild
  | .runDeploy surfpoolConnected unbuilt => some (playground.runDeploy surfpoolConnected unbuilt)
  | .runInteraction surfpoolConnected unbuilt =>
      some (playground.runInteraction surfpoolConnected unbuilt)
  | .proceed progress => playground.operation.bind fun phase => playground.proceed phase progress
  | .navigate navigation => some (playground.navigate navigation)
  | .arrive navigation succeeded =>
      if navigation ∈ playground.navigations then some (playground.arrive navigation succeeded)
      else none
  | .switchWorkspace workspaceName => some { playground with explorer := workspaceName }
  | .syncWorkspace => some playground.syncWorkspace
  | .refresh workspaceName => some { playground with programInfo := workspaceName }

/-- The page from its first state on. -/
def machine : Machine Playground PlaygroundCall where
  Initial playground := ∃ stages events activeWorkspaceName explorer programInfo,
    playground = initial stages events activeWorkspaceName explorer programInfo
  next playground call := playground.step call

/-! ## Actions that stay attached -/

/-- The page shows the workspace, and `PgExplorer` and the program info are of it. -/
structure At (workspaceName : Text) : Prop where
  active : playground.activeWorkspaceName = workspaceName
  explorer : playground.explorer = some workspaceName
  programInfo : playground.programInfo = some workspaceName

/-- A workspace is only left when no deploy and no interaction of it is under way, and
these only start when it is open, as a build does when its program info is loaded. -/
def Stays (playground : Playground) : PlaygroundCall → Prop
  | .runBuild => playground.chain.chainActionRef = none →
      playground.explorer = some playground.activeWorkspaceName →
        playground.programInfo = some playground.activeWorkspaceName
  | .runDeploy _ _ | .runInteraction _ _ => playground.chain.chainActionRef = none →
      playground.At playground.activeWorkspaceName
  | .arrive navigation true => ∀ current, playground.chain.chainActionRef = some current →
      current.action ≠ .build → navigation.workspaceName = current.workspaceName
  | .switchWorkspace workspaceName | .refresh workspaceName =>
      ∀ current, playground.chain.chainActionRef = some current →
        current.action ≠ .build → workspaceName = some current.workspaceName
  | _ => True

/-- What is known while the operation of a chain action is at a phase. -/
def Fits (current : ActiveAction) (completed : List (ChainAction × Program)) : ActionPhase → Prop
  | .building workspaceName program =>
      workspaceName = current.workspaceName ∧ program = .own current.workspaceName
  | .rebuilding program => current.action ≠ .build ∧ program = .own current.workspaceName
  | .uploading binary => current.action ≠ .build ∧ binary = some current.workspaceName
  | .executed true => current.action ≠ .build ∧ (.deploy, .own current.workspaceName) ∈ completed
  | .ended => True
  | _ => current.action ≠ .build

/-- The chain action holds the lock, and a deploy or an interaction is where it was started. -/
structure Held (stages : Text → ProgramStage) (current : ActiveAction) : Prop where
  attached : Attached stages playground.completed playground.workspaces
  taken : playground.chain.chainActionRef = some current
  stays : current.action ≠ .build → playground.At current.workspaceName

/-- The invariant: what is recorded belongs to the workspace of the running action. -/
structure Steady (stages : Text → ProgramStage) : Prop where
  attached : Attached stages playground.completed playground.workspaces
  fits : ∀ phase, playground.operation = some phase →
    ∃ current, playground.chain.chainActionRef = some current ∧
      Fits current playground.completed phase
  stays : ∀ current, playground.chain.chainActionRef = some current →
    current.action ≠ .build → playground.At current.workspaceName

variable {playground} {stages : Text → ProgramStage} {current : ActiveAction}
  {next : Playground} {call : PlaygroundCall}

/-- While an operation is at a phase, its chain action holds the lock. -/
theorem Steady.held {phase : ActionPhase} (steady : Steady playground stages)
    (at_phase : playground.operation = some phase) :
    ∃ current, Held playground stages current ∧ Fits current playground.completed phase := by
  obtain ⟨current, taken, fits⟩ := steady.fits phase at_phase
  exact ⟨current, ⟨steady.attached, taken, steady.stays current taken⟩, fits⟩

/-- The place of the page depends on three of its parts only. -/
theorem At.frame {workspaceName : Text} {other : Playground} (here : playground.At workspaceName)
    (active : other.activeWorkspaceName = playground.activeWorkspaceName)
    (explorer : other.explorer = playground.explorer)
    (programInfo : other.programInfo = playground.programInfo) : other.At workspaceName :=
  ⟨active.trans here.active, explorer.trans here.explorer, programInfo.trans here.programInfo⟩

/-- The deploy listener completes no action. -/
theorem completed_deployListener (succeeded : Bool) :
    (playground.deployListener succeeded).completed = playground.completed := by
  rw [Playground.deployListener]
  split
  · rfl
  split
  · rfl
  split <;> rfl

/-- A completed action is recorded. -/
theorem mem_complete (action : ChainAction) (program : Program) :
    (action, program) ∈ (playground.complete action program).completed :=
  List.mem_append_right _ (List.mem_singleton.mpr rfl)

namespace Held

/-- Waiting for a phase that fits the action keeps the invariant. -/
theorem await {phase : ActionPhase} (held : Held playground stages current)
    (fits : Fits current playground.completed phase) : Steady (playground.await phase) stages where
  attached := held.attached
  fits other is := by
    obtain rfl : phase = other := by simpa [Playground.await] using is
    exact ⟨current, held.taken, fits⟩
  stays other is nonBuild := by
    obtain rfl : current = other := Option.some.inj (held.taken.symm.trans is)
    exact (held.stays nonBuild).frame rfl rfl rfl

/-- Recording an event keeps the hold of the action. -/
theorem record (held : Held playground stages current) (kind : EventKind) (status : EventStatus) :
    Held (playground.record kind status current.workspaceName) stages current where
  attached := by
    refine held.attached.addEvent fun _ owner startedFor => ?_
    have same : current.workspaceName = owner := by
      simpa [Playground.owner, held.taken] using startedFor
    exact same.symm
  taken := held.taken
  stays nonBuild := (held.stays nonBuild).frame rfl rfl rfl

/-- A stage that was earned may be set. -/
theorem setStage (held : Held playground stages current) (stage : ProgramStage)
    (built : stage = .built → (.build, .own current.workspaceName) ∈ playground.completed)
    (deployed : stage = .deployed → (.deploy, .own current.workspaceName) ∈ playground.completed) :
    Held (playground.setStage current.workspaceName stage) stages current where
  attached := held.attached.setProgramStage built deployed
  taken := held.taken
  stays nonBuild := (held.stays nonBuild).frame rfl rfl rfl

/-- Completing an action keeps what was completed before. -/
theorem complete (held : Held playground stages current) (action : ChainAction)
    (program : Program) : Held (playground.complete action program) stages current where
  attached := held.attached.complete (action, program)
  taken := held.taken
  stays nonBuild := (held.stays nonBuild).frame rfl rfl rfl

variable (held : Held playground stages current)
include held

/-- Under the hold the running action is the current one. -/
theorem actionIs (action : ChainAction) :
    playground.actionIs action = decide (current.action = action) := by
  simp [Playground.actionIs, held.taken]

/-- A build starts with the program of the workspace. -/
theorem buildProgram (loaded : playground.explorer = some current.workspaceName →
      playground.programInfo = some current.workspaceName) :
    Steady (playground.buildProgram current.workspaceName) stages := by
  rw [Playground.buildProgram]
  split
  next opened =>
    have building := (held.setStage .source nofun nofun).record .build .working
    refine building.await ⟨rfl, ?_⟩
    rw [opened, loaded opened, Program.own]
  next => exact held.await trivial

/-- Starting the upload keeps the invariant. -/
theorem executeDeploy (nonBuild : current.action ≠ .build) :
    Steady playground.executeDeploy stages := by
  rw [Playground.executeDeploy, (held.stays nonBuild).active]
  exact (held.record .deploy .working).await nonBuild

/-- Deploying once connected keeps the invariant. -/
theorem deployConnected (nonBuild : current.action ≠ .build) (unbuilt : Bool) :
    Steady (playground.deployConnected unbuilt) stages := by
  rw [Playground.deployConnected]
  split
  · rw [(held.stays nonBuild).active]
    exact held.buildProgram fun _ => (held.stays nonBuild).programInfo
  · exact held.executeDeploy nonBuild

/-- Deploying keeps the invariant. -/
theorem deployProgram (nonBuild : current.action ≠ .build) (surfpoolConnected unbuilt : Bool) :
    Steady (playground.deployProgram surfpoolConnected unbuilt) stages := by
  rw [Playground.deployProgram]
  split
  · exact held.deployConnected nonBuild unbuilt
  · exact held.await nonBuild

/-- Starting the tests keeps the invariant. -/
theorem executeTest (nonBuild : current.action ≠ .build) :
    Steady playground.executeTest stages := by
  rw [Playground.executeTest, (held.stays nonBuild).active]
  exact (held.record .instruction .working).await nonBuild

/-- An interaction keeps the invariant. -/
theorem runLessonInteraction (nonBuild : current.action ≠ .build)
    (surfpoolConnected unbuilt : Bool) :
    Steady (playground.runLessonInteraction surfpoolConnected unbuilt) stages := by
  rw [Playground.runLessonInteraction]
  split
  · exact held.deployProgram nonBuild surfpoolConnected unbuilt
  · exact held.executeTest nonBuild

/-- A build that has ended is told in its workspace. -/
theorem built (succeeded : Bool) :
    Steady (playground.built current.workspaceName (.own current.workspaceName) succeeded)
      stages := by
  rw [Playground.built]
  split
  · have completed := held.complete .build (.own current.workspaceName)
    have done := (completed.setStage .built (fun _ => mem_complete _ _) nofun).record .build .success
    split
    · exact done.await trivial
    next other =>
      refine done.executeDeploy fun builds => other ?_
      rw [held.actionIs, builds]
      rfl
  · exact ((held.setStage .source nofun nofun).record .build .error).await trivial

/-- The listener of the build command writes to the workspace of the action. -/
theorem buildListener (nonBuild : current.action ≠ .build) (failed : Bool)
    (done : failed = false → (.build, .own current.workspaceName) ∈ playground.completed) :
    Held (playground.buildListener failed) stages current := by
  simp only [Playground.buildListener, (held.stays nonBuild).explorer]
  have staged : Held (playground.setStage current.workspaceName
      (if failed then .source else .built)) stages current := by
    cases failed with
    | true => exact held.setStage .source nofun nofun
    | false => exact held.setStage .built (fun _ => done rfl) nofun
  split
  · exact staged
  · exact staged.record _ _

/-- The end of a build before a deployment keeps the invariant. -/
theorem rebuilt (nonBuild : current.action ≠ .build) (outcome : BuildOutcome) :
    Steady (playground.rebuilt (.own current.workspaceName) outcome) stages := by
  cases outcome with
  | built =>
      have completed := held.complete .build (.own current.workspaceName)
      exact (completed.buildListener nonBuild false fun _ => mem_complete _ _).await nonBuild
  | failed => exact (held.buildListener nonBuild true nofun).await nonBuild
  | thrown => exact (held.buildListener nonBuild true nofun).await nonBuild

/-- The listener of the deploy command writes to the workspace of the action. -/
theorem deployListener (nonBuild : current.action ≠ .build) (succeeded : Bool)
    (done : succeeded = true → (.deploy, .own current.workspaceName) ∈ playground.completed) :
    Held (playground.deployListener succeeded) stages current := by
  simp only [Playground.deployListener, (held.stays nonBuild).explorer]
  split
  · exact held
  split
  next success => exact (held.setStage .deployed nofun fun _ => done success).record _ _
  next => exact held.record _ _

/-- The end of an upload keeps the invariant. -/
theorem uploaded (nonBuild : current.action ≠ .build) (succeeded : Bool) :
    Steady (playground.uploaded (some current.workspaceName) succeeded) stages := by
  cases succeeded with
  | true =>
      rw [Playground.uploaded, (held.stays nonBuild).programInfo]
      have completed := held.complete .deploy (.own current.workspaceName)
      have listened := completed.deployListener nonBuild true fun _ => mem_complete _ _
      refine listened.await ⟨nonBuild, ?_⟩
      rw [completed_deployListener]
      exact mem_complete _ _
  | false => exact (held.deployListener nonBuild false nofun).await nonBuild

/-- A deploy that has ended is told in the workspace that is active. -/
theorem deployed {succeeded : Bool}
    (fits : Fits current playground.completed (.executed succeeded)) :
    Steady (playground.deployed succeeded) stages := by
  cases succeeded with
  | true =>
      obtain ⟨nonBuild, completed⟩ := fits
      have done := (held.setStage .deployed nofun fun _ => completed).record .deploy .success
      rw [Playground.deployed, (held.stays nonBuild).active]
      split
      · exact done.await trivial
      · exact done.executeTest nonBuild
  | false =>
      rw [Playground.deployed, (held.stays fits).active]
      exact (held.record .deploy .error).await trivial

/-- The end of the tests keeps the invariant. -/
theorem tested (nonBuild : current.action ≠ .build) (succeeded : Bool) :
    Steady (playground.tested succeeded) stages := by
  rw [Playground.tested, (held.stays nonBuild).active]
  exact (held.record .instruction _).await trivial

/-- The end of an action keeps the invariant. -/
theorem finish (finished : playground.finish = some next) : Steady next stages := by
  simp only [Playground.finish, held.taken, Option.map_some, Option.some.injEq] at finished
  subst finished
  refine ⟨held.attached, fun _ => nofun, fun other is => ?_⟩
  simp [ChainActions.finish, ChainActions.release, held.taken] at is

/-- By cases on what an operation awaits at its phase. -/
theorem proceed {phase : ActionPhase} {progress : Progress}
    (fits : Fits current playground.completed phase)
    (proceeds : playground.proceed phase progress = some next) : Steady next stages := by
  unfold Playground.proceed at proceeds
  split at proceeds
  next unbuilt =>
    cases proceeds
    exact held.deployConnected fits unbuilt
  next =>
    cases proceeds
    exact held.await trivial
  next workspaceName program succeeded =>
    cases proceeds
    obtain ⟨rfl, rfl⟩ := fits
    exact held.built succeeded
  next =>
    cases proceeds
    refine held.await ⟨fits, ?_⟩
    rw [(held.stays fits).explorer, (held.stays fits).programInfo, Program.own]
  next program outcome =>
    cases proceeds
    obtain ⟨nonBuild, rfl⟩ := fits
    exact held.rebuilt nonBuild outcome
  next =>
    cases proceeds
    exact held.await fits
  next =>
    cases proceeds
    exact held.await ⟨fits, (held.stays fits).programInfo⟩
  next binary succeeded =>
    cases proceeds
    obtain ⟨nonBuild, rfl⟩ := fits
    exact held.uploaded nonBuild succeeded
  next succeeded =>
    cases proceeds
    exact held.deployed fits
  next succeeded =>
    cases proceeds
    exact held.tested fits succeeded
  next => exact held.finish proceeds
  next => cases proceeds

end Held

namespace Steady

variable (steady : Steady playground stages)
include steady

/-- A chain action that starts holds the lock where the page is. -/
theorem runChainAction {action : ChainAction} {operation : Playground → Playground}
    (opened : action ≠ .build → playground.chain.chainActionRef = none →
      playground.At playground.activeWorkspaceName)
    (starts : ∀ {started : Playground} {current : ActiveAction},
      playground.chain.chainActionRef = none → Held started stages current →
      started.explorer = playground.explorer → started.programInfo = playground.programInfo →
      current.action = action → current.workspaceName = playground.activeWorkspaceName →
        Steady (operation started) stages) :
    Steady (playground.runChainAction action operation) stages := by
  rw [Playground.runChainAction]
  split
  next chain started =>
    rw [ChainActions.runChainAction] at started
    split at started
    next => cases started
    next free =>
      cases started
      exact starts free ⟨steady.attached, rfl, fun nonBuild =>
        (opened nonBuild free).frame rfl rfl rfl⟩ rfl rfl rfl rfl
  next => exact steady

/-- Noting an event of another workspace keeps the invariant. -/
theorem note (kind : EventKind) (status : EventStatus) (workspaceName : Text) :
    Steady (playground.note kind status workspaceName) stages where
  attached := steady.attached.addEvent fun _ _ => nofun
  fits := steady.fits
  stays current taken nonBuild := (steady.stays current taken nonBuild).frame rfl rfl rfl

/-- Navigations alone do not touch the invariant. -/
theorem setNavigations (navigations : List Navigation) :
    Steady { playground with navigations := navigations } stages where
  attached := steady.attached
  fits := steady.fits
  stays current taken nonBuild := (steady.stays current taken nonBuild).frame rfl rfl rfl

/-- Resetting a workspace keeps the invariant. -/
theorem resetWorkspace (workspaceName : Text) :
    Steady (playground.resetWorkspace workspaceName) stages where
  attached := steady.attached.reset workspaceName
  fits := steady.fits
  stays current taken nonBuild := (steady.stays current taken nonBuild).frame rfl rfl rfl

/-- The page may show the workspace of the running action. -/
theorem setActiveWorkspaceName {workspaceName : Text}
    (same : ∀ current, playground.chain.chainActionRef = some current →
      current.action ≠ .build → workspaceName = current.workspaceName) :
    Steady (playground.setActiveWorkspaceName workspaceName) stages where
  attached := steady.attached
  fits := steady.fits
  stays current taken nonBuild :=
    ⟨same current taken nonBuild, (steady.stays current taken nonBuild).explorer,
      (steady.stays current taken nonBuild).programInfo⟩

/-- Starting a navigation keeps the invariant. -/
theorem navigate (navigation : Navigation) :
    Steady (playground.navigate navigation) stages := by
  rw [Playground.navigate]
  split
  · exact steady
  split
  · exact steady.note _ _ _
  · exact steady.setNavigations _

/-- Arriving at the workspace of the running action keeps the invariant. -/
theorem arrived {navigation : Navigation}
    (same : ∀ current, playground.chain.chainActionRef = some current →
      current.action ≠ .build → navigation.workspaceName = current.workspaceName) :
    Steady (playground.arrived navigation) stages := by
  have moved := steady.setActiveWorkspaceName same
  rw [Playground.arrived]
  split
  · exact moved
  · exact moved
  · exact moved.note _ _ _
  · exact moved.note _ _ _
  · exact ((steady.resetWorkspace _).setActiveWorkspaceName same).note _ _ _

/-- A failed navigation keeps the invariant. -/
theorem notArrived (navigation : Navigation) :
    Steady (playground.notArrived navigation) stages := by
  rw [Playground.notArrived]
  split
  · exact steady.note _ _ _
  · exact steady.note _ _ _
  · exact steady

/-- Reading the explorer's workspace keeps the invariant. -/
theorem syncWorkspace : Steady playground.syncWorkspace stages := by
  rw [Playground.syncWorkspace]
  split
  next => exact steady
  next workspaceName opened =>
    refine steady.setActiveWorkspaceName fun current taken nonBuild => ?_
    exact Option.some.inj (opened.symm.trans (steady.stays current taken nonBuild).explorer)

/-- The explorer may open the workspace of the running action. -/
theorem setExplorer {workspaceName : Option Text}
    (same : ∀ current, playground.chain.chainActionRef = some current →
      current.action ≠ .build → workspaceName = some current.workspaceName) :
    Steady { playground with explorer := workspaceName } stages where
  attached := steady.attached
  fits := steady.fits
  stays current taken nonBuild :=
    ⟨(steady.stays current taken nonBuild).active, same current taken nonBuild,
      (steady.stays current taken nonBuild).programInfo⟩

/-- The program info may move to the workspace of the running action. -/
theorem setProgramInfo {workspaceName : Option Text}
    (same : ∀ current, playground.chain.chainActionRef = some current →
      current.action ≠ .build → workspaceName = some current.workspaceName) :
    Steady { playground with programInfo := workspaceName } stages where
  attached := steady.attached
  fits := steady.fits
  stays current taken nonBuild :=
    ⟨(steady.stays current taken nonBuild).active,
      (steady.stays current taken nonBuild).explorer, same current taken nonBuild⟩

end Steady

/-- By cases on the call. -/
theorem steady_step (steady : Steady playground stages) (stays : Stays playground call)
    (stepped : playground.step call = some next) : Steady next stages := by
  cases call with
  | runBuild =>
      cases stepped
      refine steady.runChainAction nofun fun free held explorer programInfo _ here => ?_
      rw [← here]
      refine held.buildProgram fun opened => ?_
      rw [programInfo, here]
      exact stays free (explorer.symm.trans (opened.trans (congrArg some here)))
  | runDeploy surfpoolConnected unbuilt =>
      cases stepped
      refine steady.runChainAction (fun _ => stays) fun _ held _ _ deploys _ => ?_
      exact held.deployProgram (by rw [deploys]; nofun) surfpoolConnected unbuilt
  | runInteraction surfpoolConnected unbuilt =>
      cases stepped
      refine steady.runChainAction (fun _ => stays) fun _ held _ _ interacts _ => ?_
      exact held.runLessonInteraction (by rw [interacts]; nofun) surfpoolConnected unbuilt
  | proceed progress =>
      obtain ⟨phase, at_phase, proceeds⟩ := Option.bind_eq_some_iff.mp stepped
      obtain ⟨current, held, fits⟩ := steady.held at_phase
      exact held.proceed fits proceeds
  | navigate navigation =>
      cases stepped
      exact steady.navigate navigation
  | arrive navigation succeeded =>
      simp only [step] at stepped
      split at stepped
      next =>
        cases stepped
        cases succeeded with
        | true => exact (steady.setNavigations _).arrived stays
        | false => exact (steady.setNavigations _).notArrived navigation
      next => cases stepped
  | switchWorkspace workspaceName =>
      cases stepped
      exact steady.setExplorer stays
  | syncWorkspace =>
      cases stepped
      exact steady.syncWorkspace
  | refresh workspaceName =>
      cases stepped
      exact steady.setProgramInfo stays

/-- In a run that leaves no workspace during a deploy or an interaction of it, stages and
events are those of the workspace's own actions. -/
theorem attached_throughout (stages : Text → ProgramStage) (events : Text → List LearningEvent)
    (activeWorkspaceName : Text) (explorer programInfo : Option Text)
    (calls : List PlaygroundCall)
    (stays : machine.Meets Stays (initial stages events activeWorkspaceName explorer programInfo)
      calls) :
    machine.Throughout (fun playground => Attached stages playground.completed playground.workspaces)
      (initial stages events activeWorkspaceName explorer programInfo) calls := by
  have start : Steady (initial stages events activeWorkspaceName explorer programInfo) stages :=
    ⟨attached_stored events, fun _ => nofun, fun _ => nofun⟩
  have steady : machine.Throughout (Steady · stages) _ calls :=
    Machine.throughout_of_meets (Steady · stages) steady_step start stays
  exact steady.mono fun playground here => here.attached

/-- A deploy goes from its start to its end, and then a lesson is selected. -/
theorem attached_after_deploy :
    machine.Throughout
      (fun playground => Attached (fun _ => .built) playground.completed playground.workspaces)
      (initial (fun _ => .built) (fun _ => []) "counter".toList (some "counter".toList)
        (some "counter".toList))
      [.runDeploy true false, .proceed .upload, .proceed (.uploaded true), .proceed .deployed,
        .proceed .finish, .navigate ⟨.lesson, "vault".toList⟩,
        .switchWorkspace (some "vault".toList), .arrive ⟨.lesson, "vault".toList⟩ true] := by
  refine attached_throughout _ _ _ _ _ _ ⟨fun _ => ⟨rfl, rfl, rfl⟩, ?_⟩
  rintro _ ⟨⟩
  refine ⟨trivial, ?_⟩
  rintro _ ⟨⟩
  refine ⟨trivial, ?_⟩
  rintro _ ⟨⟩
  refine ⟨trivial, ?_⟩
  rintro _ ⟨⟩
  refine ⟨trivial, ?_⟩
  rintro _ ⟨⟩
  refine ⟨trivial, ?_⟩
  rintro _ ⟨⟩
  refine ⟨fun _ => nofun, ?_⟩
  rintro _ ⟨⟩
  exact ⟨fun _ => nofun, fun _ _ => trivial⟩

/-- A deploy that starts while a lesson is being opened is told, and shown, in the lesson. -/
theorem not_always_attached : ¬ ∀ (stages : Text → ProgramStage)
    (events : Text → List LearningEvent) (activeWorkspaceName : Text)
    (explorer programInfo : Option Text) (calls : List PlaygroundCall),
    machine.Throughout (fun playground => Attached stages playground.completed playground.workspaces)
      (initial stages events activeWorkspaceName explorer programInfo) calls := by
  intro attached
  have after := (attached (fun workspaceName => if workspaceName = "counter".toList then .built
      else .source) (fun _ => []) "counter".toList (some "counter".toList)
    (some "counter".toList)
    [.navigate ⟨.lesson, "vault".toList⟩, .runDeploy true false, .proceed .upload,
      .switchWorkspace (some "vault".toList), .arrive ⟨.lesson, "vault".toList⟩ true,
      .proceed (.uploaded true), .proceed .deployed]).of_run rfl
  exact absurd (after.deployed "vault".toList rfl) (by decide)

end Playground
end Solpg.Client.Learning
