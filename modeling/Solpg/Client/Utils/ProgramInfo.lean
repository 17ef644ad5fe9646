import Mathlib.Logic.Function.Basic
import Solpg.Std.Machine
import Solpg.Std.Text

/-!
# Program info

`PgProgramInfo`: what is known of the program of the current workspace, and the file
of each workspace that it is stored in. A switch of the workspace, the refresh after
it, the write after a change and the end of a build are steps of their own. Each value
carries the workspace whose program info was loaded when it was set, or whose build
it is of.
-/

namespace Solpg.Client.Utils

open Solpg.Std

/-- The kinds of values that are only passed on. -/
structure ProgramValues where
  Keypair : Type
  PublicKey : Type
  Idl : Type

/-- A value and the workspace that it was made for. -/
structure Made (α : Type) where
  value : α
  workspaceName : Option Text

/-- The program info that is stored. -/
structure ProgramInfo (V : ProgramValues) where
  uuid : Option (Made Text)
  kp : Option (Made V.Keypair)
  customPk : Option (Made V.PublicKey)
  idl : Option (Made V.Idl)
  lastBuildFailed : Option Bool

namespace ProgramInfo

variable {V : ProgramValues}

/-- The program info of a new workspace. -/
def defaultState : ProgramInfo V where
  uuid := none
  kp := none
  customPk := none
  idl := none
  lastBuildFailed := none

/-- The values that tell the address of the program. -/
def keys (info : ProgramInfo V) : Option (Made V.Keypair) × Option (Made V.PublicKey) :=
  (info.kp, info.customPk)

/-- The values of a file, made for its workspace. -/
def ownedBy (workspaceName : Text) (info : ProgramInfo V) : ProgramInfo V where
  uuid := info.uuid.map fun made => ⟨made.value, some workspaceName⟩
  kp := info.kp.map fun made => ⟨made.value, some workspaceName⟩
  customPk := info.customPk.map fun made => ⟨made.value, some workspaceName⟩
  idl := info.idl.map fun made => ⟨made.value, some workspaceName⟩
  lastBuildFailed := info.lastBuildFailed

end ProgramInfo

/-- The answer of the build server. -/
structure BuildResponse (V : ProgramValues) where
  uuid : Option Text
  idl : Option V.Idl
  failed : Bool

/-- `buildUpdate` of `buildCurrentProgram`. -/
structure BuildUpdate (V : ProgramValues) where
  uuid : Option (Made Text)
  idl : Option (Made V.Idl)
  lastBuildFailed : Bool

/-- A build under way, with the program info that it has captured. `written` is set after
its result is in the file of its workspace. -/
structure ProgramBuild (V : ProgramValues) where
  workspaceName : Text
  programInfo : ProgramInfo V
  written : Option (BuildUpdate V)

variable {V : ProgramValues}

/-- What a build writes for its response. -/
def ProgramBuild.buildUpdate (build : ProgramBuild V) (response : BuildResponse V) :
    BuildUpdate V where
  uuid := (response.uuid.map fun uuid => ⟨uuid, some build.workspaceName⟩) <|> build.programInfo.uuid
  idl := response.idl.map fun idl => ⟨idl, some build.workspaceName⟩
  lastBuildFailed := response.failed

/-- The fields of a build result over those of `info`. -/
def BuildUpdate.over (update : BuildUpdate V) (info : ProgramInfo V) : ProgramInfo V :=
  { info with
    uuid := update.uuid
    idl := update.idl
    lastBuildFailed := some update.lastBuildFailed }

/-- A refresh under way. Its path is resolved when it starts, and `state` is set after the
file has been read. -/
structure ProgramRefresh (V : ProgramValues) where
  workspaceName : Option Text
  state : Option (ProgramInfo V)

/-- The class with the files that it stores. `loadedFor` is the workspace whose program info
was loaded, and `lastKeys` the keys that were set last for each workspace. -/
structure PgProgramInfo (V : ProgramValues) where
  currentWorkspaceName : Option Text
  state : ProgramInfo V
  loadedFor : Option Text
  savePending : Bool
  refreshes : List (ProgramRefresh V)
  builds : List (ProgramBuild V)
  files : Text → Option (ProgramInfo V)
  lastKeys : Text → Option (Made V.Keypair) × Option (Made V.PublicKey)

namespace PgProgramInfo

/-- What `storage.read` returns for a workspace. -/
def read (files : Text → Option (ProgramInfo V)) (workspaceName : Option Text) : ProgramInfo V :=
  (workspaceName.bind files).getD .defaultState

/-- A workspace after its program info has been loaded. -/
def initial (stored : Text → Option (ProgramInfo V)) (workspaceName : Option Text) :
    PgProgramInfo V where
  currentWorkspaceName := workspaceName
  state := read (fun name => (stored name).map (.ownedBy name)) workspaceName
  loadedFor := workspaceName
  savePending := false
  refreshes := []
  builds := []
  files := fun name => (stored name).map (.ownedBy name)
  lastKeys := fun name => (read (fun name => (stored name).map (.ownedBy name)) (some name)).keys

variable (info : PgProgramInfo V)

/-- The keys in the file of a workspace. -/
def storedKeys (workspaceName : Text) : Option (Made V.Keypair) × Option (Made V.PublicKey) :=
  (read info.files (some workspaceName)).keys

/-- A value for the workspace whose program info is loaded. -/
def made {α : Type} (value : α) : Made α := ⟨value, info.loadedFor⟩

/-- `update`, where `none` stands for a field that is not given. -/
def update (kp : Option (Option V.Keypair)) (customPk : Option (Option V.PublicKey))
    (idl : Option (Option V.Idl)) : PgProgramInfo V :=
  let state : ProgramInfo V :=
    { info.state with
      kp := (kp.map (Option.map info.made)).getD info.state.kp
      customPk := (customPk.map (Option.map info.made)).getD info.state.customPk
      idl := (idl.map (Option.map info.made)).getD info.state.idl }
  { info with
    state := state
    savePending := true
    lastKeys := match info.loadedFor with
      | some workspaceName => Function.update info.lastKeys workspaceName state.keys
      | none => info.lastKeys }

/-- `storage.write`, which finds the file when it runs. -/
def save : PgProgramInfo V :=
  match info.currentWorkspaceName with
  | none => { info with savePending := false }
  | some workspaceName =>
      { info with
        savePending := false
        files := Function.update info.files workspaceName (some info.state) }

/-- `refresh` up to the contents of the file. -/
def readRefresh (index : Nat) (refresh : ProgramRefresh V) : PgProgramInfo V :=
  { info with
    refreshes := info.refreshes.set index
      { refresh with state := some (read info.files refresh.workspaceName) } }

/-- `refresh` with the state that it has read. `notified` tells that a field has another
value. -/
def refreshed (index : Nat) (refresh : ProgramRefresh V) (state : ProgramInfo V)
    (notified : Bool) : PgProgramInfo V :=
  { info with
    state := state
    loadedFor := refresh.workspaceName
    savePending := info.savePending || notified
    refreshes := info.refreshes.eraseIdx index }

/-- `buildProgram` up to its request. A keypair is generated when no address is known. -/
def startBuild (generated : Option V.Keypair) : PgProgramInfo V :=
  match info.currentWorkspaceName with
  | none => info
  | some workspaceName =>
      let updated := match generated with
        | some kp => info.update (some (some kp)) none none
        | none => info
      { updated with builds := updated.builds ++ [⟨workspaceName, updated.state, none⟩] }

/-- `updateWorkspace` up to the end of its write. -/
def writeBuild (index : Nat) (build : ProgramBuild V) (response : BuildResponse V) :
    PgProgramInfo V :=
  let written := build.buildUpdate response
  { info with
    files := Function.update info.files build.workspaceName
      (some (written.over build.programInfo))
    builds := info.builds.set index { build with written := some written } }

/-- `updateWorkspace` after its write. -/
def mergeBuild (index : Nat) (build : ProgramBuild V) (written : BuildUpdate V)
    (notified : Bool) : PgProgramInfo V :=
  let done := { info with builds := info.builds.eraseIdx index }
  if info.currentWorkspaceName = some build.workspaceName then
    { done with
      state := written.over info.state
      savePending := info.savePending || notified }
  else done

/-- The calls and timers that reach the program info. -/
inductive InfoCall (V : ProgramValues) where
  | update (kp : Option (Option V.Keypair)) (customPk : Option (Option V.PublicKey))
      (idl : Option (Option V.Idl))
  /-- The timer of the writes expires. -/
  | save
  | setWorkspaceName (workspaceName : Option Text)
  /-- The timer of the refreshes expires. -/
  | refresh
  | readRefresh (index : Nat)
  | refreshed (index : Nat) (notified : Bool)
  | startBuild (generated : Option V.Keypair)
  | writeBuild (index : Nat) (response : BuildResponse V)
  | mergeBuild (index : Nat) (notified : Bool)
  /-- The build server does not answer. -/
  | failBuild (index : Nat)

/-- One call on the program info. -/
def step : InfoCall V → Option (PgProgramInfo V)
  | .update kp customPk idl => some (info.update kp customPk idl)
  | .save => if info.savePending then some info.save else none
  | .setWorkspaceName workspaceName => some { info with currentWorkspaceName := workspaceName }
  | .refresh =>
      some { info with refreshes := info.refreshes ++ [⟨info.currentWorkspaceName, none⟩] }
  | .readRefresh index =>
      match info.refreshes[index]? with
      | some refresh =>
          if refresh.state.isNone then some (info.readRefresh index refresh) else none
      | none => none
  | .refreshed index notified =>
      match info.refreshes[index]? with
      | some refresh => refresh.state.map fun state => info.refreshed index refresh state notified
      | none => none
  | .startBuild generated => some (info.startBuild generated)
  | .writeBuild index response =>
      match info.builds[index]? with
      | some build =>
          if build.written.isNone then some (info.writeBuild index build response) else none
      | none => none
  | .mergeBuild index notified =>
      match info.builds[index]? with
      | some build => build.written.map fun written => info.mergeBuild index build written notified
      | none => none
  | .failBuild index =>
      match info.builds[index]? with
      | some build =>
          if build.written.isNone then some { info with builds := info.builds.eraseIdx index }
          else none
      | none => none

/-- The program info from its first state on. -/
def machine : Machine (PgProgramInfo V) (InfoCall V) where
  Initial info := ∃ stored workspaceName, info = initial stored workspaceName
  next info call := info.step call

/-! ## Values of the workspace's own -/

/-- The values are those of one workspace. -/
structure MadeFor (workspaceName : Option Text) (state : ProgramInfo V) : Prop where
  uuid : ∀ made, state.uuid = some made → made.workspaceName = workspaceName
  kp : ∀ made, state.kp = some made → made.workspaceName = workspaceName
  customPk : ∀ made, state.customPk = some made → made.workspaceName = workspaceName
  idl : ∀ made, state.idl = some made → made.workspaceName = workspaceName

/-- Each file has the values of its own workspace only. -/
def Isolated (info : PgProgramInfo V) : Prop :=
  ∀ workspaceName stored, info.files workspaceName = some stored →
    MadeFor (some workspaceName) stored

/-- When the loaded program info is written, or captured by a build, or has the result of a
build added, it is that of the current workspace. -/
def Loaded (info : PgProgramInfo V) : InfoCall V → Prop
  | .save | .startBuild _ => ∀ workspaceName, info.currentWorkspaceName = some workspaceName →
      info.loadedFor = some workspaceName
  | .mergeBuild index _ => ∀ build, info.builds[index]? = some build →
      info.currentWorkspaceName = some build.workspaceName →
        info.loadedFor = some build.workspaceName
  | _ => True

/-- A build has the values of its workspace. -/
structure BuildOwn (build : ProgramBuild V) : Prop where
  captured : MadeFor (some build.workspaceName) build.programInfo
  uuid : ∀ written, build.written = some written →
    ∀ made, written.uuid = some made → made.workspaceName = some build.workspaceName
  idl : ∀ written, build.written = some written →
    ∀ made, written.idl = some made → made.workspaceName = some build.workspaceName

/-- Everything loaded, stored or being built belongs to its own workspace. -/
structure Own (info : PgProgramInfo V) : Prop where
  isolated : Isolated info
  loaded : MadeFor info.loadedFor info.state
  refreshes : ∀ refresh ∈ info.refreshes, ∀ state, refresh.state = some state →
    MadeFor refresh.workspaceName state
  builds : ∀ build ∈ info.builds, BuildOwn build

variable {info} {next : PgProgramInfo V} {call : InfoCall V}

/-- The default state belongs to every workspace. -/
theorem madeFor_defaultState (workspaceName : Option Text) :
    MadeFor workspaceName (.defaultState : ProgramInfo V) :=
  ⟨fun _ => nofun, fun _ => nofun, fun _ => nofun, fun _ => nofun⟩

/-- A state stamped with a workspace belongs to it. -/
theorem madeFor_ownedBy (workspaceName : Text) (state : ProgramInfo V) :
    MadeFor (some workspaceName) (state.ownedBy workspaceName) := by
  have own {α : Type} (field : Option (Made α)) (made : Made α)
      (is : (field.map fun made => (⟨made.value, some workspaceName⟩ : Made α)) = some made) :
      made.workspaceName = some workspaceName := by
    obtain ⟨_, -, rfl⟩ := Option.map_eq_some_iff.mp is
    rfl
  exact ⟨own _, own _, own _, own _⟩

/-- What is read from an isolated disk belongs to the workspace read. -/
theorem Isolated.read (isolated : Isolated info) (workspaceName : Option Text) :
    MadeFor workspaceName (read info.files workspaceName) := by
  cases workspaceName with
  | none => exact madeFor_defaultState none
  | some name =>
      cases found : info.files name with
      | none => simpa [PgProgramInfo.read, found] using madeFor_defaultState (some name)
      | some stored => simpa [PgProgramInfo.read, found] using isolated name stored found

/-- Writing a workspace's own state keeps the disk isolated. -/
theorem Isolated.setFile (isolated : Isolated info) {workspaceName : Text} {state : ProgramInfo V}
    (made : MadeFor (some workspaceName) state) {written : PgProgramInfo V}
    (files : written.files = Function.update info.files workspaceName (some state)) :
    Isolated written := by
  intro name stored found
  rw [files] at found
  by_cases same : name = workspaceName
  · subst same
    obtain rfl : state = stored := by simpa using found
    exact made
  · exact isolated name stored (by simpa [same] using found)

/-- A field that is updated has a value for the loaded workspace. -/
theorem workspaceName_of_given {α : Type} {given : Option (Option α)} {field : Option (Made α)}
    {made : Made α} (own : ∀ made, field = some made → made.workspaceName = info.loadedFor)
    (is : (given.map (Option.map info.made)).getD field = some made) :
    made.workspaceName = info.loadedFor := by
  cases given with
  | none => exact own made is
  | some value =>
      obtain ⟨_, -, rfl⟩ := Option.map_eq_some_iff.mp is
      rfl

/-- An update keeps everything with its own workspace. -/
theorem Own.update (own : Own info) (kp : Option (Option V.Keypair))
    (customPk : Option (Option V.PublicKey)) (idl : Option (Option V.Idl)) :
    Own (info.update kp customPk idl) where
  isolated := own.isolated
  loaded :=
    ⟨own.loaded.uuid, fun _ => workspaceName_of_given own.loaded.kp,
      fun _ => workspaceName_of_given own.loaded.customPk,
      fun _ => workspaceName_of_given own.loaded.idl⟩
  refreshes := own.refreshes
  builds := own.builds

/-- The file that a refresh reads is that of its workspace. -/
theorem Own.readRefresh {index : Nat} {refresh : ProgramRefresh V} (own : Own info) :
    Own (info.readRefresh index refresh) where
  isolated := own.isolated
  loaded := own.loaded
  refreshes other isOther state is := by
    obtain before | rfl := List.mem_or_eq_of_mem_set isOther
    · exact own.refreshes other before state is
    · obtain rfl := Option.some.inj is
      exact own.isolated.read refresh.workspaceName
  builds := own.builds

/-- A refresh loads the values of its workspace. -/
theorem Own.refreshed {index : Nat} {refresh : ProgramRefresh V} {state : ProgramInfo V}
    (own : Own info) (isIn : refresh ∈ info.refreshes) (is : refresh.state = some state)
    (notified : Bool) : Own (info.refreshed index refresh state notified) where
  isolated := own.isolated
  loaded := own.refreshes refresh isIn state is
  refreshes other isOther := own.refreshes other (List.mem_of_mem_eraseIdx isOther)
  builds := own.builds

/-- A write into the loaded workspace keeps everything with its own workspace. -/
theorem Own.save (own : Own info) (loaded : ∀ workspaceName,
    info.currentWorkspaceName = some workspaceName → info.loadedFor = some workspaceName) :
    Own info.save := by
  rw [PgProgramInfo.save]
  split
  next => exact ⟨own.isolated, own.loaded, own.refreshes, own.builds⟩
  next workspaceName current =>
    exact ⟨own.isolated.setFile (loaded workspaceName current ▸ own.loaded) rfl, own.loaded,
      own.refreshes, own.builds⟩

/-- The start of a build keeps everything with its own workspace. -/
theorem Own.startBuild (own : Own info) (loaded : ∀ workspaceName,
    info.currentWorkspaceName = some workspaceName → info.loadedFor = some workspaceName)
    (generated : Option V.Keypair) : Own (info.startBuild generated) := by
  have add {workspaceName : Text} {updated : PgProgramInfo V} (own : Own updated)
      (here : updated.loadedFor = some workspaceName) :
      Own { updated with builds := updated.builds ++ [⟨workspaceName, updated.state, none⟩] } := by
    refine ⟨own.isolated, own.loaded, own.refreshes, fun build isIn => ?_⟩
    obtain before | rfl : build ∈ updated.builds ∨ build = ⟨workspaceName, updated.state, none⟩ := by
      simpa using isIn
    · exact own.builds build before
    · exact ⟨here ▸ own.loaded, fun _ => nofun, fun _ => nofun⟩
  unfold PgProgramInfo.startBuild
  split
  next => exact own
  next workspaceName current =>
    cases generated with
    | none => exact add own (loaded workspaceName current)
    | some kp => exact add (own.update _ _ _) (loaded workspaceName current)

/-- A build writes for its own workspace. -/
theorem BuildOwn.buildUpdate {build : ProgramBuild V} (own : BuildOwn build)
    (response : BuildResponse V) :
    BuildOwn { build with written := some (build.buildUpdate response) } where
  captured := own.captured
  uuid written is made has := by
    obtain rfl := Option.some.inj is
    cases answered : response.uuid with
    | none => exact own.captured.uuid made (by simpa [ProgramBuild.buildUpdate, answered] using has)
    | some uuid =>
        obtain rfl : ⟨uuid, some build.workspaceName⟩ = made := by
          simpa [ProgramBuild.buildUpdate, answered] using has
        rfl
  idl written is made has := by
    obtain rfl := Option.some.inj is
    obtain ⟨_, -, rfl⟩ := Option.map_eq_some_iff.mp has
    rfl

/-- The result of a build over values of its workspace. -/
theorem BuildOwn.over {build : ProgramBuild V} {written : BuildUpdate V} {state : ProgramInfo V}
    (own : BuildOwn build) (is : build.written = some written)
    (made : MadeFor (some build.workspaceName) state) :
    MadeFor (some build.workspaceName) (written.over state) where
  uuid := own.uuid written is
  kp := made.kp
  customPk := made.customPk
  idl := own.idl written is

/-- The write of a build keeps everything with its own workspace. -/
theorem Own.writeBuild {index : Nat} {build : ProgramBuild V} (own : Own info)
    (isIn : build ∈ info.builds) (response : BuildResponse V) :
    Own (info.writeBuild index build response) where
  isolated := by
    have before := own.builds build isIn
    exact own.isolated.setFile ((before.buildUpdate response).over rfl before.captured) rfl
  loaded := own.loaded
  refreshes := own.refreshes
  builds other isOther := by
    obtain before | rfl := List.mem_or_eq_of_mem_set isOther
    · exact own.builds other before
    · exact (own.builds build isIn).buildUpdate response

/-- The merge of a build into the loaded workspace keeps everything with its own. -/
theorem Own.mergeBuild {index : Nat} {build : ProgramBuild V} {written : BuildUpdate V}
    (own : Own info) (isIn : build ∈ info.builds) (is : build.written = some written)
    (loaded : info.currentWorkspaceName = some build.workspaceName →
      info.loadedFor = some build.workspaceName) (notified : Bool) :
    Own (info.mergeBuild index build written notified) := by
  have rest : ∀ other ∈ info.builds.eraseIdx index, BuildOwn other := fun other isOther =>
    own.builds other (List.mem_of_mem_eraseIdx isOther)
  rw [PgProgramInfo.mergeBuild]
  split
  next current =>
    refine ⟨own.isolated, ?_, own.refreshes, rest⟩
    have before := own.loaded
    change MadeFor info.loadedFor (written.over info.state)
    rw [loaded current] at before ⊢
    exact (own.builds build isIn).over is before
  next => exact ⟨own.isolated, own.loaded, own.refreshes, rest⟩

/-- By cases on the call. -/
theorem own_step (own : Own info) (loaded : Loaded info call)
    (stepped : info.step call = some next) : Own next := by
  cases call with
  | update kp customPk idl =>
      cases stepped
      exact own.update kp customPk idl
  | save =>
      simp only [step] at stepped
      split at stepped
      next =>
        cases stepped
        exact own.save loaded
      next => cases stepped
  | setWorkspaceName workspaceName =>
      cases stepped
      exact ⟨own.isolated, own.loaded, own.refreshes, own.builds⟩
  | refresh =>
      cases stepped
      refine ⟨own.isolated, own.loaded, fun refresh isIn state is => ?_, own.builds⟩
      obtain before | rfl : refresh ∈ info.refreshes ∨
          refresh = ⟨info.currentWorkspaceName, none⟩ := by
        simpa using isIn
      · exact own.refreshes refresh before state is
      · cases is
  | readRefresh index =>
      simp only [step] at stepped
      split at stepped
      next =>
        split at stepped
        next =>
          cases stepped
          exact own.readRefresh
        next => cases stepped
      next => cases stepped
  | refreshed index notified =>
      simp only [step] at stepped
      split at stepped
      next refresh found =>
        obtain ⟨state, is, rfl⟩ := Option.map_eq_some_iff.mp stepped
        exact own.refreshed (List.mem_of_getElem? found) is notified
      next => cases stepped
  | startBuild generated =>
      cases stepped
      exact own.startBuild loaded generated
  | writeBuild index response =>
      simp only [step] at stepped
      split at stepped
      next build found =>
        split at stepped
        next =>
          cases stepped
          exact own.writeBuild (List.mem_of_getElem? found) response
        next => cases stepped
      next => cases stepped
  | mergeBuild index notified =>
      simp only [step] at stepped
      split at stepped
      next build found =>
        obtain ⟨written, is, rfl⟩ := Option.map_eq_some_iff.mp stepped
        exact own.mergeBuild (List.mem_of_getElem? found) is (loaded build found) notified
      next => cases stepped
  | failBuild index =>
      simp only [step] at stepped
      split at stepped
      next build found =>
        split at stepped
        next =>
          cases stepped
          exact ⟨own.isolated, own.loaded, own.refreshes, fun other isOther =>
            own.builds other (List.mem_of_mem_eraseIdx isOther)⟩
        next => cases stepped
      next => cases stepped

/-- At first everything is with its own workspace. -/
theorem own_initial (stored : Text → Option (ProgramInfo V)) (workspaceName : Option Text) :
    Own (initial stored workspaceName) := by
  have isolated : Isolated (initial stored workspaceName) := by
    intro name state found
    obtain ⟨past, -, rfl⟩ := Option.map_eq_some_iff.mp found
    exact madeFor_ownedBy name past
  exact ⟨isolated, isolated.read workspaceName, fun _ => nofun, fun _ => nofun⟩

/-- In a run that only writes and captures program info of the current workspace, each file
has the values of its own workspace. -/
theorem isolated_throughout (stored : Text → Option (ProgramInfo V))
    (workspaceName : Option Text) (calls : List (InfoCall V))
    (loaded : machine.Meets Loaded (initial stored workspaceName) calls) :
    machine.Throughout Isolated (initial stored workspaceName) calls := by
  have own : machine.Throughout Own (initial stored workspaceName) calls :=
    Machine.throughout_of_meets Own own_step (own_initial stored workspaceName) loaded
  exact own.mono fun info here => here.isolated

/-- Numbers for the values that are only passed on. -/
def numbers : ProgramValues := ⟨Nat, Nat, Nat⟩

/-- A build ends after its workspace has been left, and the program info there is set. -/
theorem isolated_after_switch :
    machine.Throughout Isolated (initial (fun _ => none) (some "counter".toList))
      ([.startBuild (some (1 : Nat)), .save, .setWorkspaceName (some "vault".toList), .refresh,
        .readRefresh 0, .refreshed 0 true, .writeBuild 0 ⟨some "id".toList, none, false⟩, .mergeBuild 0 false,
        .update (some (some (2 : Nat))) none none, .save] : List (InfoCall numbers)) := by
  refine isolated_throughout _ _ _ ⟨fun _ => id, ?_⟩
  rintro _ ⟨⟩
  refine ⟨fun _ => id, ?_⟩
  rintro _ ⟨⟩
  refine ⟨trivial, ?_⟩
  rintro _ ⟨⟩
  refine ⟨trivial, ?_⟩
  rintro _ ⟨⟩
  refine ⟨trivial, ?_⟩
  rintro _ ⟨⟩
  refine ⟨trivial, ?_⟩
  rintro _ ⟨⟩
  refine ⟨trivial, ?_⟩
  rintro _ ⟨⟩
  refine ⟨?_, ?_⟩
  · rintro build ⟨⟩ current
    exact current
  rintro _ ⟨⟩
  refine ⟨trivial, ?_⟩
  rintro _ ⟨⟩
  exact ⟨fun _ => id, fun _ _ => trivial⟩

/-- A keypair that is set just before a switch is written to the file of the next workspace. -/
theorem not_always_isolated : ¬ ∀ (V : ProgramValues) (stored : Text → Option (ProgramInfo V))
    (workspaceName : Option Text) (calls : List (InfoCall V)),
    machine.Throughout Isolated (initial stored workspaceName) calls := by
  intro isolated
  have after := (isolated numbers (fun _ => none) (some "counter".toList)
    [.update (some (some (1 : Nat))) none none, .setWorkspaceName (some "vault".toList), .save]).of_run rfl
  have made := (after "vault".toList _ rfl).kp _ rfl
  exact absurd made (by decide)

/-! ## Keys that are not lost -/

/-- Once no build and no write is pending, each file has the keys that were set last. -/
def Kept (info : PgProgramInfo V) : Prop :=
  info.builds = [] → info.savePending = false →
    ∀ workspaceName, info.storedKeys workspaceName = info.lastKeys workspaceName

/-- The end of a build changes no key, be it stored or loaded. -/
def KeysUnchanged (info : PgProgramInfo V) : InfoCall V → Prop
  | .writeBuild index response => ∀ next, info.step (.writeBuild index response) = some next →
      next.storedKeys = info.storedKeys ∧ next.state.keys = info.state.keys
  | .mergeBuild index notified => ∀ next, info.step (.mergeBuild index notified) = some next →
      next.storedKeys = info.storedKeys ∧ next.state.keys = info.state.keys
  | _ => True

/-- The loaded program info is written to its own workspace, it is only replaced when its
keys are stored and by keys that still are, and the keys that a build has captured are still
stored when its result is. -/
def Undisturbed (info : PgProgramInfo V) : InfoCall V → Prop
  | .save => info.currentWorkspaceName = info.loadedFor
  | .refreshed index _ =>
      (∀ workspaceName, info.loadedFor = some workspaceName →
        info.state.keys = info.storedKeys workspaceName) ∧
      ∀ refresh, info.refreshes[index]? = some refresh → ∀ state, refresh.state = some state →
        ∀ workspaceName, refresh.workspaceName = some workspaceName →
          state.keys = info.storedKeys workspaceName
  | .writeBuild index _ => ∀ build, info.builds[index]? = some build →
      build.programInfo.keys = info.storedKeys build.workspaceName
  | _ => True

/-- The keys that were set last are stored or, for the loaded workspace, about to be. -/
structure Fresh (info : PgProgramInfo V) : Prop where
  stored : ∀ workspaceName, info.storedKeys workspaceName = info.lastKeys workspaceName ∨
    info.savePending = true ∧ info.loadedFor = some workspaceName
  loaded : ∀ workspaceName, info.loadedFor = some workspaceName →
    info.state.keys = info.lastKeys workspaceName

/-- In a fresh info the last keys are stored. -/
theorem Fresh.kept (fresh : Fresh info) : Kept info := by
  intro _ idle workspaceName
  refine (fresh.stored workspaceName).resolve_right fun pending => ?_
  simp [idle] at pending

/-- The stored keys depend on the file only. -/
theorem storedKeys_of_files {other : PgProgramInfo V} {workspaceName : Text}
    (files : other.files workspaceName = info.files workspaceName) :
    other.storedKeys workspaceName = info.storedKeys workspaceName := by
  rw [storedKeys, storedKeys, read, read, Option.bind_some, Option.bind_some, files]

/-- The stored keys are those last written. -/
theorem storedKeys_of_written {other : PgProgramInfo V} {workspaceName : Text}
    {state : ProgramInfo V} (files : other.files workspaceName = some state) :
    other.storedKeys workspaceName = state.keys := by
  rw [storedKeys, read, Option.bind_some, files, Option.getD_some]

section Update

variable {kp : Option (Option V.Keypair)} {customPk : Option (Option V.PublicKey)}
  {idl : Option (Option V.Idl)}

@[simp] theorem storedKeys_update :
    (info.update kp customPk idl).storedKeys = info.storedKeys := rfl

/-- An update without a loaded workspace sets no keys. -/
theorem lastKeys_update_of_none (here : info.loadedFor = none) :
    (info.update kp customPk idl).lastKeys = info.lastKeys := by
  simp [PgProgramInfo.update, here]

/-- An update sets the keys of the loaded workspace. -/
theorem lastKeys_update_of_some {workspaceName : Text}
    (here : info.loadedFor = some workspaceName) :
    (info.update kp customPk idl).lastKeys = Function.update info.lastKeys workspaceName
      (info.update kp customPk idl).state.keys := by
  simp [PgProgramInfo.update, here]

end Update

/-- An update of the keys is to be stored. -/
theorem Fresh.update (fresh : Fresh info) (kp : Option (Option V.Keypair))
    (customPk : Option (Option V.PublicKey)) (idl : Option (Option V.Idl)) :
    Fresh (info.update kp customPk idl) := by
  cases here : info.loadedFor with
  | none =>
      refine ⟨fun workspaceName => .inl ?_, fun workspaceName is => ?_⟩
      · rw [storedKeys_update, lastKeys_update_of_none here]
        exact (fresh.stored workspaceName).resolve_right fun pending => by simp [here] at pending
      · cases here.symm.trans is
  | some workspaceName =>
      refine ⟨fun name => ?_, fun name is => ?_⟩
      · by_cases same : name = workspaceName
        · exact .inr ⟨rfl, same ▸ here⟩
        · rw [storedKeys_update, lastKeys_update_of_some here, Function.update_of_ne same]
          exact .inl ((fresh.stored name).resolve_right fun pending => by
            simp [here, Ne.symm same] at pending)
      · obtain rfl : workspaceName = name := Option.some.inj (here.symm.trans is)
        rw [lastKeys_update_of_some here, Function.update_self]

/-- A write into the loaded workspace keeps the info fresh. -/
theorem Fresh.save (fresh : Fresh info) (here : info.currentWorkspaceName = info.loadedFor) :
    Fresh info.save := by
  rw [PgProgramInfo.save]
  split
  next nowhere =>
    have unloaded : info.loadedFor = none := here.symm.trans nowhere
    refine ⟨fun workspaceName => .inl ?_, fun workspaceName is => fresh.loaded workspaceName is⟩
    exact (fresh.stored workspaceName).resolve_right fun pending => by simp [unloaded] at pending
  next workspaceName current =>
    have loaded : info.loadedFor = some workspaceName := here.symm.trans current
    refine ⟨fun name => .inl ?_, fun name is => fresh.loaded name is⟩
    by_cases same : name = workspaceName
    · subst same
      rw [storedKeys_of_written (Function.update_self ..)]
      exact fresh.loaded name loaded
    · rw [storedKeys_of_files (Function.update_of_ne same ..)]
      exact (fresh.stored name).resolve_right fun pending => by simp [loaded, Ne.symm same] at pending

/-- Program info is replaced by what is still stored. -/
theorem Fresh.refreshed {index : Nat} {refresh : ProgramRefresh V} {state : ProgramInfo V}
    (fresh : Fresh info) (saved : ∀ workspaceName, info.loadedFor = some workspaceName →
      info.state.keys = info.storedKeys workspaceName)
    (still : ∀ workspaceName, refresh.workspaceName = some workspaceName →
      state.keys = info.storedKeys workspaceName) (notified : Bool) :
    Fresh (info.refreshed index refresh state notified) := by
  have stored (name : Text) : info.storedKeys name = info.lastKeys name := by
    obtain is | ⟨-, here⟩ := fresh.stored name
    · exact is
    · rw [← saved name here, fresh.loaded name here]
  exact ⟨fun name => .inl (stored name), fun name is => (still name is).trans (stored name)⟩

/-- A build that keeps the keys leaves the stored ones. -/
theorem storedKeys_writeBuild {index : Nat} {build : ProgramBuild V} {response : BuildResponse V}
    (same : build.programInfo.keys = info.storedKeys build.workspaceName) :
    (info.writeBuild index build response).storedKeys = info.storedKeys := by
  funext name
  by_cases own : name = build.workspaceName
  · subst own
    rw [storedKeys_of_written (Function.update_self ..)]
    exact same
  · exact storedKeys_of_files (Function.update_of_ne own ..)

/-- The merge of a build keeps the info fresh. -/
theorem Fresh.mergeBuild (fresh : Fresh info) (index : Nat) (build : ProgramBuild V)
    (written : BuildUpdate V) (notified : Bool) :
    Fresh (info.mergeBuild index build written notified) := by
  rw [PgProgramInfo.mergeBuild]
  split
  · refine ⟨fun name => ?_, fresh.loaded⟩
    exact (fresh.stored name).imp_right fun pending => ⟨by simp [pending.1], pending.2⟩
  · exact ⟨fresh.stored, fresh.loaded⟩

/-- The start of a build keeps the info fresh. -/
theorem Fresh.startBuild (fresh : Fresh info) (generated : Option V.Keypair) :
    Fresh (info.startBuild generated) := by
  unfold PgProgramInfo.startBuild
  split
  next => exact fresh
  next =>
    cases generated with
    | none => exact ⟨fresh.stored, fresh.loaded⟩
    | some kp =>
        have updated := fresh.update (some (some kp)) none none
        exact ⟨updated.stored, updated.loaded⟩

/-- By cases on the call. -/
theorem fresh_step (fresh : Fresh info) (undisturbed : Undisturbed info call)
    (stepped : info.step call = some next) : Fresh next := by
  cases call with
  | update kp customPk idl =>
      cases stepped
      exact fresh.update kp customPk idl
  | save =>
      simp only [step] at stepped
      split at stepped
      next =>
        cases stepped
        exact fresh.save undisturbed
      next => cases stepped
  | setWorkspaceName workspaceName =>
      cases stepped
      exact ⟨fresh.stored, fresh.loaded⟩
  | refresh =>
      cases stepped
      exact ⟨fresh.stored, fresh.loaded⟩
  | readRefresh index =>
      simp only [step] at stepped
      split at stepped
      next =>
        split at stepped
        next =>
          cases stepped
          exact ⟨fresh.stored, fresh.loaded⟩
        next => cases stepped
      next => cases stepped
  | refreshed index notified =>
      simp only [step] at stepped
      split at stepped
      next refresh found =>
        obtain ⟨state, is, rfl⟩ := Option.map_eq_some_iff.mp stepped
        exact fresh.refreshed undisturbed.1 (undisturbed.2 refresh found state is) notified
      next => cases stepped
  | startBuild generated =>
      cases stepped
      exact fresh.startBuild generated
  | writeBuild index response =>
      simp only [step] at stepped
      split at stepped
      next build found =>
        split at stepped
        next =>
          cases stepped
          refine ⟨fun name => ?_, fresh.loaded⟩
          rw [storedKeys_writeBuild (undisturbed build found)]
          exact fresh.stored name
        next => cases stepped
      next => cases stepped
  | mergeBuild index notified =>
      simp only [step] at stepped
      split at stepped
      next build found =>
        obtain ⟨written, -, rfl⟩ := Option.map_eq_some_iff.mp stepped
        exact fresh.mergeBuild index build written notified
      next => cases stepped
  | failBuild index =>
      simp only [step] at stepped
      split at stepped
      next =>
        split at stepped
        next =>
          cases stepped
          exact ⟨fresh.stored, fresh.loaded⟩
        next => cases stepped
      next => cases stepped

/-- By cases on the calls that end a build. -/
theorem keysUnchanged_of_undisturbed (info : PgProgramInfo V) (call : InfoCall V)
    (undisturbed : Undisturbed info call) : KeysUnchanged info call := by
  cases call with
  | writeBuild index response =>
      intro next stepped
      simp only [step] at stepped
      split at stepped
      next build found =>
        split at stepped
        next =>
          cases stepped
          exact ⟨storedKeys_writeBuild (undisturbed build found), rfl⟩
        next => cases stepped
      next => cases stepped
  | mergeBuild index notified =>
      intro next stepped
      simp only [step] at stepped
      split at stepped
      next build found =>
        obtain ⟨written, -, rfl⟩ := Option.map_eq_some_iff.mp stepped
        rw [PgProgramInfo.mergeBuild]
        split <;> exact ⟨rfl, rfl⟩
      next => cases stepped
  | _ => trivial

/-- At first the info is fresh. -/
theorem fresh_initial (stored : Text → Option (ProgramInfo V)) (workspaceName : Option Text) :
    Fresh (initial stored workspaceName) := by
  refine ⟨fun _ => .inl rfl, fun name is => ?_⟩
  obtain rfl : workspaceName = some name := is
  rfl

/-- In a run without such disturbances no key is lost, and a build ends without changing one. -/
theorem kept_throughout (stored : Text → Option (ProgramInfo V)) (workspaceName : Option Text)
    (calls : List (InfoCall V))
    (undisturbed : machine.Meets Undisturbed (initial stored workspaceName) calls) :
    machine.Throughout Kept (initial stored workspaceName) calls ∧
      machine.Meets KeysUnchanged (initial stored workspaceName) calls := by
  have fresh : machine.Throughout Fresh (initial stored workspaceName) calls :=
    Machine.throughout_of_meets Fresh fresh_step (fresh_initial stored workspaceName) undisturbed
  exact ⟨fresh.mono fun _ here => here.kept, undisturbed.mono keysUnchanged_of_undisturbed⟩

/-- A build ends, after its workspace has been left, over the keypair that it has captured. -/
theorem kept_after_switch :
    let calls : List (InfoCall numbers) := [.update (some (some (1 : Nat))) none none, .save,
      .startBuild none, .setWorkspaceName (some "vault".toList), .refresh,
      .readRefresh 0, .refreshed 0 true,
      .writeBuild 0 ⟨some "id".toList, none, false⟩, .mergeBuild 0 false, .save]
    machine.Throughout Kept (initial (fun _ => none) (some "counter".toList)) calls ∧
      machine.Meets KeysUnchanged (initial (fun _ => none) (some "counter".toList)) calls := by
  refine kept_throughout _ _ _ ⟨trivial, ?_⟩
  rintro _ ⟨⟩
  refine ⟨rfl, ?_⟩
  rintro _ ⟨⟩
  refine ⟨trivial, ?_⟩
  rintro _ ⟨⟩
  refine ⟨trivial, ?_⟩
  rintro _ ⟨⟩
  refine ⟨trivial, ?_⟩
  rintro _ ⟨⟩
  refine ⟨trivial, ?_⟩
  rintro _ ⟨⟩
  refine ⟨⟨?_, ?_⟩, ?_⟩
  · rintro name ⟨⟩
    rfl
  · rintro refresh ⟨⟩ state ⟨⟩ name ⟨⟩
    rfl
  rintro _ ⟨⟩
  refine ⟨?_, ?_⟩
  · rintro build ⟨⟩
    rfl
  rintro _ ⟨⟩
  refine ⟨trivial, ?_⟩
  rintro _ ⟨⟩
  exact ⟨rfl, fun _ _ => trivial⟩

/-- A keypair that is set during a build is lost when the workspace is left before its end. -/
theorem not_always_kept : ¬ ∀ (V : ProgramValues) (stored : Text → Option (ProgramInfo V))
    (workspaceName : Option Text) (calls : List (InfoCall V)),
    machine.Throughout Kept (initial stored workspaceName) calls ∧
      machine.Meets KeysUnchanged (initial stored workspaceName) calls := by
  intro kept
  have after := (kept numbers (fun _ => none) (some "counter".toList)
    [.startBuild (some (1 : Nat)), .save, .update (some (some (2 : Nat))) none none, .save,
      .setWorkspaceName (some "vault".toList), .writeBuild 0 ⟨none, none, false⟩,
      .mergeBuild 0 false]).1.of_run rfl
  have lost : some (1 : Nat) = some 2 :=
    congrArg (fun keys => keys.1.map Made.value) (after rfl rfl "counter".toList)
  cases lost

end PgProgramInfo
end Solpg.Client.Utils
