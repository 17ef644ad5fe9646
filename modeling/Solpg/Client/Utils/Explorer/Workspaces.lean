import Solpg.Client.Utils.Explorer.Explorer

/-!
# Making, renaming and deleting workspaces

The methods of `PgExplorer` that change the list of workspaces, with the checks that each of
them makes of the name.
-/

namespace Solpg.Client.Utils

open Solpg.Std PgCommon

/-- A path with its content. -/
abbrev TupleFiles := List (Text × Text)

namespace PgExplorer

open PgM

/-- `/^(?!\s)[\w\s-]+$/`. -/
def isWorkspaceNameValid (name : Text) : Bool :=
  (match name with
    | first :: _ => !Text.isSpace first
    | [] => false) &&
  name.all fun char => Text.isWord char || Text.isSpace char || char = '-'

def getDefaultOpenFile (files : TupleFiles) : Option Text :=
  match files.find? fun file => file.1.endsWith "lib.rs".toList with
  | some libRsFile => some libRsFile.1
  | none => files.head?.map Prod.fst

structure CreateWorkspaceOptions where
  files : Option TupleFiles
  defaultOpenFile : Option Text
  fromTemporary : Bool
  skipNameValidation : Bool

/-- `create` of `PgWorkspace`. -/
def createWorkspaceInState (name : Text) (self : PgExplorer) : Except JsError PgExplorer :=
  if name ∈ self.workspaces.allNames then .error (.ofMessage "Already exists")
  else .ok { self with workspaces := ⟨self.workspaces.allNames ++ [name], some name⟩ }

/-- `rename` of `PgWorkspace`. -/
def renameWorkspaceInState (newName : Text) (self : PgExplorer) : Except JsError PgExplorer :=
  let workspaces := self.workspaces
  if newName ∈ workspaces.allNames then .error (.ofMessage "Already exists")
  else .ok { self with
    workspaces :=
      ⟨workspaces.allNames.map fun name =>
        if some name = workspaces.currentName then newName else name, some newName⟩ }

/-- `delete` of `PgWorkspace`. -/
def deleteWorkspaceInState (name : Text) (self : PgExplorer) : PgExplorer :=
  { self with
    workspaces := { self.workspaces with allNames := self.workspaces.allNames.filter (· ≠ name) } }

/-- The path in the directory of a new workspace. -/
def pathInNew (name path : Text) : Text := joinPaths (joinPaths slash name) path

/-- Temporary projects start with the slash: every path moves below the workspace. -/
def movedToNew (name : Text) (self : PgExplorer) : PgExplorer :=
  let stored := { self with isTemporary := false }
  let moved := OrderedMap.forIn files (fun path state =>
    let data := state.files.item path
    state.setFiles ((state.files.erase path).set (pathInNew name path) data)) stored
  moved.setTabs (moved.tabs.map (pathInNew name))

section

variable (browser : Browser) (parseWorkspaces : Text → Option Workspaces)

/-- The list of workspaces that is stored. Without one the state is set to the default, which
is the object that it is already. -/
def initWorkspaces : PgM Unit := do
  let stored ← tryCatch
    (do
      let text ← PgFs.readToString WORKSPACES_CONFIG_PATH
      pure (parseWorkspaces text))
    fun _ => pure none
  modify fun self =>
    { self with hasWorkspace := true, workspaces := stored.getD self.workspaces }
  saveWorkspaces browser

/-- The checks of the name of a new workspace. -/
def checkWorkspaceName (name : Text) (skipNameValidation : Bool) : Except JsError Unit :=
  if !skipNameValidation && !isWorkspaceNameValid name then .error (.ofMessage "Invalid name")
  else .ok ()

/-- Write the files of a new workspace. -/
def writeFiles (files : TupleFiles) : PgM Unit :=
  files.forM fun (path, content) => PgFs.writeFile path content true

def createWorkspace (fuel : Nat) (name : Text) (opts : CreateWorkspaceOptions) : PgM Unit := do
  let name := name.trim
  sync fun _ => checkWorkspaceName name opts.skipNameValidation
  if opts.fromTemporary && (← get).isTemporary then
    initWorkspaces browser parseWorkspaces
    change (createWorkspaceInState name)
    modify (movedToNew name)
    -- Save files from state to `indexedDB`
    writeAllFromState
    switchWorkspace browser fuel name none
  else
    sync fun self => if self.hasWorkspace then .ok () else .error (.ofMessage "Workspace not found")
    change (createWorkspaceInState name)
    match opts.files with
    | some files => do
        writeFiles files
        switchWorkspace browser fuel name (opts.defaultOpenFile.or (getDefaultOpenFile files))
    | none => switchWorkspace browser fuel name opts.defaultOpenFile

def renameWorkspace (fuel : Nat) (newName : Text) : PgM Unit := do
  let newName := newName.trim
  sync fun _ => checkWorkspaceName newName false
  let workspacePath ← sync getRequiredCurrentWorkspacePath
  let self ← get
  if newName ∈ self.workspaces.allNames then throw (.ofMessage "Already exists")
  -- Rename workspace folder
  let newPath := workspacePath.replace (self.workspaces.currentName.getD []) newName
  renameItem browser workspacePath newPath ⟨true, false⟩
  -- Rename workspace in state
  change (renameWorkspaceInState newName)
  switchWorkspace browser fuel newName none

def deleteWorkspace (fuel : Nat) : PgM Unit := do
  let workspacePath ← sync getRequiredCurrentWorkspacePath
  let workspaceName := (← get).workspaces.currentName.getD []
  -- Delete from `indexedDB`
  deleteItem browser fuel workspacePath
  -- Delete from state
  modify (deleteWorkspaceInState workspaceName)
  match (← get).workspaces.allNames.getLast? with
  | some lastWorkspace => switchWorkspace browser fuel lastWorkspace none
  | none => do
      modify fun self => { self with workspaces := ⟨[], none⟩ }
      saveWorkspaces browser
      modify (·.dispatch .switchWorkspace)

end

end PgExplorer
end Solpg.Client.Utils
