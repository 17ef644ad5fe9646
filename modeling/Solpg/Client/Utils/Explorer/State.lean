import Solpg.Std.OrderedMap
import Solpg.Client.Utils.Common

/-!
# The state of the explorer

`PgExplorer` with the methods that work on the state alone: paths, tabs and the
current file, and the content of folders. An event that is dispatched is added
to `dispatched`.
-/

namespace Solpg.Client.Utils

open Solpg.Std PgCommon

/-- The scroll position and the selection of an editor. -/
structure Position where
  topLineNumber : Nat
  cursorFrom : Nat
  cursorTo : Nat
  deriving DecidableEq, Repr

/-- The metadata of an item. -/
structure ItemMeta where
  position : Option Position
  deriving DecidableEq, Repr

/-- An item of the explorer; a folder has no content. -/
structure ItemInfo where
  content : Option Text
  meta_ : Option ItemMeta
  deriving DecidableEq, Repr

/-- An item with its path. -/
structure FullFile extends ItemInfo where
  path : Text
  deriving DecidableEq, Repr

/-- Full path to item. A key can hold `undefined`. -/
abbrev ExplorerFiles := OrderedMap Text (Option ItemInfo)

namespace ExplorerFiles

/-- The item under a path. -/
def item (files : ExplorerFiles) (path : Text) : Option ItemInfo := (files.get path).join

/-- The content of the file at a path. -/
def content (files : ExplorerFiles) (path : Text) : Option Text :=
  (files.item path).bind ItemInfo.content

/-- What stands for an empty folder. -/
def folder : ItemInfo := ⟨none, none⟩

/-- A folder is recorded under the path. -/
def addFolder (files : ExplorerFiles) (path : Text) : ExplorerFiles := files.set path (some folder)

/-- The item under a path after an assignment. -/
theorem item_set (files : ExplorerFiles) (path : Text) (item : Option ItemInfo) (other : Text) :
    ExplorerFiles.item (files.set path item) other =
      if other = path then item else files.item other := by
  rw [ExplorerFiles.item, OrderedMap.get_set]
  split <;> rfl

/-- The item under a path after a deletion. -/
theorem item_erase (files : ExplorerFiles) (path other : Text) :
    ExplorerFiles.item (files.erase path) other =
      if other = path then none else files.item other := by
  rw [ExplorerFiles.item, OrderedMap.get_erase]
  split <;> rfl

/-- The content under a path after an assignment. -/
theorem content_set (files : ExplorerFiles) (path : Text) (item : Option ItemInfo) (other : Text) :
    ExplorerFiles.content (files.set path item) other =
      if other = path then item.bind ItemInfo.content else files.content other := by
  rw [ExplorerFiles.content, item_set]
  split <;> rfl

/-- The content under a path after a deletion. -/
theorem content_erase (files : ExplorerFiles) (path other : Text) :
    ExplorerFiles.content (files.erase path) other =
      if other = path then none else files.content other := by
  rw [ExplorerFiles.content, item_erase]
  split <;> rfl

/-- A recorded folder has no content. -/
theorem content_addFolder (files : ExplorerFiles) (path other : Text) :
    (files.addFolder path).content other = if other = path then none else files.content other := by
  rw [addFolder, content_set]
  rfl

/-- A file has a key. -/
theorem mem_keys_of_content {files : ExplorerFiles} {path content : Text}
    (found : files.content path = some content) : path ∈ files.keys := by
  rw [OrderedMap.mem_keys_iff, Option.isSome_iff_ne_none]
  intro missing
  simp [ExplorerFiles.content, ExplorerFiles.item, missing] at found

end ExplorerFiles

/-- The files and the tabs that the explorer shows. -/
structure Explorer where
  files : ExplorerFiles
  tabs : List Text
  /-- `none` is the index -1. -/
  currentIndex : Option Nat

/-- The state of `PgWorkspace`. -/
structure Workspaces where
  allNames : List Text
  currentName : Option Text

/-- The events that the explorer dispatches. -/
inductive ExplorerEvent where
  | createItem
  | renameItem (oldPath : Text)
  | deleteItem (path : Text)
  | changeFileContent (path content : Text)
  | openFile (file : Option FullFile)
  | closeFile
  | setTabs
  | switchWorkspace
  deriving DecidableEq, Repr

/-- The `code` of a file system error. -/
inductive FsCode where
  | ENOENT
  | EEXIST
  | ENOTDIR
  | ENOTEMPTY
  deriving DecidableEq, Repr

/-- What a function throws: an error of the file system may have a code. -/
structure JsError where
  message : Text
  code : Option FsCode
  deriving DecidableEq, Repr

/-- An `Error` without a code. -/
def JsError.ofMessage (message : String) : JsError := ⟨message.toList, none⟩

/-- Every `PgWorkspace` is made with `PgWorkspace.DEFAULT` itself for its state,
so they all share `workspaces`. `generation` counts the objects that have been
`files`. -/
structure PgExplorer where
  explorer : Explorer
  generation : Nat
  isTemporary : Bool
  hasWorkspace : Bool
  workspaces : Workspaces
  initializedWorkspaceName : Option Text
  dispatched : List ExplorerEvent

/-- What the explorer holds apart from its files and tabs. -/
structure Context where
  generation : Nat
  isTemporary : Bool
  hasWorkspace : Bool
  workspaces : Workspaces

namespace PgExplorer

/-- The explorer without files and tabs. -/
def getDefaultState : Explorer := ⟨.empty, [], none⟩

variable (self : PgExplorer)

/-- What the operations on the disk depend on. -/
def context : Context :=
  ⟨self.generation, self.isTemporary, self.hasWorkspace, self.workspaces⟩

/-- The files of the explorer. -/
def files : ExplorerFiles := self.explorer.files

/-- The tabs of the explorer. -/
def tabs : List Text := self.explorer.tabs

/-- `currentFilePath`: the tab under the current index. -/
def currentFilePath : Option Text := self.explorer.currentIndex.bind (self.tabs[·]?)

/-- `currentWorkspaceName`, `undefined` without a workspace. -/
def currentWorkspaceName : Option Text :=
  if self.hasWorkspace then self.workspaces.currentName else none

/-- An event is dispatched to the listeners. -/
def dispatch (event : ExplorerEvent) : PgExplorer :=
  { self with dispatched := self.dispatched ++ [event] }

/-- The files are replaced. -/
def setFiles (files : ExplorerFiles) : PgExplorer :=
  { self with explorer := { self.explorer with files } }

/-! ## Paths -/

/-- The name `` counts as no name. -/
def getRequiredCurrentWorkspacePath : Except JsError Text :=
  if !self.hasWorkspace then .error (.ofMessage "Workspace not found")
  else
    match self.workspaces.currentName with
    | none | some [] => .error (.ofMessage "Current workspace not found")
    | some name => .ok (joinPaths slash (appendSlash name))

/-- `getProjectRootPath()`. -/
def getProjectRootPath : Except JsError Text :=
  if self.isTemporary then .ok slash else self.getRequiredCurrentWorkspacePath

/-- `convertToFullPath(path)`. -/
def convertToFullPath (path : Text) : Except JsError Text :=
  if path.startsWith slash then .ok path
  else self.getProjectRootPath.map fun root => joinPaths root path

/-- `getCurrentSrcPath()`. -/
def getCurrentSrcPath : Except JsError Text :=
  self.getProjectRootPath.map fun root => appendSlash (joinPaths root "src".toList)

/-- `getRelativePath(fullPath)`. -/
def getRelativePath (fullPath : Text) : Except JsError Text :=
  if self.isTemporary then .ok (fullPath.drop 1)
  else self.getRequiredCurrentWorkspacePath.map fun root => fullPath.replace root []

/-- `getCanonicalPath(path)`. -/
def getCanonicalPath (path : Text) : Except JsError Text :=
  (self.convertToFullPath path).map fun path =>
    if getItemTypeFromPath path = .file then path else appendSlash path

/-! ## Files -/

/-- `getFile(path)`. -/
def getFile (path : Text) : Except JsError (Option FullFile) :=
  (self.convertToFullPath path).map fun path =>
    (self.files.item path).map fun item => ⟨item, path⟩

/-- `getFileContent(path)`. -/
def getFileContent (path : Text) : Except JsError (Option Text) :=
  (self.getFile path).map fun file => file.bind fun file => file.content

/-- `getCurrentFile()`. -/
def getCurrentFile : Option FullFile :=
  self.currentFilePath.bind fun path => (self.files.item path).map fun item => ⟨item, path⟩

/-- The first name below the folder in each path: its files and its folders. -/
def getFolderContent (path : Text) : Except JsError (List Text × List Text) :=
  (self.convertToFullPath path).map fun path =>
    let path := appendSlash path
    self.files.keys.foldl
      (fun (files, folders) itemPath =>
        if itemPath.startsWith path then
          let item := ((itemPath.drop path.length).splitOn '/').headD []
          if files.contains item || folders.contains item || item.isEmpty then (files, folders)
          else if item.contains '.' then (files ++ [item], folders)
          else (files, folders ++ [item])
        else (files, folders))
      ([], [])

/-- `saveFileToState` of a full path. -/
def saveFileToStateAt (path content : Text) : PgExplorer :=
  match self.files.item path with
  | none => self
  | some file =>
      if file.content = some content then self
      else (self.setFiles (self.files.set path (some { file with content := some content }))).dispatch
        (.changeFileContent path content)

/-- `saveFileToState(path, content)`. -/
def saveFileToState (path content : Text) : Except JsError PgExplorer :=
  (self.convertToFullPath path).map fun path => self.saveFileToStateAt path content

/-! ## Tabs

The methods of a full path come first; a path is made full before they run. -/

/-- `openFile` of a full path. -/
def openFileAt (path : Text) : PgExplorer :=
  if self.currentFilePath = some path then self
  else
    let tabs := if path ∈ self.tabs then self.tabs else self.tabs ++ [path]
    let self :=
      { self with explorer := { self.explorer with tabs, currentIndex := tabs.idxOf? path } }
    self.dispatch (.openFile self.getCurrentFile)

/-- `openFile(path)`. -/
def openFile (path : Text) : Except JsError PgExplorer :=
  (self.convertToFullPath path).map self.openFileAt

/-- `tabs.splice(tabs.indexOf(path), 1)`: the index -1 is the last tab. -/
def spliceTab (tabs : List Text) (path : Text) : List Text :=
  match tabs.idxOf? path with
  | some index => tabs.eraseIdx index
  | none => tabs.dropLast

/-- If closing the current file, change the current file to the next tab. -/
def openNextTab (path : Text) : PgExplorer :=
  if self.currentFilePath = some path then
    let next := self.explorer.currentIndex.bind fun index => self.tabs[index + 1]?
    -- `at(-2)`
    match next.or self.tabs.dropLast.getLast? with
    | some pathToOpen => self.openFileAt pathToOpen
    | none => self
  else self

/-- Update tabs and the current index. The current path is read again after the
tab is gone. -/
def removeTab (path : Text) : PgExplorer :=
  if self.currentFilePath.isSome then
    let tabs := spliceTab self.tabs path
    let current := self.explorer.currentIndex.bind (tabs[·]?)
    { self with explorer :=
        { self.explorer with tabs, currentIndex := current.bind tabs.idxOf? } }
  else self

/-- `closeFile` of a full path. -/
def closeFileAt (path : Text) : PgExplorer :=
  ((self.openNextTab path).removeTab path).dispatch .closeFile

/-- `closeFile(path)`. -/
def closeFile (path : Text) : Except JsError PgExplorer :=
  (self.convertToFullPath path).map self.closeFileAt

/-- `[...new Set(tabs)]`. -/
def uniqueTabs (tabs : List Text) : List Text :=
  tabs.foldl (fun unique path => if path ∈ unique then unique else unique ++ [path]) []

/-- `setTabs(tabs)`. -/
def setTabs (tabs : List Text) : PgExplorer :=
  let unique := uniqueTabs tabs
  { self with
    explorer :=
      { self.explorer with
        tabs := unique
        currentIndex :=
          match self.currentFilePath with
          | some currentPath => unique.idxOf? currentPath
          | none => self.explorer.currentIndex } }.dispatch .setTabs

end PgExplorer
end Solpg.Client.Utils
