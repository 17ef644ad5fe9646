import Solpg.Client.Utils.Explorer.Fs

/-!
# The explorer

The methods of `PgExplorer` that wait for the file system. What they do to the
state between two waits is a function of the state, named after the method.
-/

namespace Solpg.Client.Utils

open Solpg.Std PgCommon

/-- An entry of `ItemMetaFile`. -/
structure ItemMetaEntry where
  path : Text
  isTabs : Bool
  isCurrent : Bool
  position : Option Position
  deriving DecidableEq, Repr

/-- What the explorer uses of the browser: the explorer in `localStorage` from
before there were workspaces, and `JSON` for its own files. -/
structure Browser where
  lsFiles : Option ExplorerFiles
  stringifyMetaFile : List ItemMetaEntry → Text
  parseMetaFile : Text → Option (List ItemMetaEntry)
  stringifyWorkspaces : Workspaces → Text

/-- `PATHS.WORKSPACES_CONFIG`. -/
def WORKSPACES_CONFIG_PATH : Text := "/.config/workspaces.json".toList

/-- `PATHS.METADATA`. -/
def METADATA_PATH : Text := joinPaths ".workspace".toList "metadata.json".toList

namespace PgExplorer

open PgM

section

variable (browser : Browser)

/-! ## Metadata -/

/-- The entries that `saveMeta` writes. Those that are tabs come first, in the
order of the tabs; the order of the others is up to the engine, as their
comparison says that each comes after each. -/
def metaEntries (self : PgExplorer) : Except JsError (List ItemMetaEntry) := do
  let entries ← self.files.keys.mapM fun path =>
    match self.files.item path with
    | none => .error (.ofMessage "Cannot read properties of undefined (reading 'meta')")
    | some item => do
        let relative ← self.getRelativePath path
        .ok (path, (⟨relative, self.tabs.contains path, self.currentFilePath = some path,
          item.meta_.bind ItemMeta.position⟩ : ItemMetaEntry))
  let inTabs := entries.filter fun entry => entry.2.isTabs
  let others := entries.filter fun entry => !entry.2.isTabs
  let ordered := inTabs.mergeSort fun first second =>
    self.tabs.idxOf first.1 ≤ self.tabs.idxOf second.1
  .ok ((ordered ++ others).map Prod.snd)

/-- The paths start with the path of the workspace, or nothing is saved. -/
def savedMeta (self : PgExplorer) : Except JsError (Option (List ItemMetaEntry)) := do
  if self.isTemporary || self.files.keys.isEmpty then .ok none
  else
    let workspacePath ← self.getRequiredCurrentWorkspacePath
    if self.files.keys.any fun path => !path.startsWith workspacePath then .ok none
    else some <$> self.metaEntries

/-- `saveMeta`. -/
def saveMeta : PgM Unit := do
  match ← sync savedMeta with
  | none => pure ()
  | some metaFile => PgFs.writeFile METADATA_PATH (browser.stringifyMetaFile metaFile) true

/-! ## Items -/

/-- `openOptions` of `createItem`. -/
structure OpenOptions where
  dontOpen : Bool
  onlyRefreshIfAlreadyOpen : Bool

/-- The options of `createItem`. -/
structure CreateItemOptions where
  skipNameValidation : Bool
  override : Bool
  openOptions : Option OpenOptions

/-- The assignment to `files`, to the object that was `files` before the wait:
nobody else has that object when there is a new one. -/
def assignFile (generation : Nat) (path : Text) (item : ExplorerFiles → ItemInfo)
    (self : PgExplorer) : PgExplorer :=
  if self.generation = generation then
    self.setFiles (self.files.set path (some (item self.files)))
  else self

/-- `createItem` after the file has been written. -/
def createdFile (generation : Nat) (fullPath content : Text) (previousContent : Option Text)
    (opts : CreateItemOptions) (self : PgExplorer) : PgExplorer :=
  let self := self.assignFile generation fullPath fun files =>
    ⟨some content, some (((files.item fullPath).bind ItemInfo.meta_).getD ⟨none⟩)⟩
  let self :=
    if opts.override ∧ previousContent ≠ some content then
      self.dispatch (.changeFileContent fullPath content)
    else self
  let refresh := (opts.openOptions.map OpenOptions.onlyRefreshIfAlreadyOpen).getD true
  let isCurrentFile := self.currentFilePath = some fullPath
  if refresh then
    -- Close the file if we are overriding to correctly display the new content
    let self := if opts.override ∧ isCurrentFile then self.closeFileAt fullPath else self
    -- Open if it's the current file or there is no open options
    if opts.openOptions.isNone ∨ isCurrentFile then self.openFileAt fullPath else self
  else self

/-- Temporary items are in the state only. -/
def unlessTemporary (program : PgM Unit) : PgM Unit := do
  if (← get).isTemporary then pure () else program

/-- The checks of `createItem`. -/
def checkCreate (fullPath : Text) (opts : CreateItemOptions) (self : PgExplorer) :
    Except JsError Unit :=
  if !opts.skipNameValidation && !isItemNameValid (getItemNameFromPath fullPath) then
    .error (.ofMessage "Invalid name")
  else if (self.files.item fullPath).isSome && !opts.override then
    .error (.ofMessage "Already exists")
  else .ok ()

/-- Write the item to the file system and to the state. -/
def storeItem (fullPath content : Text) (opts : CreateItemOptions) : PgM Unit := do
  let self ← get
  match getItemTypeFromPath fullPath with
  | .file => do
      unlessTemporary (PgFs.writeFile fullPath content true)
      modify (createdFile self.generation fullPath content (self.files.content fullPath) opts)
  | .folder => do
      unlessTemporary (PgFs.createDir fullPath false)
      modify (assignFile self.generation fullPath fun _ => ExplorerFiles.folder)

/-- `createItem`. -/
def createItem (path content : Text) (opts : CreateItemOptions) : PgM Unit := do
  let fullPath ← sync (·.convertToFullPath path)
  sync (·.checkCreate fullPath opts)
  storeItem fullPath content opts
  modify (·.dispatch .createItem)
  saveMeta browser

/-- `rename` in `renameItem`. -/
def renamePath (oldPath newPath : Text) (self : PgExplorer) : PgExplorer :=
  let item := self.files.item oldPath
  let self := self.setFiles ((self.files.erase oldPath).set newPath item)
  -- Handle tabs if it's a file
  if getItemTypeFromPath newPath = .file then
    match self.tabs.idxOf? oldPath with
    | some tabIndex =>
        { self with explorer := { self.explorer with tabs := self.tabs.set tabIndex newPath } }
    | none => self
  else self

/-- The path of what is below a folder after the folder is renamed. -/
def childPath (oldPath newPath path : Text) : Text :=
  path.replace oldPath (if oldPath.endsWith slash then appendSlash newPath else newPath)

/-- A turn of the loop of `renameItem`. -/
def renameTurn (oldPath newPath path : Text) (self : PgExplorer) : PgExplorer :=
  if path.startsWith oldPath then self.renamePath path (childPath oldPath newPath path) else self

/-- The change of files and tabs by `renameItem`. -/
def renameInState (oldPath newPath : Text) (self : PgExplorer) : PgExplorer :=
  match getItemTypeFromPath oldPath with
  | .file =>
      let renamed := self.renamePath oldPath newPath
      renamed.setFiles (renamed.files.addFolder (getParentPathFromPath oldPath))
  | .folder => OrderedMap.forIn files (renameTurn oldPath newPath) self

/-- `renameItem` after the rename in the file system. -/
def renamedItem (oldPath newPath : Text) (override : Bool) (self : PgExplorer) : PgExplorer :=
  let renamed := self.renameInState oldPath newPath
  -- Set tabs to close the duplicate paths
  let renamed := if override then renamed.setTabs renamed.tabs else renamed
  -- Keep the same current file after rename
  (renamed.dispatch (.openFile renamed.getCurrentFile)).dispatch (.renameItem oldPath)

/-- Whether there is something at the new path, for an item of the given type. -/
def newPathExists (itemType : ItemType) (newPath : Text) (self : PgExplorer) :
    Except JsError Bool :=
  match itemType with
  | .file => (self.getFile newPath).map Option.isSome
  | .folder => (self.getFolderContent newPath).map fun (files, folders) =>
      !files.isEmpty || !folders.isEmpty

/-- The options of `renameItem`. -/
structure RenameItemOptions where
  skipNameValidation : Bool
  override : Bool

/-- The checks of `renameItem`. -/
def checkRename (oldPath newPath : Text) (opts : RenameItemOptions) (self : PgExplorer) :
    Except JsError Unit :=
  if !opts.skipNameValidation && !isItemNameValid newPath then .error (.ofMessage "Invalid name")
  else
    self.getCurrentSrcPath.bind fun srcPath =>
      if isPathsEqual oldPath srcPath then .error (.ofMessage "Cannot rename src folder")
      else if getItemTypeFromPath oldPath ≠ getItemTypeFromPath newPath then
        .error (.ofMessage "Types don't match")
      else if opts.override then .ok ()
      else
        (self.newPathExists (getItemTypeFromPath oldPath) newPath).bind fun exists_ =>
          if exists_ then .error (.ofMessage "Already exists") else .ok ()

/-- `renameItem`. -/
def renameItem (oldPath newPath : Text) (opts : RenameItemOptions) : PgM Unit := do
  let oldPath ← sync (·.convertToFullPath oldPath)
  let newPath ← sync (·.convertToFullPath newPath)
  -- Return if there is no change
  if isPathsEqual newPath oldPath then pure ()
  else
    sync (·.checkRename oldPath newPath opts)
    unlessTemporary (PgFs.rename oldPath newPath)
    modify (renamedItem oldPath newPath opts.override)
    saveMeta browser

/-- A turn of the loop of `deleteItem`. -/
def deleteTurn (fullPath path : Text) (self : PgExplorer) : PgExplorer :=
  if path.startsWith fullPath then (self.setFiles (self.files.erase path)).closeFileAt path
  else self

/-- The last tab becomes the current file. -/
def openLastTab (self : PgExplorer) : PgExplorer :=
  match self.tabs.getLast? with
  | some lastTabPath => self.openFileAt lastTabPath
  | none => self

/-- `deleteItem` after the item is deleted from the file system. -/
def deletedItem (fullPath : Text) (self : PgExplorer) : PgExplorer :=
  let isCurrentFile := self.currentFilePath = some fullPath
  let isCurrentParent := self.currentFilePath.any fun path => path.startsWith fullPath
  let deleted := OrderedMap.forIn files (deleteTurn fullPath) self
  let deleted := deleted.setFiles (deleted.files.addFolder (getParentPathFromPath fullPath))
  -- Change the current file to the closest tab
  let deleted := if isCurrentFile ∨ isCurrentParent then deleted.openLastTab else deleted
  deleted.dispatch (.deleteItem fullPath)

/-- The check of `deleteItem`. -/
def checkDelete (fullPath : Text) (self : PgExplorer) : Except JsError Unit :=
  self.getCurrentSrcPath.bind fun srcPath =>
    if isPathsEqual fullPath srcPath then .error (.ofMessage "Cannot delete src folder") else .ok ()

/-- Delete the item from the file system. -/
def removeItem (fuel : Nat) (fullPath : Text) : PgM Unit := do
  match ← PgFs.getMetadata fullPath with
  | .file => PgFs.removeFile fullPath
  | .directory => PgFs.removeDir fuel fullPath

/-- `deleteItem`. -/
def deleteItem (fuel : Nat) (path : Text) : PgM Unit := do
  let fullPath ← sync (·.convertToFullPath path)
  sync (·.checkDelete fullPath)
  unlessTemporary (removeItem fuel fullPath)
  modify (deletedItem fullPath)
  saveMeta browser

/-! ## Workspaces -/

/-- A workspace that is known becomes the current one. -/
def setCurrentName (name : Text) (workspaces : Workspaces) : Workspaces :=
  if name ∈ workspaces.allNames then { workspaces with currentName := some name } else workspaces

/-- `setWorkspaceName`. -/
def setWorkspaceName (name : Text) (self : PgExplorer) : Except JsError PgExplorer :=
  if self.hasWorkspace then
    .ok { self with workspaces := setCurrentName name self.workspaces }
  else .error (.ofMessage "Cannot read properties of null (reading 'setCurrentName')")

/-- `saveWorkspaces`. -/
def saveWorkspaces : PgM Unit := do
  let self ← get
  if self.hasWorkspace then
    PgFs.writeFile WORKSPACES_CONFIG_PATH (browser.stringifyWorkspaces self.workspaces) true

/-- `setupFiles`, to a depth of `fuel` directories. -/
def setupFiles : Nat → Text → PgM Unit
  | 0, _ => Async.endless
  | fuel + 1, path => do
      let itemNames ← PgFs.readDir path
      -- Empty directory
      if itemNames.isEmpty then modify fun self => self.setFiles (self.files.addFolder path)
      else
        let subItemPaths ← sync fun self =>
          (itemNames.filter isItemNameValid).mapM fun itemName =>
            self.getCanonicalPath (joinPaths path itemName)
        subItemPaths.forM fun subItemPath => do
          match ← PgFs.getMetadata subItemPath with
          | .file =>
              -- A file that cannot be read is passed over.
              tryCatch
                (do
                  let content ← PgFs.readToString subItemPath
                  modify fun self =>
                    self.setFiles (self.files.set subItemPath (some ⟨some content, none⟩)))
                fun _ => pure ()
          | .directory => setupFiles fuel subItemPath

/-- `writeAllFromState`. -/
def writeAllFromState : PgM Unit := do
  (← get).files.keys.forM fun path => do
    let self ← get
    if self.files.has path then
      match getItemTypeFromPath path with
      | .file => PgFs.writeFile path ((self.files.content path).getD []) true
      | .folder => PgFs.createDir path true

/-- Move the explorer of `localStorage` into a workspace of its own. -/
def setupDefaultFs (workspacePath : Text) (lsFiles : ExplorerFiles) : PgM Unit := do
  let self ← get
  if "default".toList ∈ self.workspaces.allNames then throw (.ofMessage "Already exists")
  set { self with
    workspaces := ⟨self.workspaces.allNames ++ ["default".toList], some "default".toList⟩ }
  saveWorkspaces browser
  modify fun self =>
    { self with
      generation := self.generation + 1
      explorer := { self.explorer with
        files := OrderedMap.forIn id (fun path files =>
          (files.erase path).set (path.replace slash workspacePath)
            (some ⟨files.content path, some ⟨none⟩⟩)) lsFiles } }
  writeAllFromState
  saveMeta browser

/-- The metadata of a file that is there. -/
def loadPosition (files : ExplorerFiles) (meta_ : ItemMetaEntry) : ExplorerFiles :=
  match files.item meta_.path with
  | some ⟨some content, _⟩ => files.set meta_.path (some ⟨some content, some ⟨meta_.position⟩⟩)
  | _ => files

/-- The tabs, the current file and the positions of the metadata. -/
def loadedMetadata (fullPathMetaFile : List ItemMetaEntry) (self : PgExplorer) : PgExplorer :=
  let self := self.setTabs ((fullPathMetaFile.filter (·.isTabs)).map (·.path))
  let current := fullPathMetaFile.find? (·.isCurrent)
  { self with
    explorer := { self.explorer with
      currentIndex := current.bind fun meta_ => self.tabs.idxOf? meta_.path
      files := fullPathMetaFile.foldl loadPosition self.files } }

/-- The part of `_initCurrentWorkspace` that loads the metadata. -/
def loadMetadata : PgM Unit := do
  let metaFile ← tryCatch
    (do
      let text ← PgFs.readToString METADATA_PATH
      pure ((browser.parseMetaFile text).getD []))
    fun _ => pure []
  let fullPathMetaFile ← sync fun self =>
    metaFile.mapM fun meta_ =>
      (self.convertToFullPath meta_.path).map fun path => { meta_ with path }
  modify (loadedMetadata fullPathMetaFile)

/-- The last workspace directory becomes the current workspace. -/
def switchToLast (workspaceDirs : List Text) (self : PgExplorer) : PgExplorer :=
  match workspaceDirs.getLast? with
  | none => { self with hasWorkspace := true }
  | some lastWorkspaceName =>
      let deleted := { self.workspaces with
        allNames := self.workspaces.allNames.filter (some · ≠ self.workspaces.currentName) }
      { self with workspaces := setCurrentName lastWorkspaceName deleted }

/-- `_initCurrentWorkspace`, to `fuel` attempts and directories. -/
def initCurrentWorkspace : Nat → PgM Unit
  | 0 => Async.endless
  | fuel + 1 => do
      let workspacePath ← sync getRequiredCurrentWorkspacePath
      modify fun self =>
        { self with
          generation := self.generation + 1
          explorer := { self.explorer with files := .empty } }
      let failed ← tryCatch (do setupFiles fuel workspacePath; pure false) fun _ => pure true
      let self ← get
      if failed && !self.workspaces.allNames.isEmpty then
        let rootDirs ← PgFs.readDir slash
        modify (switchToLast (rootDirs.filter isItemNameValid))
        saveWorkspaces browser
        initCurrentWorkspace fuel
      else if self.files.keys.isEmpty && self.workspaces.allNames.isEmpty then
        -- Runs when `indexedDB` is empty
        match browser.lsFiles with
        | some lsFiles => do
            setupDefaultFs browser workspacePath lsFiles
            loadMetadata browser
        | none => pure ()
      else loadMetadata browser

/-- `switchWorkspace`. -/
def switchWorkspace (fuel : Nat) (name : Text) (defaultOpenFile : Option Text) : PgM Unit := do
  -- Save metadata before changing the workspace to never lose data
  saveMeta browser
  change (setWorkspaceName name)
  saveWorkspaces browser
  initCurrentWorkspace browser fuel
  match defaultOpenFile.filter (!·.isEmpty) with
  | some path => do
      change (·.openFile path)
      saveMeta browser
  | none => modify fun self => self.dispatch (.openFile self.getCurrentFile)
  modify fun self => { self with initializedWorkspaceName := some name }.dispatch .switchWorkspace

end

end PgExplorer
end Solpg.Client.Utils
