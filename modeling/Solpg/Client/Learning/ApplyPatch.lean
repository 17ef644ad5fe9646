import Solpg.Client.Learning.WorkspacePatch
import Solpg.Client.Utils.Explorer.Writing

/-!
# Applying and undoing a patch of the tutor

`applyPatch` and `undoPatch` of `useTutor`, without what they set of the React
state: `applyPatch` gives the files to undo when the patch has been applied.
-/

namespace Solpg.Client.Learning

open Solpg.Std Solpg.Client.Utils PgExplorer PgM

/-- A file of the patch and its content from before. -/
structure UndoFile where
  path : Text
  content : Option Text
  deriving DecidableEq, Repr

/-- `override: true` and no other option. -/
def overrideOptions : CreateItemOptions := ⟨false, true, none⟩

def previousFiles (files : List PatchFile) (self : PgExplorer) : Except JsError (List UndoFile) :=
  files.mapM fun file => (self.getFileContent file.path).map fun content => ⟨file.path, content⟩

/-- The content in the file system, unless the project is temporary. -/
def readPersisted (path : Text) (savedContent : Option Text) : PgM (Option Text) := do
  if (← get).isTemporary then pure savedContent
  else do
    let persistedContent ← PgFs.readToString path
    pure (some persistedContent)

def checkSaved (file : PatchFile) (savedContent persistedContent : Option Text) :
    Except JsError Unit :=
  if savedContent ≠ some file.content ∨ persistedContent ≠ some file.content then
    .error ⟨file.path ++ " did not save correctly.".toList, none⟩
  else .ok ()

section

variable (browser : Browser) (fuel : Nat)

/-- A turn of the loop of `applyPatch`. -/
def applyFile (file : PatchFile) : PgM Unit := do
  createItem browser file.path file.content overrideOptions
  let savedContent ← sync (·.getFileContent file.path)
  let persistedContent ← readPersisted file.path savedContent
  sync fun _ => checkSaved file savedContent persistedContent

/-- A turn of the loop that takes a failed patch back. -/
def restoreFile (file : UndoFile) : PgM Unit :=
  match file.content with
  | none => do
      match ← sync (·.getFile file.path) with
      | some _ => deleteItem browser fuel file.path
      | none => pure ()
  | some content => createItem browser file.path content overrideOptions

def restoreFiles (previous : List UndoFile) : PgM Unit :=
  previous.reverse.forM fun file =>
    -- Keep the original save error as the actionable failure.
    tryCatch (restoreFile browser fuel file) fun _ => pure ()

def applyFiles (previous : List UndoFile) (files : List PatchFile) : PgM (Option (List UndoFile)) := do
  files.forM (applyFile browser)
  pure (some previous)

def applyPatch (patch : WorkspacePatch) : PgM (Option (List UndoFile)) := do
  let previous ← sync (previousFiles patch.files)
  tryCatch (applyFiles browser previous patch.files) fun _ => do
    restoreFiles browser fuel previous
    pure none

/-- A turn of the loop of `undoPatch`. -/
def undoFile (file : UndoFile) : PgM Unit :=
  match file.content with
  | none => deleteItem browser fuel file.path
  | some content => createItem browser file.path content overrideOptions

def undoPatch (undoFiles : List UndoFile) : PgM Unit := undoFiles.forM (undoFile browser fuel)

end

variable {fs : LightningFs} {cutOff : Prop} {disk : Disk fs} {self : PgExplorer} {browser : Browser}
  {name path : Text} {paths : List Text}

/-- The item of a file to undo in the two views. -/
def UndoFile.saved (name : Text) (file : UndoFile) : Saved Text (List Text) Text :=
  ⟨pathIn name file.path, placeIn name file.path, file.content⟩

/-- `deleteItem` takes a key for one below the path when it starts with it. -/
def deletesKey (path key : Text) : Bool := key.startsWith path

theorem undoPatch_cons (fuel : Nat) (file : UndoFile) (rest : List UndoFile) :
    undoPatch browser fuel (file :: rest) =
      (undoFile browser fuel file >>= fun _ => undoPatch browser fuel rest) := rfl

/-- `undoPatch` puts back one file after the other, and fails where one that is to
be deleted is not stored. -/
theorem undoPatch_spec {fuel : Nat} {undoFiles : List UndoFile} (filePaths : FilePaths name paths)
    (ready : Ready name paths self disk.tree) (saves : SavesMeta self)
    (among : ∀ file ∈ undoFiles, file.path ∈ paths) (tolerable : disk.Tolerable 0) :
    (undoPatch browser fuel undoFiles).Ensures (Interference.nobody.setting fs False) self disk
      fun result self' disk' =>
        match Views.putBackAll deletesKey (undoFiles.map (UndoFile.saved name))
          (viewsOf name self disk.tree) with
        | some final => result = .ok () ∧ viewsOf name self' disk'.tree = final
        | none => ∃ error, result = .error error := by
  induction undoFiles generalizing self disk with
  | nil => exact ⟨rfl, rfl⟩
  | cons file rest ih =>
      have member := among file List.mem_cons_self
      have later := fun other member => among other (List.mem_cons_of_mem file member)
      rw [undoPatch_cons]
      cases there : file.content with
      | some content =>
          have step : (undoFile browser fuel file) =
              createItem browser file.path content overrideOptions := by
            simp only [undoFile, there]
          have put : Views.putBack deletesKey (viewsOf name self disk.tree) (file.saved name) =
              some ((viewsOf name self disk.tree).write (pathIn name file.path)
                (placeIn name file.path) content) := by
            simp only [Views.putBack, UndoFile.saved, there]
          rw [step, List.map_cons, Views.putBackAll, put, Option.bind_some]
          refine Async.Ensures.bind (createItem_writes tabsOnly_nobody filePaths ready member rfl
            tolerable) ?_ ?_
          · rintro _ state disk₁ ⟨left, saves₁, ready₁, views₁⟩
            rw [← views₁]
            exact ih ready₁ saves₁ later left
          · rintro error state disk₁ failed
            obtain ⟨⟨fewer, less, -⟩, -⟩ := failed saves
            omega
      | none =>
          have step : (undoFile browser fuel file) = deleteItem browser fuel file.path := by
            simp only [undoFile, there]
          rw [step, List.map_cons, Views.putBackAll]
          cases stored : (viewsOf name self disk.tree).stored (placeIn name file.path) with
          | some content =>
              have present : ((viewsOf name self disk.tree).stored
                  (placeIn name file.path)).isSome = true := by rw [stored]; rfl
              have put : Views.putBack deletesKey (viewsOf name self disk.tree) (file.saved name) =
                  some ((viewsOf name self disk.tree).remove deletesKey (pathIn name file.path)
                    (placeIn name file.path)) := by
                simp only [Views.putBack, UndoFile.saved, there, present, if_true]
              rw [put, Option.bind_some]
              refine Async.Ensures.bind (deleteItem_removes tabsOnly_nobody filePaths ready member
                present tolerable) ?_ ?_
              · rintro _ state disk₁ ⟨left, saves₁, ready₁, views₁⟩
                have views₁ : viewsOf name state disk₁.tree = (viewsOf name self disk.tree).remove
                    deletesKey (pathIn name file.path) (placeIn name file.path) := views₁
                rw [← views₁]
                exact ih ready₁ saves₁ later left
              · rintro error state disk₁ failed
                obtain ⟨fewer, less, -⟩ := failed saves
                omega
          | none =>
              have put : Views.putBack deletesKey (viewsOf name self disk.tree) (file.saved name) =
                  none := by
                simp [Views.putBack, UndoFile.saved, there, stored]
              rw [put, Option.bind_none]
              refine Async.Ensures.bind (deleteItem_missing filePaths ready member stored
                tolerable) ?_ ?_
              · rintro _ state disk₁ ⟨error, failed⟩
                cases failed
              · rintro error state disk₁ _
                exact ⟨error, rfl⟩

/-! ## What is applied -/

/-- The path is that of a file with a valid name. -/
def NamesFile (name path : Text) : Prop :=
  getItemTypeFromPath (pathIn name path) = .file ∧
    isItemNameValid (getItemNameFromPath (pathIn name path)) = true

/-- Whatever the store does, a folder that is stored has no content. -/
theorem storeItem_named {data : Text} :
    (storeItem path data overrideOptions).Ensures (Interference.nobody.setting fs True) self disk
      fun result state _ => state.context = self.context ∧ (result = .ok () →
        getItemTypeFromPath path = .folder → state.files.content path = none) := by
  rw [storeItem, Async.ensures_bind, Async.ensures_get, either_ok]
  cases type : getItemTypeFromPath path with
  | file =>
      refine Async.Ensures.bind (quiet_unlessTemporary (quiet_writeFile path data true) fs
        self.context disk self rfl) ?_ ?_
      · rintro _ state disk' ⟨rfl, -⟩
        exact ⟨createdFile_context _ _ _ _ _, fun _ folder => by cases folder⟩
      · rintro error state disk' ⟨rfl, -⟩
        exact ⟨rfl, fun failed => by cases failed⟩
  | folder =>
      refine Async.Ensures.bind (quiet_unlessTemporary (quiet_createDir path false) fs
        self.context disk self rfl) ?_ ?_
      · rintro _ state disk' ⟨rfl, -⟩
        rw [Async.ensures_modify, assignFile, if_pos rfl]
        refine ⟨rfl, fun _ _ => ?_⟩
        rw [setFiles_files, ExplorerFiles.content_set, if_pos rfl]
        rfl
      · rintro error state disk' ⟨rfl, -⟩
        exact ⟨rfl, fun failed => by cases failed⟩

/-- An item with an invalid name is not created. -/
theorem createItem_named {data : Text} (here : self.context.At name) :
    (createItem browser path data overrideOptions).Ensures (Interference.nobody.setting fs True) self
      disk fun result state _ => state.context = self.context ∧
        (result = .ok () → isItemNameValid (getItemNameFromPath (pathIn name path)) = true ∧
          (getItemTypeFromPath (pathIn name path) = .folder →
            state.files.content (pathIn name path) = none)) := by
  rw [createItem, Async.ensures_bind, ensures_sync, convertToFullPath_of_at here, either_ok,
    Async.ensures_bind, ensures_sync]
  cases checked : self.checkCreate (pathIn name path) overrideOptions with
  | error error => exact ⟨rfl, fun failed => by cases failed⟩
  | ok _ =>
      have valid : isItemNameValid (getItemNameFromPath (pathIn name path)) = true := by
        by_contra invalid
        simp [checkCreate, overrideOptions, invalid] at checked
      rw [either_ok]
      refine Async.Ensures.bind storeItem_named ?_ ?_
      · rintro _ state disk' ⟨context, folder⟩
        rw [Async.ensures_bind, Async.ensures_modify, either_ok]
        refine (quiet_saveMeta browser fs _ disk' _ rfl).mono ?_
        rintro result final _ ⟨rfl, -⟩
        refine ⟨context, fun _ => ⟨valid, fun type => ?_⟩⟩
        rw [dispatch_files]
        exact folder rfl type
      · rintro error state disk' ⟨context, -⟩
        exact ⟨context, fun failed => by cases failed⟩

theorem quiet_readPersisted (savedContent : Option Text) : Quiet (readPersisted path savedContent) := by
  intro fs context disk self here
  rw [readPersisted, Async.ensures_bind, Async.ensures_get, either_ok]
  have reads : Quiet (PgFs.readToString path) := (quiet_sync _).bind fun _ => quiet_request _
  exact (quiet_pure savedContent).ite (reads.bind fun _ => quiet_pure _) fs context disk self here

theorem getFileContent_of_at (here : self.context.At name) (path : Text) :
    self.getFileContent path = .ok (self.files.content (pathIn name path)) := by
  rw [getFileContent, getFile, convertToFullPath_of_at here]
  simp only [Except.map, ExplorerFiles.content]
  cases self.files.item (pathIn name path) <;> rfl

theorem applyFile_named {file : PatchFile} (here : self.context.At name) :
    (applyFile browser file).Ensures (Interference.nobody.setting fs True) self disk
      fun result state _ => state.context = self.context ∧
        (result = .ok () → NamesFile name file.path) := by
  rw [applyFile]
  refine Async.Ensures.bind (createItem_named here) ?_ ?_
  · rintro _ state disk₁ ⟨context, named⟩
    obtain ⟨valid, folder⟩ := named rfl
    have here₁ : state.context.At name := context ▸ here
    rw [Async.ensures_bind, ensures_sync, getFileContent_of_at here₁, either_ok]
    refine Async.Ensures.bind (quiet_readPersisted _ fs _ disk₁ state rfl) ?_ ?_
    · rintro persisted _ disk₂ ⟨rfl, -⟩
      rw [ensures_sync]
      refine ⟨context, fun saved => ⟨?_, valid⟩⟩
      cases type : getItemTypeFromPath (pathIn name file.path) with
      | file => rfl
      | folder =>
          rw [folder type, checkSaved, if_pos (.inl (by simp))] at saved
          cases saved
    · rintro error _ disk₂ ⟨rfl, -⟩
      exact ⟨context, nofun⟩
  · rintro error state disk₁ ⟨context, -⟩
    exact ⟨context, nofun⟩

/-- A patch is applied only when all its paths name files. -/
theorem applyFiles_named {files : List PatchFile} (here : self.context.At name) :
    (files.forM (applyFile browser)).Ensures (Interference.nobody.setting fs True) self disk
      fun result _ _ => result = .ok () → ∀ file ∈ files, NamesFile name file.path := by
  induction files generalizing self disk with
  | nil => exact fun _ => nofun
  | cons file rest ih =>
      refine Async.Ensures.bind (applyFile_named here) ?_ ?_
      · rintro _ state disk' ⟨context, named⟩
        refine (ih (context ▸ here)).mono ?_
        intro result _ _ later done
        exact List.forall_mem_cons.mpr ⟨named rfl, later done⟩
      · rintro error state disk' -
        exact nofun

/-! ## The contents that are applied -/

def writeFiles (name : Text) (files : List PatchFile) (views : Views Text (List Text) Text) :
    Views Text (List Text) Text :=
  files.foldl (fun views file =>
    views.write (pathIn name file.path) (placeIn name file.path) file.content) views

/-- A file of the patch is written, and what is checked of it holds. -/
theorem applyFile_writes {file : PatchFile} (filePaths : FilePaths name paths)
    (ready : Ready name paths self disk.tree) (member : file.path ∈ paths)
    (tolerable : disk.Tolerable 0) :
    (applyFile browser file).Ensures (Interference.nobody.setting fs cutOff) self disk
      fun result self' disk' => result = .ok () → disk'.Tolerable 0 ∧ SavesMeta self' ∧
        Ready name paths self' disk'.tree ∧ viewsOf name self' disk'.tree =
          (viewsOf name self disk.tree).write (pathIn name file.path) (placeIn name file.path)
            file.content := by
  rw [applyFile]
  refine Async.Ensures.bind (createItem_writes tabsOnly_nobody filePaths ready member rfl tolerable)
    ?_ fun _ _ _ _ => nofun
  rintro _ state disk₁ ⟨left, saves, ready₁, views₁⟩
  have stored : (viewsOf name state disk₁.tree).stored (placeIn name file.path) =
      some file.content := by
    rw [views₁, Views.stored_write, if_pos rfl]
  obtain ⟨parent, last, filePath⟩ := filePaths.isFile file.path member
  have found : disk₁.tree.node (locate (pathIn name file.path)) = some (.file file.content) := by
    rw [viewsOf_stored, filePath.place, if_neg filePath.apart] at stored
    have place : locate (pathIn name file.path) = _ := filePath.place
    rw [place]
    exact DirectoryTree.content_eq_some.mp stored
  have notTemporary : state.isTemporary = false := ready₁.here.stored
  rw [Async.ensures_bind, ensures_sync, getFileContent_of_at ready₁.here, either_ok, readPersisted,
    Async.ensures_bind, Async.ensures_bind, Async.ensures_get, either_ok,
    if_neg (by simp [notTemporary])]
  have reads := @readToString_acts fs .nobody cutOff state.context disk₁ 0 file.path
    (pathIn name file.path) left (leadsTo_at ready₁.here file.path) file.content found
  refine Async.Ensures.bind (reads state rfl) ?_ ?_
  · rintro text _ disk₂ ⟨rfl, left₂, -, tree⟩
    refine fun _ => ⟨left₂, saves, ?_, ?_⟩
    · rw [tree]
      exact ready₁
    · rw [tree]
      exact views₁
  · rintro error _ disk₂ ⟨rfl, ⟨fewer, less, -⟩, -⟩
    omega

theorem applyFiles_writes {files : List PatchFile} (filePaths : FilePaths name paths)
    (ready : Ready name paths self disk.tree) (among : ∀ file ∈ files, file.path ∈ paths)
    (tolerable : disk.Tolerable 0) :
    (files.forM (applyFile browser)).Ensures (Interference.nobody.setting fs cutOff) self disk
      fun result self' disk' => result = .ok () → disk'.Tolerable 0 ∧
        (files ≠ [] ∨ SavesMeta self → SavesMeta self') ∧ Ready name paths self' disk'.tree ∧
        viewsOf name self' disk'.tree = writeFiles name files (viewsOf name self disk.tree) := by
  induction files generalizing self disk with
  | nil => exact fun _ => ⟨tolerable, fun saves => saves.resolve_left (by simp), ready, rfl⟩
  | cons file rest ih =>
      refine Async.Ensures.bind (applyFile_writes filePaths ready (among file List.mem_cons_self)
        tolerable) ?_ fun _ _ _ _ => nofun
      rintro _ state disk₁ holds
      obtain ⟨left, saves, ready₁, views₁⟩ := holds rfl
      refine (ih ready₁ (fun other member => among other (List.mem_cons_of_mem file member))
        left).mono ?_
      rintro result final disk₂ later done
      obtain ⟨left₂, saves₂, ready₂, views₂⟩ := later done
      refine ⟨left₂, fun _ => saves₂ (.inr saves), ready₂, ?_⟩
      rw [views₂, views₁]
      rfl

end Solpg.Client.Learning
