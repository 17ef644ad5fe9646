import Solpg.Client.Utils.Explorer.Saving
import Solpg.Client.Utils.Explorer.Workspaces

/-!
# What the methods preserve

A property of the state that a program preserves, whatever the store does and however it ends,
with a rule for each way to make a program. The list of workspaces that a method leaves behind
follows from these rules.
-/

namespace Solpg.Client.Utils

open Solpg.Std PgCommon

namespace PgExplorer

open PgM

variable {α β : Type} {Inv : PgExplorer → Prop} {browser : Browser} {fs : LightningFs}
  {self : PgExplorer} {disk : Disk fs} {fuel : Nat} {name path : Text}

/-- The program keeps the invariant of the explorer, whatever the disk answers. -/
def Preserves (Inv : PgExplorer → Prop) (program : PgM α) : Prop :=
  ∀ (fs : LightningFs) (self : PgExplorer) (disk : Disk fs), Inv self →
    program.Ensures (Interference.nobody.setting fs True) self disk fun _ self' _ => Inv self'

namespace Preserves

/-- A returned value keeps every invariant. -/
theorem pure (value : α) : Preserves Inv (pure value : PgM α) := fun _ _ _ holds => holds

/-- A program without calls keeps every invariant. -/
theorem endless : Preserves Inv (Async.endless : PgM α) := fun _ _ _ _ => trivial

/-- A quiet program changes nothing of the explorer. -/
theorem quiet {program : PgM α} (quiet : Quiet program) : Preserves Inv program := by
  intro fs self disk holds
  refine (quiet fs self.context disk self rfl).mono ?_
  rintro result _ disk' ⟨rfl, -⟩
  exact holds

/-- A synchronous read keeps every invariant. -/
theorem sync (f : PgExplorer → Except JsError α) : Preserves Inv (PgM.sync f) :=
  fun _ _ _ holds => holds

/-- A change that keeps the invariant does. -/
theorem modify {f : PgExplorer → PgExplorer} (kept : ∀ self, Inv self → Inv (f self)) :
    Preserves Inv (modify f : PgM Unit) := fun _ self _ holds => kept self holds

/-- A change that may throw keeps the invariant when its results do. -/
theorem change {f : PgExplorer → Except JsError PgExplorer}
    (kept : ∀ self changed, Inv self → f self = .ok changed → Inv changed) :
    Preserves Inv (PgM.change f) := by
  intro fs self disk holds
  rw [PgM.ensures_change]
  cases changes : f self with
  | ok changed => exact kept self changed holds changes
  | error error => exact holds

/-- Programs that keep the invariant follow one another. -/
theorem bind {first : PgM α} {next : α → PgM β} (preserves : Preserves Inv first)
    (rest : ∀ value, Preserves Inv (next value)) : Preserves Inv (first >>= next) := by
  intro fs self disk holds
  refine (preserves fs self disk holds).bind ?_ ?_
  · exact fun value state disk' holds => rest value fs state disk' holds
  · exact fun _ _ _ holds => holds

/-- The state that is read has the property. -/
theorem get_bind {next : PgExplorer → PgM β}
    (rest : ∀ state, Inv state → Preserves Inv (next state)) :
    Preserves Inv ((get : PgM PgExplorer) >>= next) := by
  intro fs self disk holds
  rw [Async.ensures_bind, Async.ensures_get, either_ok]
  exact rest self holds fs self disk holds

/-- A program and its handler keep the invariant when both do. -/
theorem tryCatch {program : PgM α} {handler : JsError → PgM α} (preserves : Preserves Inv program)
    (caught : ∀ error, Preserves Inv (handler error)) :
    Preserves Inv (tryCatch program handler) := by
  intro fs self disk holds
  rw [Async.ensures_tryCatch]
  refine (preserves fs self disk holds).mono ?_
  rintro (error | value) state disk' holds
  · exact caught error fs state disk' holds
  · exact holds

/-- A loop keeps the invariant when its body does. -/
theorem forM {body : β → PgM Unit} (preserves : ∀ item, Preserves Inv (body item))
    (items : List β) : Preserves Inv (items.forM body) := by
  induction items with
  | nil => exact pure _
  | cons item rest ih => exact (preserves item).bind fun _ => ih

/-- Both branches of a condition keep the invariant. -/
theorem ite {condition : Prop} [Decidable condition] {first second : PgM α}
    (preserves : Preserves Inv first) (other : Preserves Inv second) :
    Preserves Inv (if condition then first else second) := by
  by_cases holds : condition
  · rwa [if_pos holds]
  · rwa [if_neg holds]

end Preserves

/-- `saveWorkspaces` is quiet. -/
theorem quiet_saveWorkspaces (browser : Browser) : Quiet (saveWorkspaces browser) := by
  intro fs context disk self here
  rw [saveWorkspaces, Async.ensures_bind, Async.ensures_get, either_ok]
  exact ((quiet_writeFile _ _ _).ite (quiet_pure _)) fs context disk self here

/-- Writing files is quiet. -/
theorem quiet_writeFiles (files : TupleFiles) : Quiet (writeFiles files) :=
  Quiet.forM (fun _ => quiet_writeFile _ _ _) files

/-- Writing all files of the state is quiet. -/
theorem quiet_writeAllFromState : Quiet writeAllFromState := by
  intro fs context disk self here
  rw [writeAllFromState, Async.ensures_bind, Async.ensures_get, either_ok]
  refine Quiet.forM (fun path => ?_) self.files.keys fs context disk self here
  intro fs context disk self here
  rw [Async.ensures_bind, Async.ensures_get, either_ok]
  refine Quiet.ite ?_ (quiet_pure _) fs context disk self here
  cases getItemTypeFromPath path with
  | file => exact quiet_writeFile _ _ _
  | folder => exact quiet_createDir _ _

/-- Loading the files only sets keys. -/
theorem setupFiles_preserves (fuel : Nat) (path : Text)
    (kept : ∀ self path item, Inv self → Inv (self.setFiles (self.files.set path (some item)))) :
    Preserves Inv (setupFiles fuel path) := by
  induction fuel generalizing path with
  | zero => exact .endless
  | succ fuel ih =>
      rw [setupFiles]
      refine (Preserves.quiet (quiet_readDir path)).bind fun itemNames => ?_
      refine .ite (.modify fun self holds => kept self path _ holds) ?_
      refine (Preserves.sync _).bind fun subItemPaths => .forM (fun subItemPath => ?_) subItemPaths
      refine (Preserves.quiet (quiet_getMetadata _)).bind fun metadata => ?_
      cases metadata with
      | directory => exact ih subItemPath
      | file =>
          refine .tryCatch ?_ fun _ => .pure _
          exact (Preserves.quiet (quiet_readToString _)).bind fun content =>
            .modify fun self holds => kept self subItemPath _ holds

/-! ## The list of workspaces -/

/-- A property of lists of workspaces that is kept when some are dropped, and that the list of
the default workspace has. -/
structure ListProperty (Good : List Text → Prop) : Prop where
  fewer : ∀ {names rest : List Text}, rest.Sublist names → Good names → Good rest
  default : Good ["default".toList]

/-- The list of workspaces has the property. -/
def Lists (Good : List Text → Prop) (self : PgExplorer) : Prop := Good self.workspaces.allNames

variable {Good : List Text → Prop}

/-- The list property depends on the names only. -/
theorem lists_of_workspaces {other : PgExplorer} (lists : Lists Good self)
    (same : other.workspaces.allNames = self.workspaces.allNames) : Lists Good other := by
  rw [Lists, same]
  exact lists

/-- A change that keeps the names keeps the list. -/
theorem modify_lists {f : PgExplorer → PgExplorer}
    (same : ∀ self, (f self).workspaces.allNames = self.workspaces.allNames) :
    Preserves (Lists Good) (modify f : PgM Unit) :=
  .modify fun self lists => lists_of_workspaces lists (same self)

/-- `saveMeta` keeps the list. -/
theorem saveMeta_lists (browser : Browser) : Preserves (Lists Good) (saveMeta browser) :=
  .quiet (quiet_saveMeta browser)

/-- Loading the metadata keeps the list. -/
theorem loadMetadata_lists (browser : Browser) : Preserves (Lists Good) (loadMetadata browser) := by
  refine Preserves.bind ?_ fun metaFile => (Preserves.sync _).bind fun entries => ?_
  · refine .tryCatch ?_ fun _ => .pure _
    exact (Preserves.quiet (quiet_readToString _)).bind fun _ => .pure _
  · exact modify_lists fun _ => rfl

/-- Choosing a workspace lists no other one. -/
theorem setCurrentName_allNames (name : Text) (workspaces : Workspaces) :
    (setCurrentName name workspaces).allNames = workspaces.allNames := by
  rw [setCurrentName]
  split <;> rfl

/-- Switching to the last workspace keeps the list. -/
theorem switchToLast_lists (property : ListProperty Good) (workspaceDirs : List Text)
    (lists : Lists Good self) : Lists Good (switchToLast workspaceDirs self) := by
  rw [switchToLast]
  split
  · exact lists
  · rw [Lists]
    simp only [setCurrentName_allNames]
    exact property.fewer List.filter_sublist lists

/-- The explorer of `localStorage` becomes the only workspace. -/
theorem setupDefaultFs_lists (property : ListProperty Good) (workspacePath : Text)
    (lsFiles : ExplorerFiles) (none_ : self.workspaces.allNames = []) :
    (setupDefaultFs browser workspacePath lsFiles).Ensures (Interference.nobody.setting fs True) self
      disk fun _ self' _ => Lists Good self' := by
  rw [setupDefaultFs, Async.ensures_bind, Async.ensures_get, either_ok, none_,
    if_neg List.not_mem_nil, Async.ensures_bind, Async.ensures_set, either_ok]
  have rest : Preserves (Lists Good) (do
      saveWorkspaces browser
      modify fun self =>
        { self with
          generation := self.generation + 1
          explorer := { self.explorer with
            files := OrderedMap.forIn id (fun path files =>
              (files.erase path).set (path.replace slash workspacePath)
                (some ⟨files.content path, some ⟨none⟩⟩)) lsFiles } }
      writeAllFromState
      saveMeta browser : PgM Unit) :=
    Preserves.bind (.quiet (quiet_saveWorkspaces browser)) fun _ =>
      Preserves.bind (modify_lists fun _ => rfl) fun _ =>
        Preserves.bind (.quiet quiet_writeAllFromState) fun _ => saveMeta_lists browser
  exact rest fs _ disk property.default

/-- Entering the current workspace keeps the list. -/
theorem initCurrentWorkspace_lists (property : ListProperty Good) (browser : Browser)
    (fuel : Nat) : Preserves (Lists Good) (initCurrentWorkspace browser fuel) := by
  induction fuel with
  | zero => exact .endless
  | succ fuel ih =>
      rw [initCurrentWorkspace]
      refine (Preserves.sync _).bind fun workspacePath => ?_
      refine Preserves.bind (modify_lists fun _ => rfl) fun _ => ?_
      refine Preserves.bind ?_ fun failed => ?_
      · refine .tryCatch ?_ fun _ => .pure _
        exact (setupFiles_preserves _ _ fun self _ _ lists => lists_of_workspaces lists rfl).bind
          fun _ => .pure _
      · intro fs self disk lists
        rw [Async.ensures_bind, Async.ensures_get, either_ok]
        split
        · have again : Preserves (Lists Good) (do
              let rootDirs ← PgFs.readDir slash
              modify (switchToLast (rootDirs.filter isItemNameValid))
              saveWorkspaces browser
              initCurrentWorkspace browser fuel : PgM Unit) :=
            Preserves.bind (.quiet (quiet_readDir _)) fun rootDirs =>
              Preserves.bind (.modify fun self lists => switchToLast_lists property _ lists) fun _ =>
                Preserves.bind (.quiet (quiet_saveWorkspaces browser)) fun _ => ih
          exact again fs self disk lists
        · split
          · next empty =>
            have none_ : self.workspaces.allNames = [] := by
              simp only [Bool.and_eq_true, List.isEmpty_iff] at empty
              exact empty.2
            split
            · refine (setupDefaultFs_lists property workspacePath _ none_).bind ?_ ?_
              · exact fun _ state disk' lists => loadMetadata_lists browser fs state disk' lists
              · exact fun _ _ _ lists => lists
            · exact lists
          · exact loadMetadata_lists browser fs self disk lists

/-- Setting the workspace's name keeps the list. -/
theorem setWorkspaceName_lists {changed : PgExplorer} (lists : Lists Good self)
    (changes : self.setWorkspaceName name = .ok changed) : Lists Good changed := by
  rw [setWorkspaceName] at changes
  split at changes
  · cases changes
    exact lists_of_workspaces lists (setCurrentName_allNames _ _)
  · cases changes

/-- Opening a file keeps the list. -/
theorem openFile_lists {changed : PgExplorer} (lists : Lists Good self)
    (changes : self.openFile path = .ok changed) : Lists Good changed := by
  rw [openFile] at changes
  cases full : self.convertToFullPath path with
  | error error =>
      rw [full] at changes
      cases changes
  | ok fullPath =>
      rw [full] at changes
      cases changes
      have context := congrArg Context.workspaces (openFileAt_context self fullPath)
      exact lists_of_workspaces lists (congrArg Workspaces.allNames context)

/-- `switchWorkspace` keeps the list. -/
theorem switchWorkspace_lists (property : ListProperty Good) (browser : Browser) (fuel : Nat)
    (name : Text) (defaultOpenFile : Option Text) :
    Preserves (Lists Good) (switchWorkspace browser fuel name defaultOpenFile) := by
  rw [switchWorkspace]
  refine (saveMeta_lists browser).bind fun _ => ?_
  refine (Preserves.change fun _ _ lists => setWorkspaceName_lists lists).bind fun _ => ?_
  refine (Preserves.quiet (quiet_saveWorkspaces browser)).bind fun _ => ?_
  refine (initCurrentWorkspace_lists property browser fuel).bind fun _ => ?_
  have finish : Preserves (Lists Good) (modify fun self =>
      { self with initializedWorkspaceName := some name }.dispatch .switchWorkspace : PgM Unit) :=
    modify_lists fun _ => rfl
  cases defaultOpenFile.filter fun path => !path.isEmpty with
  | none => exact Preserves.bind (modify_lists fun _ => rfl) fun _ => finish
  | some path =>
      refine (Preserves.change fun _ _ lists => openFile_lists lists).bind fun _ => ?_
      exact (saveMeta_lists browser).bind fun _ => finish

/-! ## Items and deletion -/

/-- Deleting an item changes neither the mode nor the workspaces. -/
theorem deleteItem_preserves (browser : Browser) (fuel : Nat) (path : Text)
    (kept : ∀ self other : PgExplorer, other.context = self.context → Inv self → Inv other) :
    Preserves Inv (deleteItem browser fuel path) := by
  refine (Preserves.sync _).bind fun fullPath => (Preserves.sync _).bind fun _ => ?_
  refine (Preserves.quiet (quiet_unlessTemporary (quiet_removeItem _ _))).bind fun _ => ?_
  refine Preserves.bind (.modify fun self holds => ?_) fun _ => .quiet (quiet_saveMeta browser)
  exact kept self _ (deletedItem_context fullPath self) holds

/-- `renameItem` keeps what depends on the context only. -/
theorem renameItem_preserves (browser : Browser) (oldPath newPath : Text) (opts : RenameItemOptions)
    (kept : ∀ self other : PgExplorer, other.context = self.context → Inv self → Inv other) :
    Preserves Inv (renameItem browser oldPath newPath opts) := by
  refine (Preserves.sync _).bind fun oldFull => (Preserves.sync _).bind fun newFull => ?_
  refine .ite (.pure _) ((Preserves.sync _).bind fun _ => ?_)
  refine (Preserves.quiet (quiet_unlessTemporary (quiet_rename _ _))).bind fun _ => ?_
  refine Preserves.bind (.modify fun self holds => ?_) fun _ => .quiet (quiet_saveMeta browser)
  exact kept self _ (renamedItem_context oldFull newFull _ self) holds

/-- The list property depends on the context only. -/
theorem lists_of_context {other : PgExplorer} (same : other.context = self.context)
    (lists : Lists Good self) : Lists Good other :=
  lists_of_workspaces lists (congrArg (fun context => context.workspaces.allNames) same)

/-- A workspace is taken out of the list. -/
theorem deleteWorkspace_lists (property : ListProperty Good) (browser : Browser) (fuel : Nat) :
    Preserves (Lists Good) (deleteWorkspace browser fuel) := by
  refine (Preserves.sync _).bind fun workspacePath => .get_bind fun self _ => ?_
  have deleted := deleteItem_preserves browser fuel workspacePath
    fun _ _ same (lists : Lists Good _) => lists_of_context same lists
  refine deleted.bind fun _ => Preserves.bind (.modify fun _ lists => ?_) fun _ =>
    .get_bind fun self lists => ?_
  · exact property.fewer List.filter_sublist lists
  · cases self.workspaces.allNames.getLast? with
    | some lastWorkspace => exact switchWorkspace_lists property browser fuel lastWorkspace none
    | none =>
        refine Preserves.bind (.modify fun _ lists => ?_) fun _ =>
          Preserves.bind (.quiet (quiet_saveWorkspaces browser)) fun _ => modify_lists fun _ => rfl
        exact property.fewer (List.nil_sublist _) lists

end PgExplorer
end Solpg.Client.Utils
