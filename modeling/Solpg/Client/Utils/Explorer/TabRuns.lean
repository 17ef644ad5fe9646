import Solpg.Client.Utils.Explorer.Switching
import Solpg.Client.Utils.Explorer.MemoryFs

/-!
# Runs of the explorer

The calls of the explorer one after another, each to its end. The tabs stay in
order in every run whose calls meet `KeepsTabs`.
-/

namespace Solpg.Client.Utils

open Solpg.Std

/-- The calls that change files, tabs or the workspace. -/
inductive ExplorerCall where
  | openFile (path : Text)
  | closeFile (path : Text)
  | setTabs (tabs : List Text)
  | createItem (path content : Text) (opts : PgExplorer.CreateItemOptions)
  | renameItem (oldPath newPath : Text) (opts : PgExplorer.RenameItemOptions)
  | deleteItem (fuel : Nat) (path : Text)
  | switchWorkspace (fuel : Nat) (name : Text) (defaultOpenFile : Option Text)

namespace PgExplorer

open PgM

variable {fs : LightningFs} {disk : Disk fs} {self : PgExplorer} {browser : Browser}

def program (browser : Browser) : ExplorerCall → PgM Unit
  | .openFile path => change (·.openFile path)
  | .closeFile path => change (·.closeFile path)
  | .setTabs tabs => modify (·.setTabs tabs)
  | .createItem path content opts => createItem browser path content opts
  | .renameItem oldPath newPath opts => renameItem browser oldPath newPath opts
  | .deleteItem fuel path => deleteItem browser fuel path
  | .switchWorkspace fuel name defaultOpenFile => switchWorkspace browser fuel name defaultOpenFile

/-- A call runs to its end, whether it returns or throws. -/
def machine (fs : LightningFs) (browser : Browser) : Machine (PgExplorer × Disk fs) ExplorerCall where
  Initial state := state.1.explorer = getDefaultState
  next state call := ((program browser call).run Disk.serve state.1 state.2).map Prod.snd

/-- The calls get the paths that they are made for: `openFile` and `setTabs` get
paths of files. -/
def OpensFiles (state : PgExplorer × Disk fs) : ExplorerCall → Prop
  | .openFile path => ∀ fullPath, state.1.convertToFullPath path = .ok fullPath →
      (state.1.files.content fullPath).isSome = true
  | .setTabs tabs => ∀ path ∈ tabs, (state.1.files.content path).isSome = true
  | _ => True

/-- When a call keeps the tabs in order. -/
def KeepsTabs (browser : Browser) (state : PgExplorer × Disk fs) : ExplorerCall → Prop
  | .openFile _ => True
  | .closeFile path => ∀ fullPath, state.1.convertToFullPath path = .ok fullPath →
      state.1.bar.strands fullPath = false
  | .setTabs tabs => tabs = [] ∨ ∃ current ∈ tabs, state.1.currentFilePath = some current
  | .createItem path _ opts => ∀ fullPath, state.1.convertToFullPath path = .ok fullPath →
      state.1.checkCreate fullPath opts = .ok () → getItemTypeFromPath fullPath = .folder →
      fullPath ∉ state.1.tabs
  | .renameItem oldPath newPath opts => ∀ oldFull newFull,
      state.1.convertToFullPath oldPath = .ok oldFull →
      state.1.convertToFullPath newPath = .ok newFull →
      state.1.checkRename oldFull newFull opts = .ok () → state.1.RenamesSafely oldFull newFull
  | .deleteItem _ path => ∀ fullPath, state.1.convertToFullPath path = .ok fullPath →
      state.1.checkDelete fullPath = .ok () →
      state.1.bar.closesSafely (gone state.1.files fullPath) = true ∧
        getParentPathFromPath fullPath ∉ state.1.tabs
  | .switchWorkspace _ name defaultOpenFile =>
      SwitchesSafely browser state.1 state.2 name defaultOpenFile

/-! ## Steps -/

theorem storeItem_invariant {fullPath content : Text} {opts : CreateItemOptions}
    (inv : self.TabInvariant)
    (keeps : getItemTypeFromPath fullPath = .folder → fullPath ∉ self.tabs) :
    (storeItem fullPath content opts).Ensures (Interference.nobody.setting fs True) self disk
      fun _ self' _ => self'.TabInvariant := by
  rw [storeItem, Async.ensures_bind, Async.ensures_get, either_ok]
  cases type : getItemTypeFromPath fullPath with
  | file =>
      refine ensures_quiet_bind (quiet_unlessTemporary (quiet_writeFile _ _ _)) inv fun _ disk' => ?_
      exact createdFile_invariant inv content _ opts
  | folder =>
      refine ensures_quiet_bind (quiet_unlessTemporary (quiet_createDir _ _)) inv fun _ disk' => ?_
      rw [Async.ensures_modify, assignFile, if_pos rfl]
      exact assign_invariant inv (.inr (keeps type))

theorem createItem_invariant {path content : Text} {opts : CreateItemOptions}
    (inv : self.TabInvariant)
    (keeps : KeepsTabs browser (self, disk) (.createItem path content opts)) :
    (createItem browser path content opts).Ensures (Interference.nobody.setting fs True) self disk
      fun _ self' _ => self'.TabInvariant := by
  rw [createItem, Async.ensures_bind, ensures_sync]
  cases full : self.convertToFullPath path with
  | error error => exact inv
  | ok fullPath =>
      rw [either_ok, Async.ensures_bind, ensures_sync]
      cases checked : self.checkCreate fullPath opts with
      | error error => exact inv
      | ok _ =>
          rw [either_ok]
          refine (storeItem_invariant inv (keeps fullPath full checked)).bind ?_
            fun _ _ _ failed => failed
          intro _ state disk' stored
          exact ensures_modify_saveMeta (stored.congr rfl fun _ _ => rfl)

theorem deleteItem_invariant {fuel : Nat} {path : Text} (inv : self.TabInvariant)
    (keeps : KeepsTabs browser (self, disk) (.deleteItem fuel path)) :
    (deleteItem browser fuel path).Ensures (Interference.nobody.setting fs True) self disk
      fun _ self' _ => self'.TabInvariant := by
  rw [deleteItem, Async.ensures_bind, ensures_sync]
  cases full : self.convertToFullPath path with
  | error error => exact inv
  | ok fullPath =>
      rw [either_ok, Async.ensures_bind, ensures_sync]
      cases checked : self.checkDelete fullPath with
      | error error => exact inv
      | ok _ =>
          obtain ⟨closes, parent⟩ := keeps fullPath full checked
          rw [either_ok]
          refine ensures_quiet_bind (quiet_unlessTemporary (quiet_removeItem _ _)) inv
            fun _ disk' => ?_
          exact ensures_modify_saveMeta (deletedItem_invariant inv closes parent)

/-- What the checks of `renameItem` have found when they pass. -/
theorem checkRename_ok {oldPath newPath : Text} {opts : RenameItemOptions}
    (checked : self.checkRename oldPath newPath opts = .ok ()) :
    getItemTypeFromPath oldPath = getItemTypeFromPath newPath ∧
      (opts.override = false →
        self.newPathExists (getItemTypeFromPath oldPath) newPath = .ok false) := by
  rw [checkRename] at checked
  split at checked
  · cases checked
  cases src : self.getCurrentSrcPath with
  | error error =>
      rw [src] at checked
      cases checked
  | ok srcPath =>
      simp only [src, Except.bind] at checked
      split at checked
      · cases checked
      split at checked
      · cases checked
      next types =>
        refine ⟨not_not.mp types, fun noOverride => ?_⟩
        rw [if_neg (by simp [noOverride])] at checked
        cases found : self.newPathExists (getItemTypeFromPath oldPath) newPath with
        | error error =>
            rw [found] at checked
            cases checked
        | ok exists_ =>
            cases exists_ with
            | false => rfl
            | true =>
                rw [found] at checked
                cases checked

theorem renameItem_invariant {oldPath newPath : Text} {opts : RenameItemOptions}
    (inv : self.TabInvariant)
    (keeps : KeepsTabs browser (self, disk) (.renameItem oldPath newPath opts)) :
    (renameItem browser oldPath newPath opts).Ensures (Interference.nobody.setting fs True) self disk
      fun _ self' _ => self'.TabInvariant := by
  rw [renameItem, Async.ensures_bind, ensures_sync]
  cases oldFull : self.convertToFullPath oldPath with
  | error error => exact inv
  | ok oldFullPath =>
      rw [either_ok, Async.ensures_bind, ensures_sync]
      cases newFull : self.convertToFullPath newPath with
      | error error => exact inv
      | ok newFullPath =>
          rw [either_ok]
          by_cases same : PgCommon.isPathsEqual newFullPath oldFullPath = true
          · rw [if_pos same]
            exact inv
          rw [if_neg same, Async.ensures_bind, ensures_sync]
          cases checked : self.checkRename oldFullPath newFullPath opts with
          | error error => exact inv
          | ok _ =>
              obtain ⟨types, noOverride⟩ := checkRename_ok checked
              rw [either_ok]
              refine ensures_quiet_bind (quiet_unlessTemporary (quiet_rename _ _)) inv fun _ disk' => ?_
              refine ensures_modify_saveMeta (renamedItem_invariant inv
                (keeps oldFullPath newFullPath oldFull newFull checked) types opts.override ?_)
              intro notSet isFile
              -- Nothing is at the new path, or the check would have failed.
              have missing := noOverride notSet
              have full : self.convertToFullPath newFullPath = .ok newFullPath :=
                if_pos (startsWith_slash_of_convert newFull)
              simp only [isFile, newPathExists, getFile, full, Except.map] at missing
              cases found : self.files.item newFullPath with
              | none => rfl
              | some item => simp [found] at missing

theorem closeFile_invariant {path : Text} (inv : self.TabInvariant)
    (keeps : KeepsTabs browser (self, disk) (.closeFile path)) :
    (change (·.closeFile path)).Ensures (Interference.nobody.setting fs True) self disk
      fun _ self' _ => self'.TabInvariant := by
  rw [ensures_change, closeFile]
  cases full : self.convertToFullPath path with
  | error error => exact inv
  | ok fullPath => exact closeFileAt_invariant inv (keeps fullPath full)

theorem openFile_invariant {path : Text} (inv : self.TabInvariant)
    (opens : OpensFiles (self, disk) (.openFile path)) :
    (change (·.openFile path)).Ensures (Interference.nobody.setting fs True) self disk
      fun _ self' _ => self'.TabInvariant := by
  rw [ensures_change, openFile]
  cases full : self.convertToFullPath path with
  | error error => exact inv
  | ok fullPath => exact openFileAt_invariant inv (opens fullPath full)

theorem program_invariant {call : ExplorerCall} (inv : self.TabInvariant)
    (opens : OpensFiles (self, disk) call) (keeps : KeepsTabs browser (self, disk) call) :
    (program browser call).Ensures (Interference.nobody.setting fs True) self disk
      fun _ self' _ => self'.TabInvariant := by
  cases call with
  | openFile path => exact openFile_invariant inv opens
  | closeFile path => exact closeFile_invariant inv keeps
  | setTabs tabs => exact setTabs_invariant inv opens keeps
  | createItem path content opts => exact createItem_invariant inv keeps
  | renameItem oldPath newPath opts => exact renameItem_invariant inv keeps
  | deleteItem fuel path => exact deleteItem_invariant inv keeps
  | switchWorkspace fuel name defaultOpenFile => exact switchWorkspace_invariant inv keeps

theorem next_invariant {state next : PgExplorer × Disk fs} {call : ExplorerCall}
    (inv : state.1.TabInvariant) (opens : OpensFiles state call)
    (keeps : KeepsTabs browser state call)
    (stepped : (machine fs browser).next state call = some next) : next.1.TabInvariant := by
  obtain ⟨⟨result, self', disk'⟩, ran, rfl⟩ := Option.map_eq_some_iff.mp stepped
  have ensures := program_invariant inv opens keeps
  rw [Interference.nobody_setting] at ensures
  exact ensures.of_run ran

theorem default_invariant {state : PgExplorer} (default_ : state.explorer = getDefaultState) :
    state.TabInvariant := by
  have tabs : state.tabs = [] := by rw [PgExplorer.tabs, default_]; rfl
  have index : state.explorer.currentIndex = none := by rw [default_]; rfl
  refine ⟨⟨⟨?_, ?_⟩, ?_⟩, ?_⟩
  · rw [bar_tabs, tabs]
    exact List.nodup_nil
  · simp [index]
  · simp [tabs, index]
  · simp [tabs]

/-! ## Runs -/

/-- A workspace `w` without files. -/
def emptyWorkspace : PgExplorer × Disk memoryFs where
  fst :=
    { explorer := getDefaultState
      generation := 0
      isTemporary := false
      hasWorkspace := true
      workspaces := ⟨["w".toList], some "w".toList⟩
      initializedWorkspaceName := some "w".toList
      dispatched := [] }
  snd := ⟨MemoryDb.empty.after [.mkdir "/w".toList, .mkdir "/w/src".toList], []⟩

def createFile (path : String) : ExplorerCall := .createItem path.toList [] ⟨false, false, none⟩

/-- In every run of calls that keep the tabs, from the default state of the
explorer, the tabs are distinct files and one of them is current unless there
are none. -/
theorem tabs_in_order {start finish : PgExplorer × Disk fs} {calls : List ExplorerCall}
    (initial : (machine fs browser).Initial start)
    (meets : (machine fs browser).Meets (fun state call =>
      OpensFiles state call ∧ KeepsTabs browser state call) start calls)
    (ran : (machine fs browser).run start calls = some finish) : finish.1.TabInvariant :=
  Machine.run_preserves_of_meets (fun state => state.1.TabInvariant)
    (fun inv both stepped => next_invariant inv both.1 both.2 stepped)
    (default_invariant initial) meets ran

/-- In the empty workspace: two files are created and the second, which is the
current one, is closed. -/
theorem tabs_in_order_closing : ∃ finish,
    (machine memoryFs plainBrowser).run emptyWorkspace
      [createFile "/w/src/a.rs", createFile "/w/src/b.rs", .closeFile "/w/src/b.rs".toList] =
        some finish ∧ finish.1.tabs = ["/w/src/a.rs".toList] ∧ finish.1.TabInvariant := by
  let creating := [createFile "/w/src/a.rs", createFile "/w/src/b.rs"]
  let calls := creating ++ [.closeFile "/w/src/b.rs".toList]
  have shown : ((machine memoryFs plainBrowser).run emptyWorkspace calls).map (·.1.tabs) =
      some ["/w/src/a.rs".toList] := by decide +kernel
  obtain ⟨finish, ran, tabs⟩ := Option.map_eq_some_iff.mp shown
  have isFile : ∀ (state : PgExplorer × Disk memoryFs) (path : String),
      Text.startsWith path.toList slash = true → getItemTypeFromPath path.toList = .file →
      KeepsTabs plainBrowser state (createFile path) := by
    intro state path full type fullPath converted _ folder
    have same : state.1.convertToFullPath path.toList = .ok path.toList := if_pos full
    cases same.symm.trans converted
    rw [type] at folder
    cases folder
  have closes : ∀ state, (machine memoryFs plainBrowser).run emptyWorkspace creating = some state →
      KeepsTabs plainBrowser state (.closeFile "/w/src/b.rs".toList) := by
    intro state reached fullPath converted
    have same : state.1.convertToFullPath "/w/src/b.rs".toList = .ok "/w/src/b.rs".toList := rfl
    cases same.symm.trans converted
    have known : ((machine memoryFs plainBrowser).run emptyWorkspace creating).map
        (fun state => state.1.bar.strands "/w/src/b.rs".toList) = some false := by decide +kernel
    rw [reached] at known
    exact Option.some.inj known
  have initial : (machine memoryFs plainBrowser).Initial emptyWorkspace := rfl
  have meets : (machine memoryFs plainBrowser).Meets (fun state call =>
      OpensFiles state call ∧ KeepsTabs plainBrowser state call) emptyWorkspace calls := by
    refine ⟨⟨trivial, isFile _ _ rfl (by decide)⟩, fun first stepped => ?_⟩
    refine ⟨⟨trivial, isFile _ _ rfl (by decide)⟩, fun second stepped' => ?_⟩
    refine ⟨⟨trivial, closes second ?_⟩, fun _ _ => trivial⟩
    exact Machine.run_cons_eq_some.mpr ⟨first, stepped,
      Machine.run_cons_eq_some.mpr ⟨second, stepped', rfl⟩⟩
  exact ⟨finish, ran, tabs, tabs_in_order initial meets ran⟩

/-- Closing the first of two tabs while the second is the current file leaves a
tab and no current file. -/
theorem not_always_in_order : ¬ ∀ (fs : LightningFs) (browser : Browser)
    (start finish : PgExplorer × Disk fs) (calls : List ExplorerCall),
    (machine fs browser).Initial start → (machine fs browser).Meets OpensFiles start calls →
    (machine fs browser).run start calls = some finish → finish.1.TabInvariant := by
  intro all
  let calls := [createFile "src/a.rs", createFile "src/b.rs", .closeFile "src/a.rs".toList]
  have shown : ((machine memoryFs plainBrowser).run emptyWorkspace calls).map
      (fun state => (state.1.tabs, state.1.explorer.currentIndex)) =
        some (["/w/src/b.rs".toList], none) := by decide +kernel
  obtain ⟨finish, ran, last⟩ := Option.map_eq_some_iff.mp shown
  have meets : (machine memoryFs plainBrowser).Meets OpensFiles emptyWorkspace calls :=
    ⟨trivial, fun _ _ => ⟨trivial, fun _ _ => ⟨trivial, fun _ _ => trivial⟩⟩⟩
  have selection := (all memoryFs plainBrowser emptyWorkspace finish calls rfl meets ran).current
  obtain ⟨tabs, index⟩ := Prod.mk.injEq _ _ _ _ ▸ last
  rw [bar_currentIndex, index, bar_tabs, tabs] at selection
  exact absurd (selection.mpr (by simp)) (by simp)

end PgExplorer
end Solpg.Client.Utils
