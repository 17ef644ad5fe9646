import Solpg.Client.Utils.Explorer.Explorer
import Solpg.Client.Utils.Explorer.Tabs

/-!
# What the methods do to the state

One lemma for each field of the state and each of the changes that
`createItem`, `deleteItem` and `renameItem` make after the file system has
answered.
-/

namespace Solpg.Client.Utils

open Solpg.Std

namespace TabBar

/-- The tabs after `openFile`. -/
def open_ (bar : TabBar) (path : Text) : TabBar :=
  ⟨PgExplorer.openedTabs bar.tabs path, (PgExplorer.openedTabs bar.tabs path).idxOf? path⟩

/-- The path in the current tab. -/
def currentPath (bar : TabBar) : Option Text := bar.currentIndex.bind (bar.tabs[·]?)

/-- The tabs after the last one is opened. -/
def openLast (bar : TabBar) : TabBar :=
  match bar.tabs.getLast? with
  | some lastTabPath => bar.open_ lastTabPath
  | none => bar

/-- Whether the current file is deleted with the path. -/
def deletesCurrent (bar : TabBar) (fullPath : Text) : Bool :=
  bar.currentPath.any fun path => path.startsWith fullPath

/-- The tabs after `closeFile` of one path after the other. -/
def closeAll (bar : TabBar) (paths : List Text) : TabBar := paths.foldl close bar

variable {bar : TabBar}

@[simp] theorem closeAll_nil (bar : TabBar) : bar.closeAll [] = bar := rfl

/-- Closing two lists of paths closes one and then the other. -/
theorem closeAll_append (bar : TabBar) (first second : List Text) :
    bar.closeAll (first ++ second) = (bar.closeAll first).closeAll second := List.foldl_append

/-- Closing several paths keeps the bar valid. -/
theorem Valid.closeAll (valid : bar.Valid) (paths : List Text) : (bar.closeAll paths).Valid := by
  induction paths generalizing bar with
  | nil => exact valid
  | cons path rest ih => exact ih (valid.close path)

/-- Opening the last tab keeps the tabs. -/
@[simp] theorem openLast_tabs (bar : TabBar) : bar.openLast.tabs = bar.tabs := by
  rw [openLast]
  cases last : bar.tabs.getLast? with
  | none => rfl
  | some path => exact PgExplorer.openedTabs_of_mem (List.mem_of_getLast? last)

/-- Closing the paths, each once, takes away no other tab: while there is a
current file each path is an open tab, or else the last tab, which is closed in
its place, has its turn later; then no path that is left is an open tab. -/
def closesOnly : TabBar → List Text → Bool
  | _, [] => true
  | bar, path :: rest =>
      if bar.currentIndex.isSome then
        (decide (path ∈ bar.tabs) || bar.tabs.getLast?.any (· ∈ rest)) &&
          (bar.close path).closesOnly rest
      else (path :: rest).all (· ∉ bar.tabs)

/-- Without a current tab nothing is closed. -/
theorem closeAll_of_none (nothing : bar.currentIndex = none) (paths : List Text) :
    bar.closeAll paths = bar := by
  induction paths with
  | nil => rfl
  | cons path rest ih =>
      have same : bar.close path = bar := by simp only [close, nothing]
      rw [closeAll, List.foldl_cons, same]
      exact ih

/-- Closing paths opens no tab. -/
theorem closeAll_sublist (bar : TabBar) (paths : List Text) :
    (bar.closeAll paths).tabs.Sublist bar.tabs := by
  induction paths generalizing bar with
  | nil => exact List.Sublist.refl _
  | cons path rest ih => exact (ih (bar.close path)).trans (bar.close_sublist path)

/-- A close with a current tab splices one tab out. -/
theorem close_tabs (current : bar.currentIndex.isSome = true) (path : Text) :
    (bar.close path).tabs = PgExplorer.spliceTab bar.tabs path := by
  obtain ⟨index, here⟩ := Option.isSome_iff_exists.mp current
  simp only [close, here]

/-- A valid bar with a current tab has tabs. -/
theorem Valid.tabs_ne_nil (valid : bar.Valid) (current : bar.currentIndex.isSome = true) :
    bar.tabs ≠ [] := by
  obtain ⟨index, here⟩ := Option.isSome_iff_exists.mp current
  have inside := valid.valid index here
  rintro empty
  simp [empty] at inside

/-- The closings leave exactly the tabs that are not among the paths. -/
theorem closeAll_tabs_iff {paths : List Text} (valid : bar.Valid) (distinct : paths.Nodup) :
    (bar.closeAll paths).tabs = bar.tabs.filter (· ∉ paths) ↔ bar.closesOnly paths = true := by
  induction paths generalizing bar with
  | nil => simp [closesOnly]
  | cons path rest ih =>
      obtain ⟨notLater, distinctRest⟩ := List.nodup_cons.mp distinct
      have later := ih (valid.close path) distinctRest
      rw [closesOnly]
      cases current : bar.currentIndex.isSome with
      | false =>
          have nothing : bar.currentIndex = none := by simpa using current
          rw [closeAll_of_none nothing, if_neg (by simp), eq_comm, List.filter_eq_self,
            List.all_eq_true]
          simp only [decide_eq_true_eq]
          exact ⟨fun all path member tab => all path tab member,
            fun all tab tabs member => all tab member tabs⟩
      | true =>
          have closed : bar.closeAll (path :: rest) = (bar.close path).closeAll rest := rfl
          have tabs := close_tabs current path
          rw [if_pos rfl, closed, Bool.and_eq_true, ← later]
          by_cases isTab : path ∈ bar.tabs
          · have others : bar.tabs.filter (· ∉ path :: rest) =
                (bar.close path).tabs.filter (· ∉ rest) := by
              rw [tabs, PgExplorer.spliceTab_of_mem isTab, valid.distinct.erase_eq_filter,
                List.filter_filter]
              refine List.filter_congr fun tab _ => ?_
              by_cases here : tab = path <;> simp [here]
            rw [others]
            simp only [isTab, decide_true, Bool.true_or, true_and]
          · obtain ⟨front, last, whole⟩ :=
              (List.eq_nil_or_concat' bar.tabs).resolve_left (valid.tabs_ne_nil current)
            have spliced : (bar.close path).tabs = front := by
              rw [tabs, PgExplorer.spliceTab_of_not_mem isTab, whole, List.dropLast_concat]
            have notFront : last ∉ front := by
              have apart := valid.distinct
              rw [whole, List.nodup_append] at apart
              exact fun member => apart.2.2 last member last (by simp) rfl
            have others : bar.tabs.filter (· ∉ path :: rest) = bar.tabs.filter (· ∉ rest) := by
              refine List.filter_congr fun tab member => ?_
              have different : tab ≠ path := fun same => isTab (same ▸ member)
              simp [different]
            by_cases dropped : last ∈ rest
            · have kept : bar.tabs.filter (· ∉ rest) = front.filter (· ∉ rest) := by
                rw [whole, List.filter_append]
                simp [dropped]
              have closes : bar.tabs.getLast?.any (· ∈ rest) = true := by simp [whole, dropped]
              rw [others, kept, spliced, closes]
              simp only [Bool.or_true, true_and]
            · -- The last tab is closed for the path, though it is none of the paths.
              have lost : ((bar.close path).closeAll rest).tabs ≠ bar.tabs.filter (· ∉ path :: rest) := by
                intro same
                have member : last ∈ bar.tabs.filter (· ∉ rest) :=
                  List.mem_filter.mpr ⟨by simp [whole], by simpa using dropped⟩
                rw [← others, ← same] at member
                have inFront := ((bar.close path).closeAll_sublist rest).subset member
                rw [spliced] at inFront
                exact notFront inFront
              have keeps : bar.tabs.getLast?.any (· ∈ rest) = false := by simp [whole, dropped]
              simp only [lost, isTab, keeps, decide_false, Bool.or_self, Bool.false_eq_true,
                false_and]

end TabBar

namespace PgExplorer

variable {self : PgExplorer} {path fullPath : Text}

@[simp] theorem bar_currentPath (self : PgExplorer) : self.bar.currentPath = self.currentFilePath := rfl

@[simp] theorem dispatch_context (self : PgExplorer) (event : ExplorerEvent) :
    (self.dispatch event).context = self.context := rfl

@[simp] theorem setFiles_context (self : PgExplorer) (files : ExplorerFiles) :
    (self.setFiles files).context = self.context := rfl

@[simp] theorem setTabs_context (self : PgExplorer) (tabs : List Text) :
    (self.setTabs tabs).context = self.context := rfl

/-- Opening a file keeps the context. -/
@[simp] theorem openFileAt_context (self : PgExplorer) (path : Text) :
    (self.openFileAt path).context = self.context := by
  rw [openFileAt]
  split <;> rfl

/-- Closing a file keeps the context. -/
@[simp] theorem closeFileAt_context (self : PgExplorer) (path : Text) :
    (self.closeFileAt path).context = self.context := by
  have opened : (self.openNextTab path).context = self.context := by
    rw [openNextTab]
    split
    · simp only []
      split <;> simp
    · rfl
  rw [closeFileAt, dispatch_context, removeTab]
  split
  · exact opened
  · exact opened

/-! ## `createItem` -/

/-- The part of `createdFile` after the assignment. -/
theorem createdFile_files (opts : CreateItemOptions) (content : Text) (previous : Option Text) :
    (self.createdFile self.generation fullPath content previous opts).files =
      self.files.set fullPath (some
        ⟨some content, some (((self.files.item fullPath).bind ItemInfo.meta_).getD ⟨none⟩)⟩) := by
  simp only [createdFile, assignFile, if_true]
  split_ifs <;> simp

/-- A new file keeps the context. -/
@[simp] theorem createdFile_context (generation : Nat) (opts : CreateItemOptions) (content : Text)
    (previous : Option Text) (self : PgExplorer) :
    (self.createdFile generation fullPath content previous opts).context = self.context := by
  simp only [createdFile, assignFile]
  split_ifs <;> simp

/-! ## `deleteItem` -/

/-- The keys that `deleteItem` deletes, in the order of its loop. -/
def gone (files : ExplorerFiles) (fullPath : Text) : List Text :=
  files.keys.filter fun path => path.startsWith fullPath

/-- After some turns of the loop the keys among them that start with the path are
gone. -/
def Passed (fullPath : Text) (before : PgExplorer) (passed : List Text) (state : PgExplorer) : Prop :=
  (∀ key, state.files.get key =
    if key ∈ passed ∧ key.startsWith fullPath then none else before.files.get key) ∧
  state.context = before.context

/-- A key has its turn while it is there. -/
theorem Passed.has {passed rest : List Text} {key : Text} {state : PgExplorer}
    (holds : Passed fullPath self passed state) (split : self.files.keys = passed ++ key :: rest) :
    state.files.has key = true := by
  have present : key ∈ self.files.keys := by simp [split]
  have first : key ∉ passed := by
    have distinct := self.files.nodup_keys
    rw [split] at distinct
    exact fun again => (List.nodup_append.mp distinct).2.2 key again key (by simp) rfl
  rw [OrderedMap.has_iff, OrderedMap.mem_keys_iff, holds.1, if_neg (fun both => first both.1)]
  exact OrderedMap.mem_keys_iff.mp present

/-- One turn of the loop of `deleteItem` passes its key. -/
theorem Passed.turn {passed : List Text} {key : Text} {state : PgExplorer}
    (holds : Passed fullPath self passed state) :
    Passed fullPath self (passed ++ [key]) (deleteTurn fullPath key state) := by
  obtain ⟨held, context⟩ := holds
  rw [deleteTurn]
  by_cases below : key.startsWith fullPath
  · rw [if_pos below]
    refine ⟨fun other => ?_, by simpa using context⟩
    rw [closeFileAt_files, setFiles_files, OrderedMap.get_erase, held]
    by_cases same : other = key
    · simp [same, below]
    · simp [same]
  · rw [if_neg below]
    refine ⟨fun other => ?_, context⟩
    rw [held]
    by_cases same : other = key
    · simp [same, below]
    · simp [same]

/-- The loop of `deleteItem` passes every key. -/
theorem deleteLoop_passed (fullPath : Text) (self : PgExplorer) :
    Passed fullPath self self.files.keys (OrderedMap.forIn files (deleteTurn fullPath) self) := by
  apply OrderedMap.forIn_induction (Passed fullPath self)
  · exact ⟨fun key => by simp, rfl⟩
  · rintro passed key rest state split holds
    rw [if_pos (holds.has split)]
    exact holds.turn

/-- The loop of `deleteItem` closes the tabs of what is gone. -/
theorem deleteLoop_bar (valid : self.bar.Valid) (fullPath : Text) :
    (OrderedMap.forIn files (deleteTurn fullPath) self).bar =
      self.bar.closeAll (gone self.files fullPath) := by
  let Inv (passed : List Text) (state : PgExplorer) : Prop := Passed fullPath self passed state ∧
    state.bar = self.bar.closeAll (passed.filter fun path => path.startsWith fullPath)
  have loop : Inv self.files.keys (OrderedMap.forIn files (deleteTurn fullPath) self) := by
    apply OrderedMap.forIn_induction Inv
    · exact ⟨⟨fun key => by simp, rfl⟩, rfl⟩
    · rintro passed key rest state split ⟨holds, bar⟩
      rw [if_pos (holds.has split)]
      refine ⟨holds.turn, ?_⟩
      rw [deleteTurn]
      by_cases below : key.startsWith fullPath
      · have single : [key].filter (fun path => path.startsWith fullPath) = [key] := by
          simp [below]
        have validNow : (state.setFiles (state.files.erase key)).bar.Valid := by
          rw [setFiles_bar, bar]
          exact valid.closeAll _
        rw [if_pos below, closeFileAt_bar validNow, setFiles_bar, bar, List.filter_append, single,
          TabBar.closeAll_append]
        rfl
      · rw [if_neg below]
        simp [bar, below]
  exact loop.2

/-- A path starts with itself. -/
theorem startsWith_refl (path : Text) : path.startsWith path = true :=
  List.isPrefixOf_iff_prefix.mpr List.prefix_rfl

/-- Opening the last tab selects it in the bar. -/
theorem openLastTab_bar (valid : self.bar.Valid) : self.openLastTab.bar = self.bar.openLast := by
  rw [openLastTab, TabBar.openLast, bar_tabs]
  cases self.tabs.getLast? with
  | some lastTabPath => exact openFileAt_bar valid.distinct
  | none => rfl

@[simp] theorem openLastTab_files (self : PgExplorer) : self.openLastTab.files = self.files := by
  rw [openLastTab]
  split <;> simp

@[simp] theorem openLastTab_context (self : PgExplorer) : self.openLastTab.context = self.context := by
  rw [openLastTab]
  split <;> simp

/-- `deleteItem` in the state is its loop, the parent folder and the last tab. -/
theorem deletedItem_eq (fullPath : Text) (self : PgExplorer) : self.deletedItem fullPath =
    let deleted := OrderedMap.forIn files (deleteTurn fullPath) self
    let deleted := deleted.setFiles (deleted.files.addFolder (getParentPathFromPath fullPath))
    (if self.bar.deletesCurrent fullPath then deleted.openLastTab else deleted).dispatch
      (.deleteItem fullPath) := by
  have current : (self.currentFilePath = some fullPath ∨
      (self.currentFilePath.any fun path => path.startsWith fullPath) = true) ↔
        self.bar.deletesCurrent fullPath = true := by
    constructor
    · rintro (here | parent)
      · simp [TabBar.deletesCurrent, here, startsWith_refl]
      · exact parent
    · exact .inr
  simp only [deletedItem, current]

/-- What is stored under a key after `deleteItem`. -/
theorem deletedItem_get (fullPath : Text) (self : PgExplorer) (key : Text) :
    (self.deletedItem fullPath).files.get key =
      if key = getParentPathFromPath fullPath then some (some ExplorerFiles.folder)
      else if key.startsWith fullPath then none else self.files.get key := by
  obtain ⟨held, -⟩ := deleteLoop_passed fullPath self
  rw [deletedItem_eq]
  generalize OrderedMap.forIn files (deleteTurn fullPath) self = after at held
  have files : ((if self.bar.deletesCurrent fullPath then
      (after.setFiles (after.files.addFolder (getParentPathFromPath fullPath))).openLastTab
      else after.setFiles (after.files.addFolder (getParentPathFromPath fullPath))).dispatch
        (.deleteItem fullPath)).files =
      after.files.addFolder (getParentPathFromPath fullPath) := by
    split <;> simp
  change ((if self.bar.deletesCurrent fullPath then _ else _ : PgExplorer).dispatch _).files.get key = _
  rw [files, ExplorerFiles.addFolder, OrderedMap.get_set, held]
  by_cases present : key ∈ self.files.keys
  · simp [present]
  · simp [present, OrderedMap.get_eq_none.mpr present]

/-- A deleted item keeps the context. -/
@[simp] theorem deletedItem_context (fullPath : Text) (self : PgExplorer) :
    (self.deletedItem fullPath).context = self.context := by
  obtain ⟨-, context⟩ := deleteLoop_passed fullPath self
  rw [deletedItem_eq, dispatch_context]
  split <;> simpa using context

/-- What `deleteItem` does to the tabs: it closes each path that it deletes, then
opens the last tab. -/
theorem deletedItem_bar (valid : self.bar.Valid) (fullPath : Text) :
    (self.deletedItem fullPath).bar =
      if self.bar.deletesCurrent fullPath then
        (self.bar.closeAll (gone self.files fullPath)).openLast
      else self.bar.closeAll (gone self.files fullPath) := by
  have bar := deleteLoop_bar valid fullPath
  rw [deletedItem_eq]
  generalize OrderedMap.forIn files (deleteTurn fullPath) self = after at bar
  have validNow : (after.setFiles
      (after.files.addFolder (getParentPathFromPath fullPath))).bar.Valid := by
    rw [setFiles_bar, bar]
    exact valid.closeAll _
  rw [dispatch_bar]
  split
  · rw [openLastTab_bar validNow, setFiles_bar, bar]
  · rw [setFiles_bar, bar]

/-- It deletes by prefix and shows the parent folder. -/
theorem deletedItem_content (fullPath : Text) (self : PgExplorer) (key : Text) :
    (self.deletedItem fullPath).files.content key =
      if key = getParentPathFromPath fullPath ∨ key.startsWith fullPath then none
      else self.files.content key := by
  rw [ExplorerFiles.content, ExplorerFiles.item, deletedItem_get, ExplorerFiles.content,
    ExplorerFiles.item]
  by_cases parent : key = getParentPathFromPath fullPath
  · simp [parent, ExplorerFiles.folder]
  · by_cases below : key.startsWith fullPath <;> simp [parent, below]

/-! ## `renameItem` -/

/-- A path under its new name. -/
def renamed (oldPath newPath path : Text) : Text := if path = oldPath then newPath else path

/-- Replacing the tab under its index renames it. -/
theorem set_idxOf? {tabs : List Text} (distinct : tabs.Nodup) (oldPath newPath : Text) :
    (match tabs.idxOf? oldPath with
      | some tabIndex => tabs.set tabIndex newPath
      | none => tabs) = tabs.map (renamed oldPath newPath) := by
  induction tabs with
  | nil => rfl
  | cons tab rest ih =>
      obtain ⟨absent, restDistinct⟩ := List.nodup_cons.mp distinct
      by_cases here : tab = oldPath
      · subst here
        have others : rest.map (renamed tab newPath) = rest := by
          refine (List.map_congr_left fun path member => ?_).trans (List.map_id rest)
          exact if_neg fun same : path = tab => absent (same ▸ member)
        simp [List.idxOf?_cons, renamed, others]
      · have later := ih restDistinct
        cases found : rest.idxOf? oldPath with
        | none =>
            rw [found] at later
            simp [List.idxOf?_cons, here, found, renamed, ← later]
        | some index =>
            rw [found] at later
            simp [List.idxOf?_cons, here, found, renamed, ← later]

/-- Renaming one path moves its item. -/
theorem renamePath_files (oldPath newPath : Text) (self : PgExplorer) :
    (self.renamePath oldPath newPath).files =
      (self.files.erase oldPath).set newPath (self.files.item oldPath) := by
  simp only [renamePath]
  split
  · split <;> rfl
  · rfl

/-- Renaming one path renames the tab of a file. -/
theorem renamePath_bar (distinct : self.tabs.Nodup) (oldPath newPath : Text) :
    (self.renamePath oldPath newPath).bar =
      if getItemTypeFromPath newPath = .file then
        ⟨self.tabs.map (renamed oldPath newPath), self.explorer.currentIndex⟩
      else self.bar := by
  rw [← set_idxOf? distinct]
  simp only [renamePath, setFiles_tabs]
  split
  · cases self.tabs.idxOf? oldPath <;> rfl
  · rfl

/-- A renamed path keeps the context. -/
@[simp] theorem renamePath_context (oldPath newPath : Text) (self : PgExplorer) :
    (self.renamePath oldPath newPath).context = self.context := by
  simp only [renamePath]
  split
  · split <;> rfl
  · rfl

/-- A renamed item keeps the context. -/
@[simp] theorem renamedItem_context (oldPath newPath : Text) (override : Bool)
    (self : PgExplorer) : (self.renamedItem oldPath newPath override).context = self.context := by
  have inState : (self.renameInState oldPath newPath).context = self.context := by
    rw [renameInState]
    split
    · rw [setFiles_context, renamePath_context]
    · refine OrderedMap.forIn_induction
        (fun _ (state : PgExplorer) => state.context = self.context) rfl ?_
      intro passed key rest state _ same
      split
      · rw [renameTurn]
        split
        · rw [renamePath_context, same]
        · exact same
      · exact same
  rw [renamedItem]
  cases override with
  | false => exact inState
  | true => exact inState

/-- The keys that a rename of a folder moves, in the order of its loop, get
paths that are new. -/
structure MovesFreely (files : ExplorerFiles) (oldPath newPath : Text) : Prop where
  distinct : ((gone files oldPath).map (childPath oldPath newPath)).Nodup
  fresh : ∀ path ∈ gone files oldPath, childPath oldPath newPath path ∉ files.keys

/-- The key that is moved to a path. -/
def movedTo (paths : List Text) (oldPath newPath key : Text) : Option Text :=
  paths.find? fun path => childPath oldPath newPath path = key

/-- A key of two lists of moved paths is the target of one of them. -/
theorem movedTo_append (first second : List Text) (oldPath newPath key : Text) :
    movedTo (first ++ second) oldPath newPath key =
      (movedTo first oldPath newPath key).or (movedTo second oldPath newPath key) :=
  List.find?_append

/-- A target comes from a moved path. -/
theorem movedTo_eq_some {paths : List Text} {oldPath newPath key path : Text}
    (found : movedTo paths oldPath newPath key = some path) :
    path ∈ paths ∧ childPath oldPath newPath path = key :=
  ⟨List.mem_of_find?_eq_some found, by simpa using List.find?_some found⟩

/-- The tabs after the given paths are moved: a path that is no path of a file
keeps its name among the tabs. -/
def movedTab (oldPath newPath : Text) (paths : List Text) (tab : Text) : Text :=
  if tab ∈ paths ∧ getItemTypeFromPath (childPath oldPath newPath tab) = .file then
    childPath oldPath newPath tab
  else tab

variable {oldPath newPath : Text}

/-- A free move has no target among the keys that stay. -/
theorem MovesFreely.movedTo_eq_none {files : ExplorerFiles} {paths : List Text} {key : Text}
    (free : MovesFreely files oldPath newPath) (moved : ∀ path ∈ paths, path ∈ gone files oldPath)
    (present : key ∈ files.keys) : movedTo paths oldPath newPath key = none := by
  rw [movedTo, List.find?_eq_none]
  intro path member same
  refine free.fresh path (moved path member) ?_
  rwa [of_decide_eq_true same]

/-- No two keys are moved to one path. -/
theorem MovesFreely.injective {files : ExplorerFiles} (free : MovesFreely files oldPath newPath)
    {first second : Text} (memberFirst : first ∈ gone files oldPath)
    (memberSecond : second ∈ gone files oldPath)
    (same : childPath oldPath newPath first = childPath oldPath newPath second) : first = second :=
  List.inj_on_of_nodup_map free.distinct memberFirst memberSecond same

/-- Renaming a tab to a fresh path keeps the tabs distinct. -/
theorem nodup_map_renamed {tabs : List Text} (distinct : tabs.Nodup) (fresh : newPath ∉ tabs) :
    (tabs.map (renamed oldPath newPath)).Nodup := by
  refine (List.nodup_map_iff_inj_on distinct).mpr fun first memberFirst second memberSecond same => ?_
  simp only [renamed] at same
  split_ifs at same with isFirst isSecond isSecond
  · rw [isFirst, isSecond]
  · exact absurd (same ▸ memberSecond) fresh
  · exact absurd (same ▸ memberFirst) fresh
  · exact same

/-- The tabs once more key is moved. -/
theorem map_movedTab_append {files : ExplorerFiles} (free : MovesFreely files oldPath newPath)
    {paths tabs : List Text} {key : Text} (moved : ∀ path ∈ paths, path ∈ gone files oldPath)
    (present : key ∈ files.keys) (first : key ∉ paths) :
    tabs.map (movedTab oldPath newPath (paths ++ [key])) =
      if getItemTypeFromPath (childPath oldPath newPath key) = .file then
        (tabs.map (movedTab oldPath newPath paths)).map
          (renamed key (childPath oldPath newPath key))
      else tabs.map (movedTab oldPath newPath paths) := by
  by_cases isFile : getItemTypeFromPath (childPath oldPath newPath key) = .file
  · rw [if_pos isFile, List.map_map]
    refine List.map_congr_left fun tab _ => ?_
    by_cases here : tab = key
    · subst here
      simp [movedTab, renamed, first, isFile]
    · by_cases before : tab ∈ paths ∧ getItemTypeFromPath (childPath oldPath newPath tab) = .file
      · have other : childPath oldPath newPath tab ≠ key := fun same =>
          free.fresh tab (moved tab before.1) (same ▸ present)
        simp [movedTab, renamed, before, other]
      · have after : ¬ (tab ∈ paths ++ [key] ∧
            getItemTypeFromPath (childPath oldPath newPath tab) = .file) := by
          simpa [here] using before
        simp only [movedTab, before, after, if_false, Function.comp_apply, renamed, here]
  · rw [if_neg isFile]
    refine List.map_congr_left fun tab _ => ?_
    by_cases here : tab = key
    · subst here
      simp [movedTab, isFile]
    · simp [movedTab, here]

/-- Those of the passed keys that the loop of `renameItem` moves. -/
def movedOf (oldPath : Text) (passed : List Text) : List Text :=
  passed.filter fun path => path.startsWith oldPath

/-- The loop of `renameItem` once it has passed some keys. -/
structure RenamesPassed (start : PgExplorer) (oldPath newPath : Text) (passed : List Text)
    (state : PgExplorer) : Prop where
  held : ∀ key, state.files.get key =
    (movedTo (movedOf oldPath passed) oldPath newPath key).elim
      (if key ∈ movedOf oldPath passed then none else start.files.get key)
      fun path => some (start.files.item path)
  bar : state.bar = ⟨start.tabs.map (movedTab oldPath newPath (movedOf oldPath passed)),
    start.explorer.currentIndex⟩
  distinct : state.tabs.Nodup
  context : state.context = start.context

/-- A key that has its turn: it is there and was not passed before. -/
structure HasTurn (files : ExplorerFiles) (oldPath : Text) (passed : List Text) (key : Text) :
    Prop where
  present : key ∈ files.keys
  first : key ∉ movedOf oldPath passed
  before : ∀ path ∈ movedOf oldPath passed, path ∈ gone files oldPath

theorem hasTurn_of_split {files : ExplorerFiles} {passed rest : List Text} {key : Text}
    (split : files.keys = passed ++ key :: rest) : HasTurn files oldPath passed key where
  present := by simp [split]
  first again := by
    have apart := files.nodup_keys
    rw [split] at apart
    exact (List.nodup_append.mp apart).2.2 key (List.mem_of_mem_filter again) key (by simp) rfl
  before path member := by
    obtain ⟨inPassed, below⟩ := List.mem_filter.mp member
    exact List.mem_filter.mpr ⟨by simp [split, inPassed], below⟩

section RenamesPassed

variable {passed : List Text} {state : PgExplorer} {key : Text}

/-- At first nothing is moved. -/
theorem renamesPassed_nil (distinct : self.tabs.Nodup) :
    RenamesPassed self oldPath newPath [] self := by
  refine ⟨fun key => by simp [movedOf, movedTo], ?_, distinct, rfl⟩
  have same : self.tabs.map (movedTab oldPath newPath []) = self.tabs := by
    refine (List.map_congr_left fun tab _ => ?_).trans (List.map_id _)
    simp [movedTab]
  simp only [movedOf, List.filter_nil, same]
  rfl

theorem RenamesPassed.tabs_eq (passes : RenamesPassed self oldPath newPath passed state) :
    state.tabs = self.tabs.map (movedTab oldPath newPath (movedOf oldPath passed)) :=
  congrArg TabBar.tabs passes.bar

/-- A key that has its turn still has its item. -/
theorem RenamesPassed.get_key (passes : RenamesPassed self oldPath newPath passed state)
    (free : MovesFreely self.files oldPath newPath) (turn : HasTurn self.files oldPath passed key) :
    state.files.get key = self.files.get key := by
  rw [passes.held, free.movedTo_eq_none turn.before turn.present, Option.elim_none, if_neg turn.first]

/-- The files after one more key is moved. -/
theorem RenamesPassed.get_renamePath (passes : RenamesPassed self oldPath newPath passed state)
    (free : MovesFreely self.files oldPath newPath) (turn : HasTurn self.files oldPath passed key)
    (below : key ∈ gone self.files oldPath) (other : Text) :
    (state.renamePath key (childPath oldPath newPath key)).files.get other =
      (movedTo (movedOf oldPath passed ++ [key]) oldPath newPath other).elim
        (if other ∈ movedOf oldPath passed ++ [key] then none else self.files.get other)
        fun path => some (self.files.item path) := by
  rw [renamePath_files, OrderedMap.get_set, OrderedMap.get_erase, passes.held, movedTo_append,
    ExplorerFiles.item, passes.get_key free turn]
  by_cases new : other = childPath oldPath newPath key
  · have unused : movedTo (movedOf oldPath passed) oldPath newPath other = none := by
      rw [movedTo, List.find?_eq_none]
      intro path member same
      have equal := free.injective (turn.before path member) below
        ((of_decide_eq_true same).trans new)
      exact turn.first (equal ▸ member)
    have found : movedTo [key] oldPath newPath other = some key := by simp [movedTo, new]
    rw [unused, found, if_pos new]
    rfl
  · have notNew : movedTo [key] oldPath newPath other = none := by
      simp [movedTo, Ne.symm new]
    rw [if_neg new, notNew, Option.or_none]
    by_cases old : other = key
    · subst old
      simp [free.movedTo_eq_none turn.before turn.present]
    · simp [old]

/-- The path that a key is moved to has no tab yet. -/
theorem RenamesPassed.fresh (passes : RenamesPassed self oldPath newPath passed state)
    (free : MovesFreely self.files oldPath newPath) (turn : HasTurn self.files oldPath passed key)
    (below : key ∈ gone self.files oldPath) (keys : ∀ tab ∈ self.tabs, tab ∈ self.files.keys) :
    childPath oldPath newPath key ∉ state.tabs := by
  rw [passes.tabs_eq]
  intro member
  obtain ⟨tab, inTabs, same⟩ := List.mem_map.mp member
  rw [movedTab] at same
  split_ifs at same with again
  · exact turn.first (free.injective (turn.before tab again.1) below same ▸ again.1)
  · exact free.fresh key below (same ▸ keys tab inTabs)

/-- A turn of the loop of `renameItem`. -/
theorem RenamesPassed.next (passes : RenamesPassed self oldPath newPath passed state)
    (free : MovesFreely self.files oldPath newPath) (turn : HasTurn self.files oldPath passed key)
    (keys : ∀ tab ∈ self.tabs, tab ∈ self.files.keys) :
    RenamesPassed self oldPath newPath (passed ++ [key]) (renameTurn oldPath newPath key state) := by
  rw [renameTurn]
  by_cases below : key.startsWith oldPath
  · have next : movedOf oldPath (passed ++ [key]) = movedOf oldPath passed ++ [key] := by
      simp [movedOf, below]
    have moved : key ∈ gone self.files oldPath := List.mem_filter.mpr ⟨turn.present, below⟩
    rw [if_pos below]
    refine ⟨fun other => ?_, ?_, ?_, by simpa using passes.context⟩
    · rw [next]
      exact passes.get_renamePath free turn moved other
    · have sameIndex : state.explorer.currentIndex = self.explorer.currentIndex :=
        congrArg TabBar.currentIndex passes.bar
      rw [renamePath_bar passes.distinct, next,
        map_movedTab_append free turn.before turn.present turn.first]
      split
      · rw [passes.tabs_eq, sameIndex]
      · exact passes.bar
    · rw [← bar_tabs, renamePath_bar passes.distinct]
      split
      · exact nodup_map_renamed passes.distinct (passes.fresh free turn moved keys)
      · exact passes.distinct
  · have next : movedOf oldPath (passed ++ [key]) = movedOf oldPath passed := by
      simp [movedOf, below]
    rw [if_neg below]
    exact ⟨by simpa only [next] using passes.held, by rw [next]; exact passes.bar,
      passes.distinct, passes.context⟩

end RenamesPassed

/-- The loop of `renameItem` moves every item below the old path and renames its tab. -/
theorem renameLoop_spec (free : MovesFreely self.files oldPath newPath)
    (distinct : self.tabs.Nodup) (keys : ∀ tab ∈ self.tabs, tab ∈ self.files.keys) :
    let moved := gone self.files oldPath
    let after := OrderedMap.forIn files (renameTurn oldPath newPath) self
    (∀ key, after.files.item key = match movedTo moved oldPath newPath key with
      | some path => self.files.item path
      | none => if key.startsWith oldPath then none else self.files.item key) ∧
    after.bar = ⟨self.tabs.map (movedTab oldPath newPath moved), self.explorer.currentIndex⟩ ∧
    after.tabs.Nodup ∧ after.context = self.context := by
  intro moved after
  have loop : RenamesPassed self oldPath newPath self.files.keys after := by
    apply OrderedMap.forIn_induction (RenamesPassed self oldPath newPath)
    · exact renamesPassed_nil distinct
    · intro passed key rest state split passes
      have turn : HasTurn self.files oldPath passed key := hasTurn_of_split split
      have still : state.files.has key = true := by
        rw [OrderedMap.has_iff, OrderedMap.mem_keys_iff, passes.get_key free turn]
        exact OrderedMap.mem_keys_iff.mp turn.present
      rw [if_pos still]
      exact passes.next free turn keys
  refine ⟨fun key => ?_, loop.bar, loop.distinct, loop.context⟩
  rw [ExplorerFiles.item, loop.held]
  change ((movedTo moved oldPath newPath key).elim (if key ∈ moved then none else self.files.get key)
    fun path => some (self.files.item path)).join = _
  cases movedTo moved oldPath newPath key with
  | some path => rfl
  | none =>
      rw [Option.elim_none]
      by_cases present : key ∈ self.files.keys
      · have member : key ∈ moved ↔ key.startsWith oldPath = true := by simp [moved, gone, present]
        by_cases below : key.startsWith oldPath <;> simp [member, below, ExplorerFiles.item]
      · have missing := OrderedMap.get_eq_none.mpr present
        simp [missing, ExplorerFiles.item]

end PgExplorer
end Solpg.Client.Utils
