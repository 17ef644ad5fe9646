import Solpg.Client.Utils.Explorer.Effects

/-!
# What the methods tell

The events that `openFile`, `closeFile` and `renameItem` dispatch, and what a rename
leaves as it was.
-/

namespace Solpg.Client.Utils

open Solpg.Std

/-- A file that is told to be opened is told as it is, and its path is an allowed one. -/
def ExplorerEvent.Truthful (files : ExplorerFiles) (allowed : Text → Prop) : ExplorerEvent → Prop
  | .openFile file => ∀ opened, file = some opened →
      files.content opened.path = opened.content ∧ allowed opened.path
  | .changeFileContent _ _ => False
  | _ => True

namespace PgExplorer

variable {self : PgExplorer} {path oldPath newPath : Text} {allowed : Text → Prop}

/-- The events that have been dispatched are true of the files. -/
def EventsHold (self : PgExplorer) (allowed : Text → Prop) : Prop :=
  ∀ event ∈ self.dispatched, event.Truthful self.files allowed

/-- A truthful event keeps the events truthful. -/
theorem EventsHold.dispatch {event : ExplorerEvent} (holds : self.EventsHold allowed)
    (truthful : event.Truthful self.files allowed) : (self.dispatch event).EventsHold allowed := by
  intro other told
  obtain before | rfl : other ∈ self.dispatched ∨ other = event := by
    simpa [PgExplorer.dispatch] using told
  · exact holds other before
  · exact truthful

/-- The current file is what the event says. -/
theorem truthful_getCurrentFile (current : ∀ path, self.currentFilePath = some path → allowed path) :
    (ExplorerEvent.openFile self.getCurrentFile).Truthful self.files allowed := by
  intro opened is
  obtain ⟨path, here, found⟩ := Option.bind_eq_some_iff.mp is
  obtain ⟨item, held, rfl⟩ := Option.map_eq_some_iff.mp found
  refine ⟨?_, current path here⟩
  rw [ExplorerFiles.content, held]
  rfl

/-- Opening an allowed file keeps the events truthful. -/
theorem EventsHold.openFileAt (holds : self.EventsHold allowed) (opens : allowed path) :
    (self.openFileAt path).EventsHold allowed := by
  rw [PgExplorer.openFileAt]
  split
  · exact holds
  · refine EventsHold.dispatch holds (truthful_getCurrentFile ?_)
    intro current here
    obtain ⟨index, found, at_⟩ := Option.bind_eq_some_iff.mp here
    obtain ⟨inside, is, -⟩ := List.idxOf?_eq_some_iff.mp found
    rw [tabs, List.getElem?_eq_getElem inside, is] at at_
    exact Option.some.inj at_ ▸ opens

/-- Closing a file keeps the events truthful. -/
theorem EventsHold.closeFileAt (holds : self.EventsHold allowed)
    (tabs : ∀ tab ∈ self.tabs, allowed tab) (path : Text) :
    (self.closeFileAt path).EventsHold allowed := by
  have opened : (self.openNextTab path).EventsHold allowed := by
    rw [openNextTab]
    split
    · simp only []
      split
      next pathToOpen next =>
        refine holds.openFileAt (tabs pathToOpen ?_)
        rcases Option.or_eq_some_iff.mp next with after | ⟨-, before⟩
        · obtain ⟨index, -, at_⟩ := Option.bind_eq_some_iff.mp after
          exact List.mem_of_getElem? at_
        · exact List.mem_of_mem_dropLast (List.mem_of_getLast? before)
      next => exact holds
    · exact holds
  refine EventsHold.dispatch ?_ trivial
  rw [removeTab]
  split
  · exact opened
  · exact opened

/-- A tab is removed without an event. -/
theorem removeTab_dispatched (self : PgExplorer) (path : Text) :
    (self.removeTab path).dispatched = self.dispatched := by
  rw [removeTab]
  split <;> rfl

/-- The current file stays it when a file behind it in the tabs is closed. -/
theorem closeFileAt_behind {index closed : Nat} (distinct : self.tabs.Nodup)
    (here : self.explorer.currentIndex = some index) (found : self.tabs[closed]? = some path)
    (behind : index < closed) :
    (self.closeFileAt path).currentFilePath = self.currentFilePath ∧
      (self.closeFileAt path).dispatched = self.dispatched ++ [.closeFile] := by
  obtain ⟨short, rfl⟩ := List.getElem?_eq_some_iff.mp found
  have inside : index < self.tabs.length := by omega
  have current := currentFilePath_of_index here inside
  have other : self.currentFilePath ≠ some self.tabs[closed] := by
    rw [current]
    intro same
    have equal := (distinct.getElem_inj_iff).mp (Option.some.inj same)
    omega
  constructor
  · have before : indexAfterClose self.tabs.length index
        (self.currentFilePath = some self.tabs[closed]) = some index := by
      simp only [indexAfterClose, indexAtSplice, other, decide_false, Bool.false_eq_true, if_false]
      exact if_pos (by omega)
    have spliced : spliceTab self.tabs self.tabs[closed] = self.tabs.eraseIdx closed := by
      rw [spliceTab, idxOf?_getElem distinct short]
    have after : (self.closeFileAt self.tabs[closed]).explorer =
        { self.explorer with tabs := self.tabs.eraseIdx closed, currentIndex := some index } := by
      rw [closeFileAt_explorer distinct here inside, before, spliced]
    change (self.closeFileAt self.tabs[closed]).explorer.currentIndex.bind
      ((self.closeFileAt self.tabs[closed]).explorer.tabs[·]?) =
        self.explorer.currentIndex.bind (self.tabs[·]?)
    rw [after, here]
    exact List.getElem?_eraseIdx_of_lt behind
  · have unopened : self.openNextTab self.tabs[closed] = self := by rw [openNextTab, if_neg other]
    rw [closeFileAt, unopened, dispatch, removeTab_dispatched]

/-! ## `renameItem` -/

/-- The paths that a rename gives to files. -/
def renameTargets (self : PgExplorer) (oldPath newPath : Text) : List Text :=
  match getItemTypeFromPath oldPath with
  | .file => [newPath]
  | .folder => (gone self.files oldPath).map (childPath oldPath newPath)

/-- A path is renamed without an event. -/
theorem renamePath_dispatched (oldPath newPath : Text) (self : PgExplorer) :
    (self.renamePath oldPath newPath).dispatched = self.dispatched := by
  simp only [renamePath]
  split
  · split <;> rfl
  · rfl

/-- Other files keep their content. -/
theorem content_renamePath {other : Text} (notOld : other ≠ oldPath) (notNew : other ≠ newPath) :
    (self.renamePath oldPath newPath).files.content other = self.files.content other := by
  rw [renamePath_files, ExplorerFiles.content_set, if_neg notNew, ExplorerFiles.content_erase,
    if_neg notOld]

/-- Another tab than the current one gets a new path. -/
theorem currentFilePath_renamePath (current : self.currentFilePath = some path)
    (other : path ≠ oldPath) : (self.renamePath oldPath newPath).currentFilePath = some path := by
  obtain ⟨index, here, found⟩ := Option.bind_eq_some_iff.mp current
  simp only [renamePath, setFiles_tabs]
  split
  · split
    next tabIndex isOld =>
      obtain ⟨inside, holds, -⟩ := List.idxOf?_eq_some_iff.mp isOld
      have apart : tabIndex ≠ index := by
        rintro rfl
        rw [List.getElem?_eq_getElem inside] at found
        exact other ((Option.some.inj found).symm.trans holds)
      simp only [currentFilePath, setFiles, here, Option.bind_some]
      change (self.tabs.set tabIndex newPath)[index]? = some path
      rw [List.getElem?_set_ne apart]
      exact found
    next => exact current
  · exact current

section Loop

variable (notBelow : path.startsWith oldPath = false)
include notBelow

/-- A path that is not below is another key. -/
theorem ne_of_below {key : Text} (below : key.startsWith oldPath = true) : path ≠ key := by
  rintro rfl
  simp [below] at notBelow

/-- What is below no renamed path, and is no new one, keeps its content or becomes a folder. -/
theorem content_renameInState (notTarget : path ∉ self.renameTargets oldPath newPath) :
    (self.renameInState oldPath newPath).files.content path = self.files.content path ∨
      (self.renameInState oldPath newPath).files.content path = none := by
  rw [renameInState]
  rw [renameTargets] at notTarget
  cases kind : getItemTypeFromPath oldPath with
  | file =>
    simp only [kind] at notTarget
    simp only [setFiles_files, ExplorerFiles.content_addFolder]
    split
    · exact .inr rfl
    · left
      refine content_renamePath (ne_of_below notBelow ?_) (by simpa using notTarget)
      exact List.isPrefixOf_iff_prefix.mpr (List.prefix_refl _)
  | folder =>
    simp only [kind] at notTarget
    left
    refine OrderedMap.forIn_induction
      (fun _ (state : PgExplorer) => state.files.content path = self.files.content path) rfl ?_
    intro passed key rest state split same
    split
    · rw [renameTurn]
      split
      next below =>
        have isGone : key ∈ gone self.files oldPath := by
          simp [gone, split, below]
        rw [content_renamePath (ne_of_below notBelow below), same]
        rintro rfl
        exact notTarget (List.mem_map.mpr ⟨key, isGone, rfl⟩)
      next => exact same
    · exact same

/-- The current file stays current. -/
theorem currentFilePath_renameInState (current : self.currentFilePath = some path) :
    (self.renameInState oldPath newPath).currentFilePath = some path := by
  rw [renameInState]
  split
  · refine currentFilePath_renamePath current (ne_of_below notBelow ?_)
    exact List.isPrefixOf_iff_prefix.mpr (List.prefix_refl _)
  · refine OrderedMap.forIn_induction (fun _ (state : PgExplorer) => state.currentFilePath = some path) current ?_
    intro passed key rest state _ same
    split
    · rw [renameTurn]
      split
      next below => exact currentFilePath_renamePath same (ne_of_below notBelow below)
      next => exact same
    · exact same

end Loop

/-- A tab was there before or is the new path. -/
theorem mem_tabs_renamePath {tab : Text} (member : tab ∈ (self.renamePath oldPath newPath).tabs) :
    tab ∈ self.tabs ∨ tab = newPath := by
  simp only [renamePath, setFiles_tabs] at member
  split at member
  · split at member
    · exact List.mem_or_eq_of_mem_set member
    · exact .inl member
  · exact .inl member

/-- A tab was there before or is one of the targets. -/
theorem mem_tabs_renameInState {tab : Text}
    (member : tab ∈ (self.renameInState oldPath newPath).tabs) :
    tab ∈ self.tabs ∨ tab ∈ self.renameTargets oldPath newPath := by
  rw [renameTargets]
  rw [renameInState] at member
  split
  next isFile =>
    simp only [isFile] at member
    simpa using mem_tabs_renamePath member
  next isFolder =>
    simp only [isFolder] at member
    refine OrderedMap.forIn_induction
      (fun _ (state : PgExplorer) => ∀ tab ∈ state.tabs, tab ∈ self.tabs ∨
        tab ∈ (gone self.files oldPath).map (childPath oldPath newPath)) (fun _ => .inl) ?_ tab member
    intro passed key rest state split known
    split
    · rw [renameTurn]
      split
      next below =>
        intro tab member
        rcases mem_tabs_renamePath member with before | rfl
        · exact known tab before
        · refine .inr (List.mem_map.mpr ⟨key, ?_, rfl⟩)
          simp [gone, split, below]
      next => exact known
    · exact known

/-- Files and tabs are renamed without an event. -/
theorem renameInState_dispatched (self : PgExplorer) (oldPath newPath : Text) :
    (self.renameInState oldPath newPath).dispatched = self.dispatched := by
  rw [renameInState]
  split
  · exact renamePath_dispatched oldPath newPath self
  · refine OrderedMap.forIn_induction
      (fun _ (state : PgExplorer) => state.dispatched = self.dispatched) rfl ?_
    intro passed key rest state _ same
    split
    · rw [renameTurn]
      split
      · rw [renamePath_dispatched, same]
      · exact same
    · exact same

/-- Setting the same tabs keeps the current file. -/
theorem currentFilePath_setTabs (current : self.currentFilePath = some path) :
    (self.setTabs self.tabs).currentFilePath = some path := by
  have member : path ∈ uniqueTabs self.tabs := mem_uniqueTabs.mpr (mem_tabs_of_current current)
  obtain ⟨index, found⟩ := Option.isSome_iff_exists.mp (List.isSome_idxOf?.mpr member)
  obtain ⟨inside, holds, -⟩ := List.idxOf?_eq_some_iff.mp found
  have bar := setTabs_bar current self.tabs
  rw [found] at bar
  rw [currentFilePath, show (self.setTabs self.tabs).explorer.currentIndex = some index from
    congrArg TabBar.currentIndex bar, setTabs_tabs, Option.bind_some,
    List.getElem?_eq_getElem inside, holds]

/-- A rename tells the tabs, the current file and the old path. -/
theorem renamedItem_dispatched (self : PgExplorer) (oldPath newPath : Text) (override : Bool) :
    (self.renamedItem oldPath newPath override).dispatched =
      self.dispatched ++ (if override then [.setTabs] else []) ++
        [.openFile (self.renamedItem oldPath newPath override).getCurrentFile,
          .renameItem oldPath] := by
  have before := renameInState_dispatched self oldPath newPath
  rw [renamedItem]
  cases override with
  | true => simp [dispatch, setTabs, before, getCurrentFile, currentFilePath, files, tabs]
  | false => simp [dispatch, before, getCurrentFile, currentFilePath, files, tabs]

/-- Files apart from the renamed ones keep their content. -/
theorem content_renamedItem {override : Bool} (notBelow : path.startsWith oldPath = false)
    (notTarget : path ∉ self.renameTargets oldPath newPath) :
    (self.renamedItem oldPath newPath override).files.content path = self.files.content path ∨
      (self.renamedItem oldPath newPath override).files.content path = none := by
  have inState := content_renameInState notBelow notTarget
  rw [renamedItem]
  cases override with
  | true => exact inState
  | false => exact inState

/-- A tab was there before or is one of the targets. -/
theorem mem_tabs_renamedItem {tab : Text} {override : Bool}
    (member : tab ∈ (self.renamedItem oldPath newPath override).tabs) :
    tab ∈ self.tabs ∨ tab ∈ self.renameTargets oldPath newPath := by
  refine mem_tabs_renameInState ?_
  rw [renamedItem] at member
  cases override with
  | true => exact mem_uniqueTabs.mp member
  | false => exact member

/-- A current file apart from the renamed ones stays current. -/
theorem currentFilePath_renamedItem {override : Bool} (notBelow : path.startsWith oldPath = false)
    (current : self.currentFilePath = some path) :
    (self.renamedItem oldPath newPath override).currentFilePath = some path := by
  have inState : (self.renameInState oldPath newPath).currentFilePath = some path :=
    currentFilePath_renameInState notBelow current
  rw [renamedItem]
  cases override with
  | true => exact currentFilePath_setTabs inState
  | false => exact inState

end PgExplorer
end Solpg.Client.Utils
