import Mathlib.Data.List.Basic
import Mathlib.Data.List.Nodup
import Solpg.Client.Utils.Explorer.State

/-!
# Tabs and the current file

A `TabBar` is what the explorer keeps of its tabs, and `openFile`, `closeFile`
and `setTabs` are operations on it. In a `Selection` there is a current tab
exactly when there are tabs. Closing a tab can lose it: `strands` says when.
-/

namespace Solpg.Client.Utils

open Solpg.Std

/-- The open tabs and the index of the current one. -/
structure TabBar where
  tabs : List Text
  currentIndex : Option Nat

/-- Distinct tabs, and the index of one of them or none. -/
structure TabBar.Valid (bar : TabBar) : Prop where
  distinct : bar.tabs.Nodup
  valid : ∀ index, bar.currentIndex = some index → index < bar.tabs.length

/-- One of the tabs is current unless there are none. -/
structure TabBar.Selection (bar : TabBar) : Prop extends bar.Valid where
  current : bar.currentIndex.isSome = true ↔ bar.tabs ≠ []

/-- In distinct tabs each tab is found at its own index. -/
theorem idxOf?_getElem {tabs : List Text} (distinct : tabs.Nodup) {index : Nat}
    (inside : index < tabs.length) : tabs.idxOf? tabs[index] = some index := by
  rw [List.idxOf?_eq_some_iff]
  refine ⟨inside, rfl, ?_⟩
  intro other before same
  have equal := (List.Nodup.getElem_inj_iff distinct).mp same
  omega

/-- A found tab has an index within the tabs. -/
theorem idxOf?_lt {tabs : List Text} {path : Text} {index : Nat}
    (found : tabs.idxOf? path = some index) : index < tabs.length :=
  (List.idxOf?_eq_some_iff.mp found).1

namespace PgExplorer

variable {self : PgExplorer} {path : Text} {index : Nat}

/-- The tab bar of the explorer. -/
def bar (self : PgExplorer) : TabBar := ⟨self.tabs, self.explorer.currentIndex⟩

@[simp] theorem bar_tabs (self : PgExplorer) : self.bar.tabs = self.tabs := rfl

@[simp] theorem bar_currentIndex (self : PgExplorer) :
    self.bar.currentIndex = self.explorer.currentIndex := rfl

@[simp] theorem dispatch_bar (self : PgExplorer) (event : ExplorerEvent) :
    (self.dispatch event).bar = self.bar := rfl

@[simp] theorem setFiles_bar (self : PgExplorer) (files : ExplorerFiles) :
    (self.setFiles files).bar = self.bar := rfl

@[simp] theorem dispatch_explorer (self : PgExplorer) (event : ExplorerEvent) :
    (self.dispatch event).explorer = self.explorer := rfl

@[simp] theorem dispatch_files (self : PgExplorer) (event : ExplorerEvent) :
    (self.dispatch event).files = self.files := rfl

@[simp] theorem dispatch_tabs (self : PgExplorer) (event : ExplorerEvent) :
    (self.dispatch event).tabs = self.tabs := rfl

@[simp] theorem setFiles_files (self : PgExplorer) (files : ExplorerFiles) :
    (self.setFiles files).files = files := rfl

@[simp] theorem setFiles_tabs (self : PgExplorer) (files : ExplorerFiles) :
    (self.setFiles files).tabs = self.tabs := rfl

/-- The current file is open in a tab. -/
theorem mem_tabs_of_current (current : self.currentFilePath = some path) : path ∈ self.tabs := by
  obtain ⟨index, -, found⟩ := Option.bind_eq_some_iff.mp current
  exact List.mem_of_getElem? found

/-! ## Opening -/

/-- The tabs with a path in its place or at the end. -/
def openedTabs (tabs : List Text) (path : Text) : List Text :=
  if path ∈ tabs then tabs else tabs ++ [path]

/-- Opening a file adds its tab and no other. -/
theorem mem_openedTabs {tabs : List Text} {other : Text} :
    other ∈ openedTabs tabs path ↔ other = path ∨ other ∈ tabs := by
  by_cases present : path ∈ tabs
  · simp only [openedTabs, present, if_true]
    constructor
    · exact .inr
    · rintro (rfl | member)
      · exact present
      · exact member
  · simp [openedTabs, present, or_comm]

/-- A file that is open already gets no second tab. -/
theorem openedTabs_of_mem {tabs : List Text} (member : path ∈ tabs) : openedTabs tabs path = tabs :=
  if_pos member

/-- Opening a file keeps the tabs distinct. -/
theorem nodup_openedTabs {tabs : List Text} (distinct : tabs.Nodup) :
    (openedTabs tabs path).Nodup := by
  by_cases present : path ∈ tabs
  · rwa [openedTabs_of_mem present]
  · rw [openedTabs, if_neg present, List.nodup_append]
    refine ⟨distinct, List.nodup_singleton _, ?_⟩
    rintro other member _ (_ | ⟨_, ⟨⟩⟩) rfl
    exact present member

/-- Opening a file shows it in its tab. -/
theorem openFileAt_explorer (distinct : self.tabs.Nodup) : (self.openFileAt path).explorer =
    { self.explorer with
      tabs := openedTabs self.tabs path
      currentIndex := (openedTabs self.tabs path).idxOf? path } := by
  by_cases current : self.currentFilePath = some path
  · obtain ⟨index, here, found⟩ := Option.bind_eq_some_iff.mp current
    obtain ⟨inside, rfl⟩ := List.getElem?_eq_some_iff.mp found
    have present : self.tabs[index] ∈ self.tabs := List.getElem_mem inside
    rw [openFileAt, if_pos current, openedTabs_of_mem present, idxOf?_getElem distinct inside,
      ← here]
    rfl
  · rw [openFileAt, if_neg current]
    rfl

/-- Opening a file leaves the files alone. -/
@[simp] theorem openFileAt_files (self : PgExplorer) (path : Text) :
    (self.openFileAt path).files = self.files := by
  rw [openFileAt]
  split <;> rfl

/-- Opening a file adds its tab. -/
theorem openFileAt_tabs (distinct : self.tabs.Nodup) :
    (self.openFileAt path).tabs = openedTabs self.tabs path := by
  rw [tabs, openFileAt_explorer distinct]

/-- Opening a file makes its tab the current one. -/
theorem openFileAt_bar (distinct : self.tabs.Nodup) : (self.openFileAt path).bar =
    ⟨openedTabs self.tabs path, (openedTabs self.tabs path).idxOf? path⟩ := by
  rw [bar, tabs, openFileAt_explorer distinct]

/-- Whatever the current file was, opening a file selects it. -/
theorem openFileAt_selection (distinct : self.tabs.Nodup) :
    (self.openFileAt path).bar.Selection := by
  rw [openFileAt_bar distinct]
  have member : path ∈ openedTabs self.tabs path := mem_openedTabs.mpr (.inl rfl)
  refine ⟨⟨nodup_openedTabs distinct, fun index => idxOf?_lt⟩, ?_⟩
  simp [List.isSome_idxOf?, member, List.ne_nil_of_mem member]

/-! ## Closing -/

/-- Removing a tab keeps the order of the others. -/
theorem spliceTab_sublist (tabs : List Text) (path : Text) : (spliceTab tabs path).Sublist tabs := by
  rw [spliceTab]
  split
  · exact List.eraseIdx_sublist _ _
  · exact List.dropLast_sublist _

/-- Removing a tab removes exactly one. -/
theorem length_spliceTab (tabs : List Text) (path : Text) :
    (spliceTab tabs path).length = tabs.length - 1 := by
  rw [spliceTab]
  split
  next index found => exact List.length_eraseIdx_of_lt (idxOf?_lt found)
  next => exact List.length_dropLast

/-- An open path loses its tab. -/
theorem spliceTab_of_mem {tabs : List Text} (member : path ∈ tabs) :
    spliceTab tabs path = tabs.erase path := by
  obtain ⟨index, found⟩ := Option.isSome_iff_exists.mp (List.isSome_idxOf?.mpr member)
  simp only [spliceTab, List.erase_eq_eraseIdx, found]

/-- For a path that is not open the last tab goes, since the index is -1. -/
theorem spliceTab_of_not_mem {tabs : List Text} (absent : path ∉ tabs) :
    spliceTab tabs path = tabs.dropLast := by
  simp only [spliceTab, List.idxOf?_eq_none_iff.mpr absent]

/-- The index that is current when the tab is taken out: the next tab or the one
before it if the current file is closed. -/
def indexAtSplice (length index : Nat) (isCurrent : Bool) : Nat :=
  if isCurrent then if index + 1 < length then index + 1 else index - 1 else index

/-- The path that is read with that index from the remaining tabs is the new
current file, if there is one. -/
def indexAfterClose (length index : Nat) (isCurrent : Bool) : Option Nat :=
  if indexAtSplice length index isCurrent < length - 1 then
    some (indexAtSplice length index isCurrent)
  else none

/-- Without a current file nothing is closed. -/
theorem closeFileAt_of_none (nothing : self.currentFilePath = none) (path : Text) :
    (self.closeFileAt path).explorer = self.explorer := by
  simp [closeFileAt, openNextTab, removeTab, nothing]

/-- The next tab becomes the current one, or the one before when there is none. -/
theorem openNextTab_explorer (distinct : self.tabs.Nodup)
    (here : self.explorer.currentIndex = some index) (inside : index < self.tabs.length)
    (path : Text) :
    (self.openNextTab path).explorer =
      { self.explorer with
        currentIndex :=
          some (indexAtSplice self.tabs.length index (self.currentFilePath = some path)) } := by
  by_cases current : self.currentFilePath = some path
  · simp only [openNextTab, current, if_true, here, Option.bind_some, indexAtSplice, decide_true]
    by_cases next : index + 1 < self.tabs.length
    · simp only [List.getElem?_eq_getElem next, Option.some_or, next, if_true]
      rw [openFileAt_explorer distinct, openedTabs_of_mem (List.getElem_mem next),
        idxOf?_getElem distinct next]
      rfl
    · have last : self.tabs[index + 1]? = none := List.getElem?_eq_none (by omega)
      simp only [last, Option.none_or, next, if_false]
      by_cases before : 0 < index
      · have short : index - 1 < self.tabs.length := by omega
        have previous : self.tabs.dropLast.getLast? = some self.tabs[index - 1] := by
          rw [List.getLast?_eq_getElem?, List.length_dropLast, List.getElem?_dropLast,
            if_pos (by omega), List.getElem?_eq_some_iff]
          refine ⟨by omega, ?_⟩
          congr 1
          omega
        simp only [previous]
        rw [openFileAt_explorer distinct, openedTabs_of_mem (List.getElem_mem short),
          idxOf?_getElem distinct short]
        rfl
      · have only : self.tabs.dropLast = [] := by
          apply List.eq_nil_of_length_eq_zero
          rw [List.length_dropLast]
          omega
        have zero : index - 1 = index := by omega
        simp only [only, List.getLast?_nil, zero, ← here]
  · simp [openNextTab, current, indexAtSplice, ← here]

/-- `closeFile` as a function of the tabs and the current index. -/
theorem closeFileAt_explorer (distinct : self.tabs.Nodup)
    (here : self.explorer.currentIndex = some index) (inside : index < self.tabs.length) :
    (self.closeFileAt path).explorer =
      { self.explorer with
        tabs := spliceTab self.tabs path
        currentIndex :=
          indexAfterClose self.tabs.length index (self.currentFilePath = some path) } := by
  have explorer := openNextTab_explorer distinct here inside path
  rw [closeFileAt, dispatch_explorer, indexAfterClose]
  generalize self.openNextTab path = opened at explorer
  generalize indexIs : indexAtSplice self.tabs.length index (self.currentFilePath = some path) =
    next at explorer
  have nextInside : next < self.tabs.length := by
    rw [← indexIs, indexAtSplice]
    split_ifs <;> omega
  have sameTabs : opened.tabs = self.tabs := by rw [tabs, explorer]; rfl
  have current : opened.currentFilePath = some self.tabs[next] := by
    rw [currentFilePath, sameTabs, explorer]
    exact List.getElem?_eq_getElem nextInside
  have splicedDistinct := distinct.sublist (spliceTab_sublist self.tabs path)
  have position : ((spliceTab self.tabs path)[next]?).bind (spliceTab self.tabs path).idxOf? =
      if next < self.tabs.length - 1 then some next else none := by
    by_cases remains : next < self.tabs.length - 1
    · have short : next < (spliceTab self.tabs path).length := by rwa [length_spliceTab]
      simp [List.getElem?_eq_getElem short, idxOf?_getElem splicedDistinct short, remains]
    · have gone : (spliceTab self.tabs path)[next]? = none :=
        List.getElem?_eq_none (by rw [length_spliceTab]; omega)
      simp [gone, remains]
  simp only [removeTab, current, Option.isSome_some, if_true, sameTabs, explorer, Option.bind_some,
    position]

/-- Closing a file leaves the files alone. -/
@[simp] theorem closeFileAt_files (self : PgExplorer) (path : Text) :
    (self.closeFileAt path).files = self.files := by
  have opened : (self.openNextTab path).files = self.files := by
    rw [openNextTab]
    split
    · simp only []
      split <;> simp
    · rfl
  rw [closeFileAt, dispatch_files, removeTab]
  split
  · exact opened
  · exact opened

/-- The current file is the one under the current index. -/
theorem currentFilePath_of_index (here : self.explorer.currentIndex = some index)
    (inside : index < self.tabs.length) : self.currentFilePath = some self.tabs[index] := by
  rw [currentFilePath, here]
  exact List.getElem?_eq_getElem inside

end PgExplorer

namespace TabBar

variable {bar : TabBar} {path : Text}

/-- The tabs after `closeFile`. -/
def close (bar : TabBar) (path : Text) : TabBar :=
  match bar.currentIndex with
  | none => bar
  | some index =>
      ⟨PgExplorer.spliceTab bar.tabs path,
        PgExplorer.indexAfterClose bar.tabs.length index (bar.tabs[index]? = some path)⟩

/-- Closing the path leaves tabs of which none is current: the current file is
closed and exactly one tab follows it, or another path is closed, there are
several tabs and the current one is the last. -/
def strands (bar : TabBar) (path : Text) : Bool :=
  match bar.currentIndex with
  | none => false
  | some index =>
      if bar.tabs[index]? = some path then index + 2 = bar.tabs.length
      else index + 1 = bar.tabs.length && decide (2 ≤ bar.tabs.length)

/-- Closing a tab keeps the bar valid. -/
theorem Valid.close (valid : bar.Valid) (path : Text) : (bar.close path).Valid := by
  cases here : bar.currentIndex with
  | none => simpa only [TabBar.close, here] using valid
  | some index =>
      simp only [TabBar.close, here]
      refine ⟨valid.distinct.sublist (PgExplorer.spliceTab_sublist _ _), ?_⟩
      intro next found
      simp only [PgExplorer.indexAfterClose] at found
      split_ifs at found with remains
      cases found
      rwa [PgExplorer.length_spliceTab]

/-- The selection survives a close exactly when it is not the stranded one. -/
theorem close_selection (selection : bar.Selection) :
    (bar.close path).Selection ↔ bar.strands path = false := by
  cases here : bar.currentIndex with
  | none => simp only [close, strands, here, selection]
  | some index =>
      have inside := selection.valid index here
      have shorter : PgExplorer.spliceTab bar.tabs path ≠ [] ↔ 2 ≤ bar.tabs.length := by
        rw [← List.length_pos_iff, PgExplorer.length_spliceTab]
        omega
      have still : (PgExplorer.indexAfterClose bar.tabs.length index
          (bar.tabs[index]? = some path)).isSome = true ↔
          PgExplorer.indexAtSplice bar.tabs.length index (bar.tabs[index]? = some path) <
            bar.tabs.length - 1 := by
        rw [PgExplorer.indexAfterClose]
        split_ifs with remains <;> simp [remains]
      have selected : (bar.close path).Selection ↔
          (PgExplorer.indexAtSplice bar.tabs.length index (bar.tabs[index]? = some path) <
            bar.tabs.length - 1 ↔ 2 ≤ bar.tabs.length) := by
        rw [← still, ← shorter]
        constructor
        · intro after
          simpa only [close, here] using after.current
        · intro kept
          exact ⟨selection.toValid.close path, by simpa only [close, here] using kept⟩
      rw [selected]
      simp only [strands, here, PgExplorer.indexAtSplice]
      split_ifs <;> simp_all <;> omega

/-- A close opens no tab. -/
theorem close_sublist (bar : TabBar) (path : Text) : (bar.close path).tabs.Sublist bar.tabs := by
  rw [close]
  split
  · exact List.Sublist.refl _
  · exact PgExplorer.spliceTab_sublist _ _

/-- With a current file, a tab that is closed is gone. -/
theorem not_mem_close (valid : bar.Valid) (current : bar.currentIndex.isSome = true) :
    path ∉ (bar.close path).tabs := by
  obtain ⟨index, here⟩ := Option.isSome_iff_exists.mp current
  intro member
  have before : path ∈ bar.tabs := (bar.close_sublist path).subset member
  simp only [close, here, PgExplorer.spliceTab_of_mem before] at member
  exact valid.distinct.not_mem_erase member

/-- A closed path has no tab. -/
theorem Selection.not_mem_close (selection : bar.Selection) : path ∉ (bar.close path).tabs := by
  cases some_ : bar.currentIndex.isSome with
  | true => exact TabBar.not_mem_close selection.toValid some_
  | false =>
      have nothing : bar.tabs = [] := by
        by_contra tabs
        simpa [some_] using selection.current.mpr tabs
      intro member
      simpa [nothing] using (bar.close_sublist path).subset member

/-- None of the closings strands the selection. -/
def closesSafely : TabBar → List Text → Bool
  | _, [] => true
  | bar, path :: rest => !bar.strands path && (bar.close path).closesSafely rest

end TabBar

namespace PgExplorer

variable {self : PgExplorer} {path : Text}

/-- Closing a file closes its tab in the bar. -/
theorem closeFileAt_bar (valid : self.bar.Valid) :
    (self.closeFileAt path).bar = self.bar.close path := by
  cases here : self.explorer.currentIndex with
  | none =>
      have nothing : self.currentFilePath = none := by rw [currentFilePath, here]; rfl
      simp only [TabBar.close, bar_currentIndex, here]
      rw [bar, tabs, closeFileAt_of_none nothing]
      rfl
  | some index =>
      have inside := valid.valid index here
      have current : self.currentFilePath = self.tabs[index]? := by rw [currentFilePath, here]; rfl
      simp only [TabBar.close, bar_currentIndex, here, bar_tabs, ← current]
      rw [bar, tabs, closeFileAt_explorer valid.distinct here inside]

/-! ## Setting -/

/-- Dropping repeated tabs loses none. -/
theorem mem_uniqueTabs {tabs : List Text} : path ∈ uniqueTabs tabs ↔ path ∈ tabs := by
  suffices loop : ∀ unique, path ∈ tabs.foldl
      (fun unique path => if path ∈ unique then unique else unique ++ [path]) unique ↔
        path ∈ unique ∨ path ∈ tabs by
    exact (loop []).trans (by simp)
  induction tabs with
  | nil => simp
  | cons tab rest ih =>
      intro unique
      rw [List.foldl_cons, ih, List.mem_cons, ← or_assoc]
      change path ∈ openedTabs unique tab ∨ path ∈ rest ↔ _
      rw [mem_openedTabs, or_comm (a := path = tab)]

/-- Without repetitions the tabs are distinct. -/
theorem nodup_uniqueTabs (tabs : List Text) : (uniqueTabs tabs).Nodup := by
  suffices loop : ∀ unique : List Text, unique.Nodup → (tabs.foldl
      (fun unique path => if path ∈ unique then unique else unique ++ [path]) unique).Nodup from
    loop [] List.nodup_nil
  induction tabs with
  | nil => exact fun _ distinct => distinct
  | cons tab rest ih => exact fun unique distinct => ih _ (nodup_openedTabs distinct)

@[simp] theorem setTabs_files (self : PgExplorer) (tabs : List Text) :
    (self.setTabs tabs).files = self.files := rfl

@[simp] theorem setTabs_tabs (self : PgExplorer) (tabs : List Text) :
    (self.setTabs tabs).tabs = uniqueTabs tabs := rfl

/-- Setting the tabs keeps the current file current. -/
theorem setTabs_bar {current : Text} (here : self.currentFilePath = some current)
    (tabs : List Text) :
    (self.setTabs tabs).bar = ⟨uniqueTabs tabs, (uniqueTabs tabs).idxOf? current⟩ := by
  simp [setTabs, here, bar, PgExplorer.tabs]

/-- A bar with a selection and open tabs has a current file. -/
theorem exists_current (selection : self.bar.Selection) (some_ : self.tabs ≠ []) :
    ∃ current, self.currentFilePath = some current := by
  obtain ⟨index, here⟩ := Option.isSome_iff_exists.mp (selection.current.mpr some_)
  exact ⟨_, currentFilePath_of_index here (selection.valid index here)⟩

/-- Setting the tabs selects one of them when the current file is among them. -/
theorem setTabs_selection {current : Text} {tabs : List Text}
    (here : self.currentFilePath = some current) (kept : tabs = [] ∨ current ∈ tabs) :
    (self.setTabs tabs).bar.Selection := by
  rw [setTabs_bar here]
  refine ⟨⟨nodup_uniqueTabs tabs, fun index => idxOf?_lt⟩, ?_⟩
  rw [List.isSome_idxOf?, mem_uniqueTabs]
  obtain rfl | member := kept
  · simp [uniqueTabs]
  · have member' := mem_uniqueTabs.mpr member
    simp [member, List.ne_nil_of_mem member']

end PgExplorer
end Solpg.Client.Utils
