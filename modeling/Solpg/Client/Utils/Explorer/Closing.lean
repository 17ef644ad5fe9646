import Solpg.Client.Utils.Explorer.Tabs

/-!
# Closing a tab

`closeFile` opens the next tab, takes the closed one out by its index and reads the current file
again through an index that has been shifted. The other tabs and the current one are kept exactly
where the shift does not matter.
-/

namespace Solpg.Client.Utils.PgExplorer

open Solpg.Std

/-- What closing the tab of a full path leaves. -/
structure Closes (before after : PgExplorer) (path : Text) : Prop where
  tabs : after.tabs = before.tabs.filter (· ≠ path)
  kept : before.currentFilePath ≠ some path → after.currentFilePath = before.currentFilePath
  /-- The tab after it, or else the one before it. -/
  moved : before.currentFilePath = some path → ∀ index, before.tabs[index]? = some path →
    after.currentFilePath =
      before.tabs[index + 1]?.or (if index = 0 then none else before.tabs[index - 1]?)
  untouched : path ∉ before.tabs → after.explorer = before.explorer

/-- The tab is behind the current one, or it is the current one and the last. Without a current
tab it is not open. -/
def ClosesInPlace (self : PgExplorer) (path : Text) : Prop :=
  match self.currentFilePath with
  | none => path ∉ self.tabs
  | some current =>
      path ∈ self.tabs ∧ (self.tabs.idxOf current < self.tabs.idxOf path ∨
        current = path ∧ self.tabs.getLast? = some path)

variable {self : PgExplorer} {path fullPath : Text} {index closed : Nat}

/-- The index that is left is read from the remaining tabs. -/
theorem closeFileAt_currentFilePath (distinct : self.tabs.Nodup)
    (here : self.explorer.currentIndex = some index) (inside : index < self.tabs.length) :
    (self.closeFileAt path).currentFilePath = (spliceTab self.tabs path)[
      indexAtSplice self.tabs.length index (self.currentFilePath = some path)]? := by
  rw [currentFilePath, tabs, closeFileAt_explorer distinct here inside]
  simp only [indexAfterClose]
  split
  · rfl
  · rename_i outside
    rw [Option.bind_none, List.getElem?_eq_none]
    rw [length_spliceTab]
    omega

theorem closeFileAt_tabs (distinct : self.tabs.Nodup)
    (here : self.explorer.currentIndex = some index) (inside : index < self.tabs.length) :
    (self.closeFileAt path).tabs = spliceTab self.tabs path := by
  rw [tabs, closeFileAt_explorer distinct here inside]

theorem spliceTab_getElem (distinct : self.tabs.Nodup) (inside : closed < self.tabs.length) :
    spliceTab self.tabs self.tabs[closed] = self.tabs.eraseIdx closed := by
  simp only [spliceTab, idxOf?_getElem distinct inside]

theorem eraseIdx_eq_filter (distinct : self.tabs.Nodup) (inside : closed < self.tabs.length) :
    self.tabs.eraseIdx closed = self.tabs.filter (· ≠ self.tabs[closed]) := by
  rw [← spliceTab_getElem distinct inside, spliceTab_of_mem (List.getElem_mem inside),
    distinct.erase_eq_filter]
  refine List.filter_congr fun other _ => ?_
  rw [bne, beq_eq_decide, ← decide_not]

/-- A tab further on is another one. -/
theorem getElem?_ne_of_lt (distinct : self.tabs.Nodup) (inside : index < self.tabs.length)
    {later : Nat} (behind : index < later) : self.tabs[later]? ≠ some self.tabs[index] := by
  intro same
  obtain ⟨bounded, equal⟩ := List.getElem?_eq_some_iff.mp same
  have := (List.Nodup.getElem_inj_iff distinct).mp equal
  omega

/-- Another tab is closed. -/
theorem closes_other_iff (distinct : self.tabs.Nodup)
    (here : self.explorer.currentIndex = some index) (inside : index < self.tabs.length)
    (bounded : closed < self.tabs.length) (other : index ≠ closed) :
    Closes self (self.closeFileAt self.tabs[closed]) self.tabs[closed] ↔ index < closed := by
  have current := currentFilePath_of_index here inside
  have notCurrent : self.currentFilePath ≠ some self.tabs[closed] := by
    rw [current]
    exact fun same => other ((List.Nodup.getElem_inj_iff distinct).mp (Option.some.inj same))
  have after : (self.closeFileAt self.tabs[closed]).currentFilePath =
      (self.tabs.eraseIdx closed)[index]? := by
    rw [closeFileAt_currentFilePath distinct here inside, spliceTab_getElem distinct bounded]
    simp only [notCurrent, indexAtSplice, decide_false, Bool.false_eq_true, if_false]
  rw [List.getElem?_eraseIdx] at after
  constructor
  · intro closes
    by_contra before
    have kept := closes.kept notCurrent
    rw [after, if_neg before, current] at kept
    exact getElem?_ne_of_lt distinct inside (Nat.lt_succ_self index) kept
  · intro behind
    refine ⟨?_, fun _ => ?_, fun same => absurd same notCurrent, fun absent => ?_⟩
    · rw [closeFileAt_tabs distinct here inside, spliceTab_getElem distinct bounded,
        eraseIdx_eq_filter distinct bounded]
    · rw [after, if_pos behind, current, List.getElem?_eq_getElem inside]
    · exact absurd (List.getElem_mem bounded) absent

/-- The current tab is closed. -/
theorem closes_current_iff (distinct : self.tabs.Nodup)
    (here : self.explorer.currentIndex = some index) (inside : index < self.tabs.length) :
    Closes self (self.closeFileAt self.tabs[index]) self.tabs[index] ↔
      index + 1 = self.tabs.length := by
  have current := currentFilePath_of_index here inside
  have itself : self.tabs[index]? = some self.tabs[index] := List.getElem?_eq_getElem inside
  have after : (self.closeFileAt self.tabs[index]).currentFilePath =
      (self.tabs.eraseIdx index)[
        if index + 1 < self.tabs.length then index + 1 else index - 1]? := by
    rw [closeFileAt_currentFilePath distinct here inside, spliceTab_getElem distinct inside]
    simp only [current, indexAtSplice, decide_true, if_true]
  constructor
  · intro closes
    by_contra more
    have next : index + 1 < self.tabs.length := by omega
    have moved := closes.moved current index itself
    rw [after, if_pos next, List.getElem?_eraseIdx, if_neg (by omega),
      List.getElem?_eq_getElem next, Option.some_or] at moved
    exact getElem?_ne_of_lt distinct next (Nat.lt_succ_self _) moved
  · intro last
    rw [if_neg (by omega), List.getElem?_eraseIdx] at after
    refine ⟨?_, fun other => absurd current other, fun _ position found => ?_, fun absent => ?_⟩
    · rw [closeFileAt_tabs distinct here inside, spliceTab_getElem distinct inside,
        eraseIdx_eq_filter distinct inside]
    · obtain ⟨bounded, same⟩ := List.getElem?_eq_some_iff.mp found
      obtain rfl := (List.Nodup.getElem_inj_iff distinct).mp same
      have nothing : self.tabs[position + 1]? = none := List.getElem?_eq_none (by omega)
      rw [after, nothing, Option.none_or]
      by_cases first : position = 0
      · subst first
        rw [if_neg (by omega), if_pos rfl, nothing]
      · rw [if_pos (by omega), if_neg first]
    · exact absurd (List.getElem_mem inside) absent

/-- Another path than those of the tabs takes the last one out. -/
theorem not_closes_of_absent (distinct : self.tabs.Nodup)
    (here : self.explorer.currentIndex = some index) (inside : index < self.tabs.length)
    (absent : path ∉ self.tabs) : ¬ Closes self (self.closeFileAt path) path := by
  intro closes
  have shorter : (self.closeFileAt path).tabs.length = self.tabs.length - 1 := by
    rw [closeFileAt_tabs distinct here inside, length_spliceTab]
  have same : (self.closeFileAt path).tabs = self.tabs :=
    congrArg Explorer.tabs (closes.untouched absent)
  rw [same] at shorter
  omega

theorem closes_of_none_iff (nothing : self.currentFilePath = none) :
    Closes self (self.closeFileAt path) path ↔ path ∉ self.tabs := by
  have same := closeFileAt_of_none nothing path
  have sameTabs : (self.closeFileAt path).tabs = self.tabs := congrArg Explorer.tabs same
  constructor
  · intro closes
    have tabs := closes.tabs
    rw [sameTabs, eq_comm, List.filter_eq_self] at tabs
    exact fun member => by simpa using tabs path member
  · intro absent
    refine ⟨?_, fun _ => ?_, fun current => ?_, fun _ => same⟩
    · rw [sameTabs, eq_comm, List.filter_eq_self]
      intro other member
      exact decide_eq_true fun same => absent (same ▸ member)
    · rw [currentFilePath, sameTabs, same]
      rfl
    · rw [nothing] at current
      cases current

theorem closeFileAt_closes_iff (distinct : self.tabs.Nodup) :
    Closes self (self.closeFileAt path) path ↔ self.ClosesInPlace path := by
  rw [ClosesInPlace]
  cases current : self.currentFilePath with
  | none => exact closes_of_none_iff current
  | some currentPath =>
      obtain ⟨index, here, found⟩ := Option.bind_eq_some_iff.mp current
      obtain ⟨inside, rfl⟩ := List.getElem?_eq_some_iff.mp found
      simp only [distinct.idxOf_getElem index inside]
      by_cases member : path ∈ self.tabs
      · obtain ⟨closed, bounded, rfl⟩ := List.getElem_of_mem member
        simp only [List.getElem_mem, true_and, distinct.idxOf_getElem closed bounded,
          List.Nodup.getElem_inj_iff distinct]
        by_cases other : index = closed
        · subst other
          rw [closes_current_iff distinct here inside, List.getLast?_eq_getElem?,
            List.getElem?_eq_some_iff]
          simp only [lt_irrefl, false_or, true_and, List.Nodup.getElem_inj_iff distinct]
          constructor
          · intro last
            exact ⟨by omega, by omega⟩
          · rintro ⟨bounded, last⟩
            omega
        · rw [closes_other_iff distinct here inside bounded other]
          simp [other]
      · simp only [member, false_and, iff_false]
        exact not_closes_of_absent distinct here inside member

/-- Closing a tab keeps the others and the current one exactly where it is closed in place. -/
theorem closeFile_closes_iff (distinct : self.tabs.Nodup)
    (full : self.convertToFullPath path = .ok fullPath) :
    (∃ after, self.closeFile path = .ok after ∧ Closes self after fullPath) ↔
      self.ClosesInPlace fullPath := by
  have closed : self.closeFile path = .ok (self.closeFileAt fullPath) := by rw [closeFile, full]; rfl
  rw [closed, ← closeFileAt_closes_iff distinct]
  constructor
  · rintro ⟨after, same, closes⟩
    rwa [Except.ok.inj same]
  · exact fun closes => ⟨_, rfl, closes⟩

/-- Two tabs of a project without a workspace, of which the first is current. -/
def twoTabs : PgExplorer where
  explorer := ⟨.empty, ["/a".toList, "/b".toList], some 0⟩
  generation := 0
  isTemporary := true
  hasWorkspace := false
  workspaces := ⟨[], none⟩
  initializedWorkspaceName := none
  dispatched := []

/-- The tab behind the current one is closed. -/
theorem closeFile_closes_second :
    ∃ after, twoTabs.closeFile "b".toList = .ok after ∧ Closes twoTabs after "/b".toList :=
  (closeFile_closes_iff (by decide) rfl).mpr ⟨by decide, .inl (by decide)⟩

/-- No tab is current after the first of two has been closed. -/
theorem not_always_closes : ¬ ∀ (self : PgExplorer) (path fullPath : Text), self.tabs.Nodup →
    self.convertToFullPath path = .ok fullPath →
      ∃ after, self.closeFile path = .ok after ∧ Closes self after fullPath := by
  intro always
  obtain ⟨after, closed, closes⟩ := always twoTabs "a".toList "/a".toList (by decide) rfl
  obtain rfl := Except.ok.inj closed
  have moved := closes.moved rfl 0 rfl
  exact absurd moved (by decide)

end Solpg.Client.Utils.PgExplorer
