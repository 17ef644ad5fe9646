import Solpg.Client.Utils.Explorer.Effects

/-!
# The tabs are open files

The invariant of the tabs, and under which conditions on the state the changes
that the methods make keep it.
-/

namespace Solpg.Client.Utils

open Solpg.Std

namespace PgExplorer

/-- The tabs are distinct paths of files, and one of them is current unless
there are none. -/
structure TabInvariant (state : PgExplorer) : Prop extends state.bar.Selection where
  files : ∀ path ∈ state.tabs, (state.files.content path).isSome = true

variable {self : PgExplorer} {path fullPath oldPath newPath : Text}

theorem TabInvariant.mem_keys (inv : TabInvariant self) (tab : path ∈ self.tabs) :
    path ∈ self.files.keys := by
  obtain ⟨content, found⟩ := Option.isSome_iff_exists.mp (inv.files path tab)
  exact ExplorerFiles.mem_keys_of_content found

/-- The tabs and the files are all that the invariant depends on. -/
theorem TabInvariant.congr {other : PgExplorer} (inv : TabInvariant self)
    (bar : other.bar = self.bar) (files : ∀ path ∈ self.tabs,
      other.files.content path = self.files.content path) : TabInvariant other where
  toSelection := bar ▸ inv.toSelection
  files path tab := by
    have before : path ∈ self.tabs := by
      rw [← bar_tabs, ← bar]
      exact tab
    rw [files path before]
    exact inv.files path before

theorem openFileAt_invariant (inv : TabInvariant self)
    (exists_ : (self.files.content path).isSome = true) : TabInvariant (self.openFileAt path) where
  toSelection := openFileAt_selection inv.distinct
  files other tab := by
    rw [openFileAt_tabs inv.distinct, mem_openedTabs] at tab
    rw [openFileAt_files]
    obtain rfl | before := tab
    · exact exists_
    · exact inv.files other before

theorem closeFileAt_invariant (inv : TabInvariant self) (safe : self.bar.strands path = false) :
    TabInvariant (self.closeFileAt path) where
  toSelection := by
    rw [closeFileAt_bar inv.toValid]
    exact (TabBar.close_selection inv.toSelection).mpr safe
  files other tab := by
    rw [← bar_tabs, closeFileAt_bar inv.toValid] at tab
    rw [closeFileAt_files]
    exact inv.files other ((self.bar.close_sublist path).subset tab)

theorem setTabs_invariant {tabs : List Text} (inv : TabInvariant self)
    (exist : ∀ path ∈ tabs, (self.files.content path).isSome = true)
    (kept : tabs = [] ∨ ∃ current ∈ tabs, self.currentFilePath = some current) :
    TabInvariant (self.setTabs tabs) where
  toSelection := by
    cases here : self.currentFilePath with
    | some current =>
        refine setTabs_selection here (kept.imp_right ?_)
        rintro ⟨current, member, same⟩
        rw [here] at same
        cases same
        exact member
    | none =>
        -- Without a current file there are no tabs before and none after.
        obtain rfl | ⟨current, -, same⟩ := kept
        · have nothing : self.tabs = [] := by
            by_contra some_
            obtain ⟨current, found⟩ := exists_current inv.toSelection some_
            rw [here] at found
            cases found
          refine (?_ : self.bar = (self.setTabs []).bar) ▸ inv.toSelection
          rw [bar, nothing]
          simp [bar, setTabs, here, uniqueTabs, tabs]
        · rw [here] at same
          cases same
  files path tab := exist path (mem_uniqueTabs.mp tab)

/-! ## `createItem` -/

theorem assign_invariant (inv : TabInvariant self) {item : ItemInfo}
    (content : item.content.isSome = true ∨ fullPath ∉ self.tabs) :
    TabInvariant (self.setFiles (self.files.set fullPath (some item))) where
  toSelection := inv.toSelection
  files path tab := by
    rw [setFiles_files, ExplorerFiles.content_set]
    split
    next here =>
      obtain given | absent := content
      · exact given
      · exact absurd (here ▸ tab) absent
    next => exact inv.files path tab

/-- Closing the current file to open it again strands nothing. -/
theorem refresh_invariant (inv : TabInvariant self) (closes : Prop) [Decidable closes]
    (exists_ : (self.files.content path).isSome = true) :
    TabInvariant ((if closes then self.closeFileAt path else self).openFileAt path) := by
  split
  · have bar : (self.closeFileAt path).bar = self.bar.close path := closeFileAt_bar inv.toValid
    have valid := inv.toValid.close path
    rw [← bar] at valid
    refine ⟨openFileAt_selection valid.distinct, fun other tab => ?_⟩
    rw [openFileAt_tabs valid.distinct, mem_openedTabs] at tab
    rw [openFileAt_files, closeFileAt_files]
    obtain rfl | before := tab
    · exact exists_
    · rw [← bar_tabs, bar] at before
      exact inv.files other ((self.bar.close_sublist path).subset before)
  · exact openFileAt_invariant inv exists_

theorem createdFile_invariant (inv : TabInvariant self) (content : Text) (previous : Option Text)
    (opts : CreateItemOptions) :
    TabInvariant (self.createdFile self.generation fullPath content previous opts) := by
  have assigned : TabInvariant (self.assignFile self.generation fullPath fun files =>
      ⟨some content, some (((files.item fullPath).bind ItemInfo.meta_).getD ⟨none⟩)⟩) := by
    rw [assignFile, if_pos rfl]
    exact assign_invariant inv (.inl rfl)
  have held : ((self.assignFile self.generation fullPath fun files => ⟨some content,
      some (((files.item fullPath).bind ItemInfo.meta_).getD ⟨none⟩)⟩).files.content
        fullPath).isSome = true := by
    rw [assignFile, if_pos rfl, setFiles_files, ExplorerFiles.content_set, if_pos rfl]
    rfl
  simp only [createdFile]
  generalize self.assignFile self.generation fullPath _ = stored at assigned held
  have told : ∃ told : PgExplorer, TabInvariant told ∧
      (told.files.content fullPath).isSome = true ∧ told =
        if opts.override = true ∧ previous ≠ some content then
          stored.dispatch (.changeFileContent fullPath content)
        else stored := by
    refine ⟨_, ?_, ?_, rfl⟩ <;> split
    · exact assigned.congr rfl fun _ _ => rfl
    · exact assigned
    · exact held
    · exact held
  obtain ⟨told, toldInv, toldHeld, same⟩ := told
  rw [← same]
  split_ifs with refresh opens closes closes
  · have refreshed := refresh_invariant toldInv
      (opts.override = true ∧ told.currentFilePath = some fullPath) toldHeld
    rwa [if_pos closes] at refreshed
  · exact openFileAt_invariant toldInv toldHeld
  · exact absurd (.inr closes.2) opens
  · exact toldInv
  · exact toldInv

/-! ## `deleteItem` -/

theorem closesSafely_spec {bar : TabBar} {paths : List Text} (selection : bar.Selection)
    (safe : bar.closesSafely paths = true) : (bar.closeAll paths).Selection ∧
      (∀ tab ∈ (bar.closeAll paths).tabs, tab ∈ bar.tabs) ∧
      ∀ path ∈ paths, path ∉ (bar.closeAll paths).tabs := by
  induction paths generalizing bar with
  | nil => exact ⟨selection, fun _ tab => tab, nofun⟩
  | cons path rest ih =>
      simp only [TabBar.closesSafely, Bool.and_eq_true, Bool.not_eq_true'] at safe
      obtain ⟨after, still, closed⟩ := ih ((TabBar.close_selection selection).mpr safe.1) safe.2
      refine ⟨after, fun tab member => (bar.close_sublist path).subset (still tab member), ?_⟩
      intro other member
      rcases List.mem_cons.mp member with rfl | later
      · exact fun tab => selection.not_mem_close (still other tab)
      · exact closed other later

theorem openLast_selection {bar : TabBar} (selection : bar.Selection) : bar.openLast.Selection ∧
    bar.openLast.tabs = bar.tabs := by
  rw [TabBar.openLast]
  cases last : bar.tabs.getLast? with
  | none => exact ⟨selection, rfl⟩
  | some path =>
      have member : path ∈ bar.tabs := List.mem_of_getLast? last
      have same := openedTabs_of_mem member
      simp only [TabBar.open_, same]
      refine ⟨⟨⟨selection.distinct, fun index => idxOf?_lt⟩, ?_⟩, trivial⟩
      simp [List.isSome_idxOf?, member, List.ne_nil_of_mem member]

theorem deletedItem_invariant (inv : self.TabInvariant)
    (safe : self.bar.closesSafely (gone self.files fullPath) = true)
    (parent : getParentPathFromPath fullPath ∉ self.tabs) :
    (self.deletedItem fullPath).TabInvariant := by
  have bar := deletedItem_bar inv.toValid fullPath
  obtain ⟨selection, still, closed⟩ := closesSafely_spec inv.toSelection safe
  have final : (self.deletedItem fullPath).bar.Selection ∧ (self.deletedItem fullPath).bar.tabs =
      (self.bar.closeAll (gone self.files fullPath)).tabs := by
    rw [bar]
    split
    · exact openLast_selection selection
    · exact ⟨selection, rfl⟩
  refine ⟨final.1, fun path tab => ?_⟩
  rw [← bar_tabs, final.2] at tab
  have before : path ∈ self.tabs := still path tab
  have notParent : path ≠ getParentPathFromPath fullPath := fun same => parent (same ▸ before)
  have notBelow : path.startsWith fullPath ≠ true := fun below =>
    closed path (List.mem_filter.mpr ⟨inv.mem_keys before, below⟩) tab
  rw [deletedItem_content, if_neg (not_or.mpr ⟨notParent, notBelow⟩)]
  exact inv.files path before

/-! ## `renameItem` -/

/-- When a rename keeps the tabs in order: a file is one, its new path is no
parent folder, and the paths below a folder become new paths of files. -/
def RenamesSafely (self : PgExplorer) (oldPath newPath : Text) : Prop :=
  match getItemTypeFromPath oldPath with
  | .file => getParentPathFromPath oldPath ∉ newPath :: self.tabs ∧
      (newPath ∈ self.tabs → (self.files.content oldPath).isSome = true)
  | .folder => MovesFreely self.files oldPath newPath ∧
      ∀ tab ∈ self.tabs, tab.startsWith oldPath = true →
        getItemTypeFromPath (childPath oldPath newPath tab) = .file

/-- What is left to show once the tabs have their new paths. -/
theorem setTabs_self_invariant
    (valid : ∀ index, self.explorer.currentIndex = some index → index < self.tabs.length)
    (current : self.explorer.currentIndex.isSome = true ↔ self.tabs ≠ [])
    (exist : ∀ path ∈ self.tabs, (self.files.content path).isSome = true) :
    (self.setTabs self.tabs).TabInvariant where
  toSelection := by
    cases here : self.explorer.currentIndex with
    | some index =>
        have now := currentFilePath_of_index here (valid index here)
        exact setTabs_selection now (.inr (List.getElem_mem _))
    | none =>
        have nothing : self.tabs = [] := by
          by_contra some_
          simpa [here] using current.mpr some_
        have nobody : self.currentFilePath = none := by rw [currentFilePath, here]; rfl
        have same : (self.setTabs []).bar = ⟨[], none⟩ := by
          simp [bar, setTabs, nobody, here, uniqueTabs, tabs]
        rw [nothing, same]
        exact ⟨⟨List.nodup_nil, fun _ selected => by cases selected⟩, by simp⟩
  files path tab := exist path (mem_uniqueTabs.mp tab)

theorem renamedItem_of_inState (override : Bool)
    (bar : ∃ tab : Text → Text, (self.renameInState oldPath newPath).bar =
      ⟨self.tabs.map tab, self.explorer.currentIndex⟩)
    (exist : ∀ path ∈ (self.renameInState oldPath newPath).tabs,
      ((self.renameInState oldPath newPath).files.content path).isSome = true)
    (distinct : override = false → (self.renameInState oldPath newPath).tabs.Nodup)
    (selection : self.bar.Selection) : (self.renamedItem oldPath newPath override).TabInvariant := by
  obtain ⟨tab, bar⟩ := bar
  generalize stateIs : self.renameInState oldPath newPath = state at bar exist distinct
  have tabs : state.tabs = self.tabs.map tab := congrArg TabBar.tabs bar
  have index : state.explorer.currentIndex = self.explorer.currentIndex :=
    congrArg TabBar.currentIndex bar
  have valid : ∀ index, state.explorer.currentIndex = some index → index < state.tabs.length := by
    intro place here
    rw [index] at here
    rw [tabs, List.length_map]
    exact selection.valid place here
  have current : state.explorer.currentIndex.isSome = true ↔ state.tabs ≠ [] := by
    rw [index, tabs, Ne, List.map_eq_nil_iff]
    exact selection.current
  have inv : (if override then state.setTabs state.tabs else state).TabInvariant := by
    cases override with
    | true => exact setTabs_self_invariant valid current exist
    | false => exact ⟨⟨⟨distinct rfl, valid⟩, current⟩, exist⟩
  simp only [renamedItem, stateIs]
  exact inv.congr rfl fun _ _ => rfl

theorem renamedItem_invariant (inv : self.TabInvariant) (safe : self.RenamesSafely oldPath newPath)
    (types : getItemTypeFromPath oldPath = getItemTypeFromPath newPath) (override : Bool)
    (vacant : override = false → getItemTypeFromPath oldPath = .file →
      self.files.item newPath = none) :
    (self.renamedItem oldPath newPath override).TabInvariant := by
  cases type : getItemTypeFromPath oldPath with
  | file =>
      simp only [RenamesSafely, type, List.mem_cons, not_or] at safe
      obtain ⟨⟨notNew, notTab⟩, hasContent⟩ := safe
      have stateIs : self.renameInState oldPath newPath =
          (self.renamePath oldPath newPath).setFiles
            ((self.renamePath oldPath newPath).files.addFolder (getParentPathFromPath oldPath)) := by
        simp only [renameInState, type]
      have bar : (self.renameInState oldPath newPath).bar =
          ⟨self.tabs.map (renamed oldPath newPath), self.explorer.currentIndex⟩ := by
        rw [stateIs, setFiles_bar, renamePath_bar inv.distinct, if_pos (types ▸ type)]
      have tabs : (self.renameInState oldPath newPath).tabs =
          self.tabs.map (renamed oldPath newPath) := congrArg TabBar.tabs bar
      refine renamedItem_of_inState override ⟨_, bar⟩ ?_ ?_ inv.toSelection
      · intro path member
        rw [tabs] at member
        obtain ⟨tab, before, same⟩ := List.mem_map.mp member
        rw [stateIs, setFiles_files, ExplorerFiles.content_addFolder, renamePath_files,
          ExplorerFiles.content_set, ExplorerFiles.content_erase]
        have oldContent : path = newPath → (self.files.content oldPath).isSome = true := by
          rintro rfl
          rw [renamed] at same
          split_ifs at same with here
          · exact here ▸ inv.files tab before
          · exact hasContent (same ▸ before)
        by_cases new : path = newPath
        · have notParent : path ≠ getParentPathFromPath oldPath := fun parent =>
            notNew (parent.symm.trans new)
          rw [if_neg notParent, if_pos new]
          exact oldContent new
        · rw [renamed] at same
          split_ifs at same with here
          · exact absurd same.symm new
          · subst same
            have notParent : tab ≠ getParentPathFromPath oldPath := fun parent =>
              notTab (parent ▸ before)
            rw [if_neg notParent, if_neg new, if_neg here]
            exact inv.files tab before
      · intro noOverride
        rw [tabs]
        refine nodup_map_renamed inv.distinct fun member => ?_
        have found := inv.files newPath member
        rw [ExplorerFiles.content, vacant noOverride type] at found
        cases found
  | folder =>
      simp only [RenamesSafely, type] at safe
      obtain ⟨free, fileTabs⟩ := safe
      have stateIs : self.renameInState oldPath newPath =
          OrderedMap.forIn files (renameTurn oldPath newPath) self := by
        simp only [renameInState, type]
      obtain ⟨held, bar, distinct, -⟩ :=
        renameLoop_spec free inv.distinct fun tab member => inv.mem_keys member
      rw [← stateIs] at held bar distinct
      have tabs : (self.renameInState oldPath newPath).tabs =
          self.tabs.map (movedTab oldPath newPath (gone self.files oldPath)) :=
        congrArg TabBar.tabs bar
      refine renamedItem_of_inState override ⟨_, bar⟩ ?_ (fun _ => distinct) inv.toSelection
      intro path member
      rw [tabs] at member
      obtain ⟨tab, before, same⟩ := List.mem_map.mp member
      have content := inv.files tab before
      rw [ExplorerFiles.content, held]
      rw [movedTab] at same
      split_ifs at same with moved
      · have here : movedTo (gone self.files oldPath) oldPath newPath path = some tab := by
          cases found : movedTo (gone self.files oldPath) oldPath newPath path with
          | none =>
              have missing := List.find?_eq_none.mp found tab moved.1
              simp [same] at missing
          | some other =>
              obtain ⟨inGone, atOther⟩ := movedTo_eq_some found
              rw [free.injective inGone moved.1 (atOther.trans same.symm)]
        simp only [here]
        exact content
      · subst same
        have notBelow : tab.startsWith oldPath ≠ true := by
          intro below
          exact moved ⟨List.mem_filter.mpr ⟨inv.mem_keys before, below⟩, fileTabs tab before below⟩
        have unmoved := free.movedTo_eq_none (fun _ member => member) (inv.mem_keys before)
        simp only [unmoved, if_neg notBelow]
        exact content

end PgExplorer
end Solpg.Client.Utils
