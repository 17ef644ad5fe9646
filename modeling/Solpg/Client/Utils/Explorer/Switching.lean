import Solpg.Client.Utils.Explorer.Loading

/-!
# A switch of the workspace keeps the tabs in order

When the metadata that the switch loads has visible files for tabs, one of them
the current file.
-/

namespace Solpg.Client.Utils

open Solpg.Std

variable {fs : LightningFs} {disk : Disk fs} {self : PgExplorer} {name : Text} {tree : Tree}
  {browser : Browser}

/-- What is to be a tab: a file that the explorer shows of the workspace. -/
def IsVisibleFile (tree : Tree) (name path : Text) : Prop :=
  ∃ rest content, Visible rest ∧ path = itemPath (name :: rest) ∧
    tree.node (name :: rest) = some (.file content)

/-- The metadata that a switch to the workspace finds: it has just been saved if
the workspace is the current one. -/
def switchMeta (browser : Browser) (self : PgExplorer) (tree : Tree) (name : Text) :
    List ItemMetaEntry :=
  match self.savedMeta with
  | .ok (some entries) =>
      if self.workspaces.currentName = some name then
        (browser.parseMetaFile (browser.stringifyMetaFile entries)).getD []
      else storedMeta browser tree name
  | _ => storedMeta browser tree name

/-- The file to open after the switch. -/
def openAfter (defaultOpenFile : Option Text) : Option Text := defaultOpenFile.filter (!·.isEmpty)

/-- The switch is to a workspace whose directory can be read, and its metadata
has files for tabs, one of them current unless another file is opened. -/
structure SwitchesSafely (browser : Browser) (state : PgExplorer) (disk : Disk fs) (name : Text)
    (defaultOpenFile : Option Text) : Prop where
  sound : disk.Sound
  stored : state.isTemporary = false
  hasWorkspace : state.hasWorkspace = true
  known : name ∈ state.workspaces.allNames
  isName : UnixPath.IsName name
  valid : isItemNameValid name = true
  currentName : ∀ current, state.workspaces.currentName = some current → current ≠ [] →
    UnixPath.IsName current
  directory : disk.tree.node [name] = some .directory
  readable : disk.tree.node (metadataPlace name) ≠ some .directory
  tabs : ∀ path ∈ tabPaths (fullPaths name (switchMeta browser state disk.tree name)),
    IsVisibleFile disk.tree name path
  selected : SelectsTab (fullPaths name (switchMeta browser state disk.tree name)) ∨
    (openAfter defaultOpenFile).isSome = true
  opened : ∀ path, openAfter defaultOpenFile = some path →
    IsVisibleFile disk.tree name (pathIn name path)

/-- What a switch to the workspace still finds after it has saved other things. -/
structure StillThere (name : Text) (old new : Tree) : Prop where
  directory : new.node [name] = old.node [name]
  visible : ∀ first rest, isItemNameValid first = true →
    new.node (name :: first :: rest) = old.node (name :: first :: rest)

theorem stillThere_of_sameOutside {top : List Text} {old new : Tree}
    (same : SameOutside top old new)
    (apart : ¬ top <+: [name]) (notVisible : ∀ first rest, isItemNameValid first = true →
      ¬ top <+: name :: first :: rest) : StillThere name old new where
  directory := same _ apart
  visible first rest valid := same _ (notVisible first rest valid)

theorem StillThere.trans {first second third : Tree} (before : StillThere name first second)
    (after : StillThere name second third) : StillThere name first third where
  directory := after.directory.trans before.directory
  visible other rest valid := (after.visible other rest valid).trans (before.visible other rest valid)

/-- Without the name of a workspace no metadata is saved. -/
theorem savedMeta_of_nameless (nameless : self.workspaces.currentName = none ∨
    self.workspaces.currentName = some []) (entries : List ItemMetaEntry) :
    self.savedMeta ≠ .ok (some entries) := by
  have missing : ∃ error, self.getRequiredCurrentWorkspacePath = .error error := by
    rw [PgExplorer.getRequiredCurrentWorkspacePath]
    split
    · exact ⟨_, rfl⟩
    · obtain none_ | empty := nameless
      · exact ⟨_, by rw [none_]⟩
      · exact ⟨_, by rw [empty]⟩
  obtain ⟨error, missing⟩ := missing
  rw [PgExplorer.savedMeta]
  split
  · exact fun saved => by cases saved
  · rw [missing]
    exact fun saved => by cases saved

theorem not_config_of_valid (valid : isItemNameValid name = true) (rest : List Text) :
    ¬ [".config".toList] <+: name :: rest := by
  intro within
  obtain ⟨rfl, -⟩ := List.cons_prefix_cons.mp within
  exact absurd valid (by decide)

/-- What the save before a switch leaves to the switch. -/
structure LeavesMeta (browser : Browser) (self : PgExplorer) (name : Text) (old new : Tree) : Prop where
  still : StillThere name old new
  readable : new.node (metadataPlace name) ≠ some .directory
  stored : storedMeta browser new name = switchMeta browser self old name

/-- Saving the metadata before the switch to a workspace. -/
def SavesBefore (browser : Browser) (self : PgExplorer) (name : Text) (disk : Disk fs) : Prop :=
  (PgExplorer.saveMeta browser).Ensures (Interference.nobody.setting fs True) self disk
    fun result self' disk' => self' = self ∧ disk'.Tolerable 0 ∧
      (result = .ok () → LeavesMeta browser self name disk.tree disk'.tree)

/-- Where nothing is saved, the switch finds what is there. -/
theorem leavesMeta_of_unsaved {tree : Tree} (readable : tree.node (metadataPlace name) ≠ some .directory)
    (unsaved : ∀ entries, self.savedMeta ≠ .ok (some entries)) :
    LeavesMeta browser self name tree tree := by
  refine ⟨⟨rfl, fun _ _ _ => rfl⟩, readable, ?_⟩
  rw [switchMeta]
  split
  next entries saved => exact absurd saved (unsaved entries)
  next => rfl

/-- Without a current workspace the save leaves everything alone. -/
theorem saveMeta_nameless (sound : disk.Tolerable 0)
    (readable : disk.tree.node (metadataPlace name) ≠ some .directory)
    (nameless : self.workspaces.currentName = none ∨ self.workspaces.currentName = some []) :
    SavesBefore browser self name disk := by
  have unsaved := savedMeta_of_nameless nameless
  rw [SavesBefore, PgExplorer.saveMeta, Async.ensures_bind, PgM.ensures_sync]
  cases saved : self.savedMeta with
  | error error => exact ⟨rfl, sound, fun failed => by cases failed⟩
  | ok entries =>
      cases entries with
      | none => exact ⟨rfl, sound, fun _ => leavesMeta_of_unsaved readable unsaved⟩
      | some entries => exact absurd saved (unsaved entries)

/-- The switch to the workspace that is open finds the metadata that was just saved. -/
theorem saveMeta_same (sound : disk.Tolerable 0) (here : self.context.At name)
    (directory : disk.tree.node [name] = some .directory)
    (readable : disk.tree.node (metadataPlace name) ≠ some .directory) :
    SavesBefore browser self name disk := by
  have named : self.workspaces.currentName = some name := here.current
  have hidden : ∀ first rest, isItemNameValid first = true →
      ¬ [name, ".workspace".toList] <+: name :: first :: rest := by
    intro first rest valid within
    simp only [List.cons_prefix_cons, true_and] at within
    obtain ⟨rfl, -⟩ := within
    exact absurd valid (by decide)
  have existing : ∀ place, place <+: [name, ".workspace".toList] →
      ¬ [name, ".workspace".toList] <+: place → (disk.tree.node place).isSome = true := by
    intro place within outside
    rcases List.prefix_cons_iff.mp within with root | ⟨rest, rfl, deeper⟩
    · rw [root, disk.tree.root]
      rfl
    · rcases List.prefix_cons_iff.mp deeper with folder | ⟨rest, rfl, -⟩
      · rw [folder, directory]
        rfl
      · exact absurd ⟨rest, rfl⟩ outside
  refine (saveMeta_framed browser here sound ⟨["metadata.json".toList], rfl⟩ existing).mono ?_
  rintro result _ disk' ⟨rfl, ⟨left, outside⟩, saved⟩
  refine ⟨rfl, left, fun done => ?_⟩
  cases meta_ : PgExplorer.savedMeta _ with
  | error error =>
      rw [meta_] at saved
      rw [saved]
      exact leavesMeta_of_unsaved readable (by simp [meta_])
  | ok entries =>
      cases entries with
      | none =>
          rw [meta_] at saved
          rw [saved]
          exact leavesMeta_of_unsaved readable (by simp [meta_])
      | some entries =>
          rw [meta_] at saved
          have file := saved done
          refine ⟨stillThere_of_sameOutside outside ?_ hidden, ?_, ?_⟩
          · exact fun within => absurd within.length_le (by simp)
          · rw [file]
            exact fun directory => by cases directory
          · rw [switchMeta, meta_, storedMeta]
            simp [DirectoryTree.content, file, named]

/-- The save of another workspace leaves the metadata of this one alone. -/
theorem saveMeta_other {current : Text} (sound : disk.Tolerable 0)
    (here : self.context.At current) (other : current ≠ name)
    (readable : disk.tree.node (metadataPlace name) ≠ some .directory) :
    SavesBefore browser self name disk := by
  have named : self.workspaces.currentName = some current := here.current
  have apart : ∀ rest, ¬ [current] <+: name :: rest := fun rest within =>
    other (List.cons_prefix_cons.mp within).1
  have existing : ∀ place, place <+: [current, ".workspace".toList] →
      ¬ [current] <+: place → (disk.tree.node place).isSome = true := by
    intro place within outside
    rcases List.prefix_cons_iff.mp within with root | ⟨rest, rfl, -⟩
    · rw [root, disk.tree.root]
      rfl
    · exact absurd (List.cons_prefix_cons.mpr ⟨rfl, List.nil_prefix⟩) outside
  refine (saveMeta_framed browser here sound (List.prefix_append [current] _) existing).mono ?_
  rintro result _ disk' ⟨rfl, ⟨left, outside⟩, saved⟩
  refine ⟨rfl, left, fun done => ?_⟩
  have metadata := outside (metadataPlace name) (apart _)
  refine ⟨stillThere_of_sameOutside outside (apart _) fun _ _ _ => apart _, ?_, ?_⟩
  · rw [metadata]
    exact readable
  · have stored : storedMeta browser disk'.tree name = storedMeta browser disk.tree name := by
      rw [storedMeta, storedMeta, DirectoryTree.content, DirectoryTree.content, metadata]
    rw [stored, switchMeta]
    split
    · rw [if_neg (by simp [named, other])]
    · rfl

/-- Saving the metadata before the switch. -/
theorem saveMeta_before {defaultOpenFile : Option Text}
    (safe : SwitchesSafely browser self disk name defaultOpenFile) :
    SavesBefore browser self name disk := by
  have sound := Disk.sound_iff.mp safe.sound
  by_cases nameless : self.workspaces.currentName = none ∨ self.workspaces.currentName = some []
  · exact saveMeta_nameless sound safe.readable nameless
  · obtain ⟨current, named⟩ : ∃ current, self.workspaces.currentName = some current := by
      cases named : self.workspaces.currentName with
      | none => exact absurd (.inl named) nameless
      | some current => exact ⟨current, rfl⟩
    have nonempty : current ≠ [] := by
      rintro rfl
      exact nameless (.inr named)
    have here : self.context.At current :=
      ⟨safe.stored, safe.hasWorkspace, named, safe.currentName current named nonempty⟩
    by_cases same : current = name
    · exact saveMeta_same sound (same ▸ here) safe.directory safe.readable
    · exact saveMeta_other sound here same safe.readable

/-- The metadata of the workspace and its files are loaded. -/
structure Initialized (browser : Browser) (tree : Tree) (name : Text) (state : PgExplorer) :
    Prop where
  here : state.context.At name
  bar : state.bar = metadataBar (fullPaths name (storedMeta browser tree name))
  content : ∀ path, IsVisibleFile tree name path → (state.files.content path).isSome = true

theorem initCurrentWorkspace_initialized {fuel : Nat} (browser : Browser)
    (here : self.context.At name) (known : name ∈ self.workspaces.allNames)
    (sound : disk.Tolerable 0) (directory : disk.tree.node [name] = some .directory)
    (readable : disk.tree.node (metadataPlace name) ≠ some .directory) :
    (PgExplorer.initCurrentWorkspace browser fuel).Ensures (Interference.nobody.setting fs True) self
      disk fun result self' disk' => result = .ok () ∧ disk'.Tolerable 0 ∧
        disk'.tree = disk.tree ∧ Initialized browser disk.tree name self' := by
  cases fuel with
  | zero => trivial
  | succ fuel =>
      have areNames : UnixPath.AreNames [name] := by
        intro other member
        rw [List.mem_singleton.mp member]
        exact here.isName
      rw [PgExplorer.initCurrentWorkspace, Async.ensures_bind, PgM.ensures_sync,
        requiredPath_of_at here, either_ok, Async.ensures_bind, Async.ensures_modify, either_ok,
        Async.ensures_bind, Async.ensures_tryCatch, Async.ensures_bind]
      refine (setupFiles_loads sound areNames (by simp) (.inr rfl) directory).mono ?_
      rintro result loaded disk' ⟨rfl, left, tree, loads⟩
      have hereLoaded : loaded.context.At name := by
        rw [loads.context]
        exact ⟨here.stored, here.hasWorkspace, here.current, here.isName⟩
      have knownLoaded : name ∈ loaded.workspaces.allNames := by
        have same : loaded.workspaces = self.workspaces := congrArg Context.workspaces loads.context
        rw [same]
        exact known
      have some_ : loaded.workspaces.allNames.isEmpty = false := by
        rw [List.isEmpty_eq_false_iff]
        exact List.ne_nil_of_mem knownLoaded
      simp only [either_ok, Async.ensures_pure, Async.ensures_bind, Async.ensures_get, Bool.false_and,
        Bool.false_eq_true, if_false, some_, Bool.and_false]
      refine (loadMetadata_loads browser hereLoaded left (tree ▸ readable)).mono ?_
      rintro result self' disk'' ⟨rfl, rfl, left, tree'⟩
      refine ⟨rfl, left, tree'.trans tree, ⟨hereLoaded, by rw [tree]; rfl, ?_⟩⟩
      rintro path ⟨rest, content, visible, rfl, found⟩
      rw [loadedMetadata_content, ExplorerFiles.content]
      have item := loads.loaded rest content visible found
      rw [List.singleton_append] at item
      rw [item]
      rfl

theorem isVisibleFile_of_still {old new : Tree} {path : Text} (still : StillThere name old new)
    (directory : old.node [name] = some .directory) (visible : IsVisibleFile old name path) :
    IsVisibleFile new name path := by
  obtain ⟨rest, content, shown, rfl, found⟩ := visible
  cases rest with
  | nil =>
      rw [directory] at found
      cases found
  | cons first rest =>
      refine ⟨first :: rest, content, shown, rfl, ?_⟩
      rw [still.visible first rest (shown first List.mem_cons_self).2]
      exact found

/-- After the switch the tabs are visible files. -/
theorem Initialized.invariant {state : PgExplorer} {entries : List ItemMetaEntry}
    (initialized : Initialized browser tree name state)
    (same : fullPaths name (storedMeta browser tree name) = entries)
    (tabs : ∀ path ∈ tabPaths entries, IsVisibleFile tree name path) (selects : SelectsTab entries) :
    state.TabInvariant where
  toSelection := by
    rw [initialized.bar, same]
    exact metadataBar_selection selects
  files path tab := by
    rw [← PgExplorer.bar_tabs, initialized.bar, same] at tab
    exact initialized.content path (tabs path (PgExplorer.mem_uniqueTabs.mp tab))

/-- Opening a file after the switch selects it, whatever the metadata says. -/
theorem Initialized.openFileAt_invariant {state : PgExplorer} {entries : List ItemMetaEntry}
    {path : Text} (initialized : Initialized browser tree name state)
    (same : fullPaths name (storedMeta browser tree name) = entries)
    (tabs : ∀ path ∈ tabPaths entries, IsVisibleFile tree name path)
    (opened : IsVisibleFile tree name path) : (state.openFileAt path).TabInvariant := by
  have bar := initialized.bar
  have distinct : state.tabs.Nodup := by
    rw [← PgExplorer.bar_tabs, bar]
    exact (metadataBar_valid _).distinct
  refine ⟨PgExplorer.openFileAt_selection distinct, fun other tab => ?_⟩
  rw [PgExplorer.openFileAt_tabs distinct, PgExplorer.mem_openedTabs] at tab
  rw [PgExplorer.openFileAt_files]
  obtain rfl | before := tab
  · exact initialized.content other opened
  · rw [← PgExplorer.bar_tabs, bar, same] at before
    exact initialized.content other (tabs other (PgExplorer.mem_uniqueTabs.mp before))

theorem switchWorkspace_invariant {fuel : Nat} {defaultOpenFile : Option Text}
    (inv : self.TabInvariant) (safe : SwitchesSafely browser self disk name defaultOpenFile) :
    (PgExplorer.switchWorkspace browser fuel name defaultOpenFile).Ensures
      (Interference.nobody.setting fs True) self disk fun _ self' _ => self'.TabInvariant := by
  rw [PgExplorer.switchWorkspace]
  refine (saveMeta_before safe).bind ?_ ?_
  swap
  · rintro error _ disk₁ ⟨rfl, -, -⟩
    exact inv
  rintro _ state disk₁ ⟨rfl, left₁, saved⟩
  obtain ⟨still, readable, entries⟩ := saved rfl
  obtain ⟨renamed, named, invNamed, here, known⟩ : ∃ renamed, state.setWorkspaceName name =
      .ok renamed ∧ renamed.TabInvariant ∧ renamed.context.At name ∧
        name ∈ renamed.workspaces.allNames := by
    rw [PgExplorer.setWorkspaceName, if_pos safe.hasWorkspace, PgExplorer.setCurrentName,
      if_pos safe.known]
    exact ⟨_, rfl, inv.congr rfl fun _ _ => rfl,
      ⟨safe.stored, safe.hasWorkspace, rfl, safe.isName⟩, safe.known⟩
  rw [Async.ensures_bind, PgM.ensures_change, named]
  simp only [either_ok]
  refine (saveWorkspaces_framed browser left₁).bind ?_ ?_
  swap
  · rintro error _ disk₂ ⟨rfl, -⟩
    exact invNamed
  rintro _ _ disk₂ ⟨rfl, left₂, outside⟩
  have still₂ : StillThere name disk₁.tree disk₂.tree :=
    stillThere_of_sameOutside outside (not_config_of_valid safe.valid [])
      fun _ _ _ => not_config_of_valid safe.valid _
  have metadata : disk₂.tree.node (metadataPlace name) = disk₁.tree.node (metadataPlace name) :=
    outside _ (not_config_of_valid safe.valid _)
  have storedSame : storedMeta browser disk₂.tree name = switchMeta browser state disk.tree name := by
    rw [← entries, storedMeta, storedMeta, DirectoryTree.content, DirectoryTree.content, metadata]
  have whole := still.trans still₂
  have visible : ∀ path, IsVisibleFile disk.tree name path → IsVisibleFile disk₂.tree name path :=
    fun path => isVisibleFile_of_still whole safe.directory
  refine (initCurrentWorkspace_initialized browser here known left₂
    (whole.directory.trans safe.directory) (metadata ▸ readable)).bind ?_ ?_
  swap
  · rintro error _ disk₃ ⟨failed, -⟩
    cases failed
  rintro _ loaded disk₃ ⟨-, left₃, tree, initialized⟩
  have tabs := fun path member => visible path (safe.tabs path member)
  have same := congrArg (fullPaths name) storedSame
  cases opens : openAfter defaultOpenFile with
  | none =>
      have selects := safe.selected.resolve_right (by simp [opens])
      have done := initialized.invariant same tabs selects
      have skipped : defaultOpenFile.filter (fun path => !path.isEmpty) = none := opens
      simp only [skipped]
      exact done.congr rfl fun _ _ => rfl
  | some path =>
      have opened := visible _ (safe.opened path opens)
      have done := initialized.openFileAt_invariant same tabs opened
      have taken : defaultOpenFile.filter (fun path => !path.isEmpty) = some path := opens
      have full := convertToFullPath_of_at initialized.here path
      simp only [taken, Async.ensures_bind, PgM.ensures_change, PgExplorer.openFile, full,
        Except.map, either_ok]
      have here : (loaded.openFileAt (pathIn name path)).context.At name := by
        rw [PgExplorer.openFileAt_context]
        exact initialized.here
      refine (saveMeta_framed browser here left₃ List.nil_prefix ?_).mono ?_
      · intro place _ outside
        exact absurd List.nil_prefix outside
      · rintro (error | _) _ disk₄ ⟨rfl, -, -⟩
        · exact done
        · exact done.congr rfl fun _ _ => rfl

end Solpg.Client.Utils
