import Solpg.Client.Utils.Explorer.Preserving
import Solpg.Client.Utils.Explorer.Session

/-!
# Entering a workspace

What a switch to a workspace does, part by part: it saves in the folders that the explorer
keeps for itself and spares what else the store has of any workspace, and it shows what the
metadata of the new workspace says.
-/

namespace Solpg.Client.Utils

open Solpg.Std PgCommon PgExplorer

variable {fs : LightningFs} {cutOff : Prop} {disk : Disk fs} {self : PgExplorer}
  {browser : Browser} {name : Text} {place other top : List Text} {old new : Tree} {depth fuel : Nat}

/-! ## The folders of the explorer -/

/-- The place of a workspace is none of the folders that the explorer keeps for itself. -/
structure Unreserved (place : List Text) : Prop where
  inside : place ≠ []
  notConfig : ¬ [".config".toList] <+: place
  notMetadata : ".workspace".toList ∉ place

/-- The files of a workspace are still there, whatever is in them. -/
structure SparesFiles (place : List Text) (old new : Tree) : Prop where
  directory : old.node place = some .directory → new.node place = some .directory
  files : ∀ rest, Visible rest → (old.content (place ++ rest)).isSome = true →
    (new.content (place ++ rest)).isSome = true

/-- The folder of the metadata is as it was. -/
def SparesMetadata (place : List Text) (old new : Tree) : Prop :=
  ∀ rest, new.node (place ++ [".workspace".toList] ++ rest) =
    old.node (place ++ [".workspace".toList] ++ rest)

/-- Two changes that spare the files spare them together. -/
theorem SparesFiles.trans {middle : Tree} (first : SparesFiles place old middle)
    (second : SparesFiles place middle new) : SparesFiles place old new where
  directory found := second.directory (first.directory found)
  files rest visible found := second.files rest visible (first.files rest visible found)

/-- Two changes that spare the metadata spare it together. -/
theorem SparesMetadata.trans {middle : Tree} (first : SparesMetadata place old middle)
    (second : SparesMetadata place middle new) : SparesMetadata place old new :=
  fun rest => (second rest).trans (first rest)

/-- The folder of the metadata is not shown. -/
theorem not_mem_of_visible {rest : List Text} (visible : Visible rest) :
    ".workspace".toList ∉ rest :=
  fun member => absurd (visible _ member).2 (by decide)

/-- The place of a name that comes once is known from what follows it. -/
theorem eq_of_prefix_concat {folder : Text} {first second rest : List Text}
    (notFirst : folder ∉ first) (notSecond : folder ∉ second)
    (within : first ++ [folder] <+: second ++ [folder] ++ rest) : first = second := by
  induction first generalizing second with
  | nil =>
      cases second with
      | nil => rfl
      | cons name second =>
          obtain ⟨same, -⟩ := List.cons_prefix_cons.mp within
          exact absurd (same ▸ List.mem_cons_self) notSecond
  | cons name first ih =>
      rw [List.mem_cons, not_or] at notFirst
      cases second with
      | nil =>
          obtain ⟨same, -⟩ := List.cons_prefix_cons.mp within
          exact absurd same.symm notFirst.1
      | cons other second =>
          rw [List.mem_cons, not_or] at notSecond
          obtain ⟨same, deeper⟩ := List.cons_prefix_cons.mp within
          rw [same, ih notFirst.2 notSecond.2 deeper]

/-- The folder of the metadata of a workspace is in no other one. -/
theorem not_below_metadata (unreserved : Unreserved place) (unreservedOther : Unreserved other)
    (different : other ≠ place) (rest : List Text) :
    ¬ place ++ [".workspace".toList] <+: other ++ [".workspace".toList] ++ rest := fun within =>
  different (eq_of_prefix_concat unreserved.notMetadata unreservedOther.notMetadata within).symm

/-- An unreserved place is apart from the configuration. -/
theorem Unreserved.not_below_config (unreserved : Unreserved place) (rest : List Text) :
    ¬ [".config".toList] <+: place ++ rest := by
  obtain ⟨first, tail, rfl⟩ := List.exists_cons_of_ne_nil unreserved.inside
  intro within
  obtain ⟨rfl, -⟩ := List.cons_prefix_cons.mp within
  exact unreserved.notConfig (List.cons_prefix_cons.mpr ⟨rfl, List.nil_prefix⟩)

/-- A change apart from all visible files spares them. -/
theorem sparesFiles_of_sameOutside (same : SameOutside top old new)
    (apart : ∀ rest, Visible rest → ¬ top <+: place ++ rest) : SparesFiles place old new where
  directory found := by
    have outside := apart [] nofun
    rw [List.append_nil] at outside
    rw [same place outside]
    exact found
  files rest visible found := by
    rw [DirectoryTree.content, same _ (apart rest visible)]
    exact found

/-- Between two trees only the metadata of the workspace and the list of workspaces differ. -/
structure SavedOnly (place : List Text) (old new : Tree) : Prop where
  files : ∀ other, Unreserved other → SparesFiles other old new
  metadata : ∀ other, Unreserved other → other ≠ place → SparesMetadata other old new

/-- Two saves are a save. -/
theorem SavedOnly.trans {middle : Tree} (first : SavedOnly place old middle)
    (second : SavedOnly place middle new) : SavedOnly place old new where
  files _ unreserved := (first.files _ unreserved).trans (second.files _ unreserved)
  metadata _ unreserved different :=
    (first.metadata _ unreserved different).trans (second.metadata _ unreserved different)

/-- A change in the metadata of a workspace is a save. -/
theorem savedOnly_of_metadata (unreserved : Unreserved place)
    (same : SameOutside (place ++ [".workspace".toList]) old new) : SavedOnly place old new where
  files other unreservedOther := by
    refine sparesFiles_of_sameOutside same fun rest visible within => ?_
    have member : ".workspace".toList ∈ other ++ rest :=
      within.subset (List.mem_append_right _ (List.mem_singleton_self _))
    exact (List.mem_append.mp member).elim unreservedOther.notMetadata (not_mem_of_visible visible)
  metadata other unreservedOther different rest :=
    same _ (not_below_metadata unreserved unreservedOther different rest)

/-- A change of the configuration spares the metadata. -/
theorem sparesMetadata_of_config (unreserved : Unreserved place)
    (same : SameOutside [".config".toList] old new) : SparesMetadata place old new := by
  intro rest
  refine same _ ?_
  rw [List.append_assoc]
  exact unreserved.not_below_config _

/-- A change of the configuration is a save. -/
theorem savedOnly_of_config (same : SameOutside [".config".toList] old new) :
    SavedOnly place old new where
  files _ unreserved :=
    sparesFiles_of_sameOutside same fun rest _ => unreserved.not_below_config rest
  metadata _ unreserved _ := sparesMetadata_of_config unreserved same

/-- Spared metadata reads as before. -/
theorem SparesMetadata.stored (spares : SparesMetadata place old new) (browser : Browser) :
    storedMetaAt browser new place = storedMetaAt browser old place := by
  have file := spares ["metadata.json".toList]
  rw [metadataOf_eq] at file
  rw [storedMetaAt, storedMetaAt, DirectoryTree.content, DirectoryTree.content, file]

/-- Spared metadata can still be written. -/
theorem SparesMetadata.writable (spares : SparesMetadata place old new)
    (files : SparesFiles place old new) (writable : WritableMetaAt old place) :
    WritableMetaAt new place where
  directory := files.directory writable.directory
  noFile := by
    have folder := spares []
    rw [List.append_nil] at folder
    rw [DirectoryTree.content, folder]
    exact writable.noFile
  free := by
    rw [spares ["metadata.json".toList]]
    exact writable.free

/-! ## Saving -/

/-- What is saved of the workspace and of the list has its room in the store, and the store is
not deeper than a bound. -/
structure Roomy (depth : Nat) (place : List Text) (tree : Tree) : Prop where
  metadata : WritableMetaAt tree place
  config : WritableConfig tree
  shallow : ∀ path, (tree.node path).isSome = true → path.length < depth
  deep : place.length + 2 < depth

/-- A tree that has grown to a short path stays shallow. -/
theorem Roomy.shallow_of_grown {target : List Text} (roomy : Roomy depth place old)
    (grown : GrownTo target old new) (short : target.length < depth) :
    ∀ path, (new.node path).isSome = true → path.length < depth := by
  intro path exists_
  obtain before | within := grown path exists_
  · exact roomy.shallow path before
  · exact within.length_le.trans_lt short

/-- What is not above the folder of some metadata is not on the way to the list of workspaces. -/
theorem WritableConfig.spared (config : WritableConfig old)
    (same : SameOutside (place ++ [".workspace".toList]) old new) : WritableConfig new := by
  have apart : ∀ rest, ".workspace".toList ∉ rest → new.node rest = old.node rest := by
    intro rest absent
    refine same rest fun within => absent ?_
    exact within.subset (List.mem_append_right _ (List.mem_singleton_self _))
  have folder := apart [".config".toList] (by decide)
  have file := apart [".config".toList, "workspaces.json".toList] (by decide)
  refine ⟨?_, ?_, ?_⟩
  · exact new.root
  · change new.content [".config".toList] = none
    rw [DirectoryTree.content, folder]
    exact config.noFile
  · change new.node [".config".toList, "workspaces.json".toList] ≠ some .directory
    rw [file]
    exact config.free

/-- Another workspace still has its room. -/
theorem Roomy.elsewhere (roomy : Roomy depth place new) (before : Roomy depth other old)
    (saved : SavedOnly place old new) (unreserved : Unreserved other) (different : other ≠ place) :
    Roomy depth other new where
  metadata := (saved.metadata other unreserved different).writable (saved.files other unreserved)
    before.metadata
  config := roomy.config
  shallow := roomy.shallow
  deep := before.deep

/-- The metadata after `saveMeta`. -/
def metaAfter (browser : Browser) (saved : Option (List ItemMetaEntry)) (tree : Tree)
    (place : List Text) : List ItemMetaEntry :=
  match saved with
  | some entries => (browser.parseMetaFile (browser.stringifyMetaFile entries)).getD []
  | none => storedMetaAt browser tree place

/-- `saveMeta` on a store that does not fail stores the metadata and nothing else. -/
theorem saveMeta_saves {saved : Option (List ItemMetaEntry)} (here : self.context.In place)
    (unreserved : Unreserved place) (known : self.savedMeta = .ok saved) (sound : disk.Tolerable 0)
    (roomy : Roomy depth place disk.tree) :
    (saveMeta browser).Ensures (Interference.nobody.setting fs cutOff) self disk
      fun result self' disk' => result = .ok () ∧ self' = self ∧ disk'.Tolerable 0 ∧
        Roomy depth place disk'.tree ∧ SavedOnly place disk.tree disk'.tree ∧
        storedMetaAt browser disk'.tree place = metaAfter browser saved disk.tree place := by
  refine (saveMeta_writes here sound roomy.metadata).mono ?_
  rintro result self' disk' ⟨rfl, writable, outside, outcome⟩
  have savedOnly := savedOnly_of_metadata unreserved outside
  rw [known] at outcome
  cases saved with
  | none =>
      obtain ⟨rfl, rfl⟩ := outcome
      exact ⟨rfl, rfl, sound, roomy, savedOnly, rfl⟩
  | some entries =>
      cases result with
      | error error =>
          obtain ⟨fewer, less, -⟩ := outcome
          omega
      | ok done =>
          obtain ⟨left, grown, file⟩ := outcome
          refine ⟨rfl, rfl, left, ⟨writable, roomy.config.spared outside, ?_, roomy.deep⟩,
            savedOnly, ?_⟩
          · refine roomy.shallow_of_grown grown ?_
            simpa [metadataOf] using roomy.deep
          · simp [storedMetaAt, metaAfter, DirectoryTree.content, file]

/-! ## Entering -/

/-- The name of a workspace whose directory has that place. -/
structure IsWorkspace (name : Text) (place : List Text) : Prop extends Unreserved place where
  isNameOf : IsNameOf name place
  areNames : UnixPath.AreNames place

/-- The explorer has a workspace of that name in its list. -/
structure Context.Knows (context : Context) (name : Text) : Prop where
  stored : context.isTemporary = false
  hasWorkspace : context.hasWorkspace = true
  known : name ∈ context.workspaces.allNames

/-- The context after the switch to a workspace. -/
def Context.switched (context : Context) (name : Text) : Context :=
  { context with
    generation := context.generation + 1
    workspaces := setCurrentName name context.workspaces }

/-- After the switch a known name is the current one. -/
theorem Context.Knows.current {context : Context} (knows : context.Knows name) {name' : Text}
    (same : name' = name) : (setCurrentName name' context.workspaces).currentName = some name := by
  rw [same, setCurrentName, if_pos knows.known]

/-- The current workspace is the place that the context stands in. -/
theorem IsWorkspace.within {context : Context} (workspace : IsWorkspace name place)
    (knows : context.Knows name) (current : context.workspaces.currentName = some name) :
    context.In place :=
  ⟨knows.stored, knows.hasWorkspace, ⟨name, current, workspace.isNameOf⟩, workspace.areNames,
    workspace.inside⟩

/-- A switch keeps the list of workspaces. -/
theorem Context.allNames_switched (context : Context) (name : Text) :
    (context.switched name).workspaces.allNames = context.workspaces.allNames := by
  rw [switched, setCurrentName]
  split <;> rfl

/-- A switch forgets no workspace. -/
theorem Context.Knows.switched {context : Context} {other : Text} (knows : context.Knows other)
    (name : Text) : (context.switched name).Knows other where
  stored := knows.stored
  hasWorkspace := knows.hasWorkspace
  known := by
    rw [Context.allNames_switched]
    exact knows.known

/-- Setting an item keeps the keys in order. -/
theorem keyed_set {files : ExplorerFiles} (keyed : Keyed files) (path : Text) (item : ItemInfo) :
    Keyed (files.set path (some item)) := by
  intro key member
  rw [ExplorerFiles.item_set]
  split
  · rfl
  · next other => exact keyed key ((OrderedMap.mem_keys_set.mp member).resolve_left other)

/-- Loading a position keeps the keys in order. -/
theorem keyed_loadPosition {files : ExplorerFiles} (keyed : Keyed files) (entry : ItemMetaEntry) :
    Keyed (loadPosition files entry) := by
  rw [loadPosition]
  split
  · exact keyed_set keyed _ _
  · exact keyed

/-- Loading the metadata keeps the keys in order. -/
theorem keyed_loadedMetadata (keyed : Keyed self.files) (entries : List ItemMetaEntry) :
    Keyed (loadedMetadata entries self).files := by
  have loop : ∀ files : ExplorerFiles, Keyed files → Keyed (entries.foldl loadPosition files) := by
    induction entries with
    | nil => exact fun files keyed => keyed
    | cons entry rest ih => exact fun files keyed => ih _ (keyed_loadPosition keyed entry)
  exact loop self.files keyed

/-- Whatever the store does, the keys that are loaded hold items. -/
theorem setupFiles_keyed {path : Text} (keyed : Keyed self.files) :
    (setupFiles fuel path).Ensures (Interference.nobody.setting fs True) self disk
      fun _ self' _ => Keyed self'.files := by
  have kept : Preserves (fun self => Keyed self.files) (setupFiles fuel path) :=
    setupFiles_preserves fuel path fun _ path item keyed => keyed_set keyed path item
  exact kept fs self disk keyed

/-- What the explorer shows after it has entered the workspace. -/
structure Entered (browser : Browser) (tree : Tree) (place : List Text) (state : PgExplorer) :
    Prop where
  keyed : Keyed state.files
  bar : state.bar = metadataBar (fullPathsFrom place (storedMetaAt browser tree place))
  positions : ∀ rest, Visible rest → (tree.content (place ++ rest)).isSome = true →
    state.positionOf (itemPath (place ++ rest)) =
      metaPosition (fullPathsFrom place (storedMetaAt browser tree place)) (itemPath (place ++ rest))

/-- `initCurrentWorkspace` on a store that does not fail enters the workspace. -/
theorem initCurrentWorkspace_enters (here : self.context.In place)
    (known : self.workspaces.allNames ≠ []) (sound : disk.Tolerable 0)
    (roomy : Roomy depth place disk.tree) (enough : depth < fuel) :
    (initCurrentWorkspace browser fuel).Ensures (Interference.nobody.setting fs False) self disk
      fun result self' disk' => result = .ok () ∧ disk'.Tolerable 0 ∧ disk'.tree = disk.tree ∧
        self'.context = { self.context with generation := self.context.generation + 1 } ∧
        Entered browser disk.tree place self' := by
  cases fuel with
  | zero => exact absurd enough (Nat.not_lt_zero depth)
  | succ fuel =>
      have shallow : False ∨ ∀ path, (disk.tree.node path).isSome = true →
          path.length < place.length + fuel := by
        refine .inr fun path exists_ => ?_
        have := roomy.shallow path exists_
        omega
      rw [initCurrentWorkspace, Async.ensures_bind, PgM.ensures_sync, requiredPath_of_in here,
        either_ok, Async.ensures_bind, Async.ensures_modify, either_ok, Async.ensures_bind,
        Async.ensures_tryCatch, Async.ensures_bind]
      have empty : Keyed OrderedMap.empty := fun _ among => by cases among
      refine ((setupFiles_loads_within sound here.areNames here.inside (.inr rfl)
        roomy.metadata.directory shallow).and (setupFiles_keyed (by exact empty))).mono ?_
      rintro result loaded disk' ⟨⟨rfl, left, tree, loads⟩, keyed⟩
      have context : loaded.context =
          { self.context with generation := self.context.generation + 1 } := loads.context
      have hereLoaded : loaded.context.In place := by
        rw [context]
        exact ⟨here.stored, here.hasWorkspace, here.current, here.areNames, here.inside⟩
      have some_ : loaded.workspaces.allNames.isEmpty = false := by
        have same : loaded.workspaces = self.workspaces := congrArg Context.workspaces context
        rw [same]
        simpa using known
      simp only [either_ok, Async.ensures_pure, Async.ensures_bind, Async.ensures_get,
        Bool.false_and, Bool.false_eq_true, if_false, some_, Bool.and_false]
      have readable : disk'.tree.node (metadataOf place) ≠ some .directory := by
        rw [tree, ← metadataOf_eq]
        exact roomy.metadata.free
      refine (loadMetadata_loads_in browser hereLoaded left readable).mono ?_
      rintro result self' disk'' ⟨rfl, rfl, left, tree'⟩
      refine ⟨rfl, left, tree'.trans tree, context, ?_⟩
      rw [tree]
      refine ⟨keyed_loadedMetadata keyed _, rfl, fun rest visible found => ?_⟩
      obtain ⟨content, found⟩ := Option.isSome_iff_exists.mp found
      exact loadedMetadata_positionOf
        (loads.loaded rest content visible (DirectoryTree.content_eq_some.mp found)) _

/-- `switchWorkspace` after it has saved the metadata. -/
def enterWorkspace (browser : Browser) (fuel : Nat) (name : Text) (defaultOpenFile : Option Text) :
    PgM Unit := do
  PgM.change (setWorkspaceName name)
  saveWorkspaces browser
  initCurrentWorkspace browser fuel
  match defaultOpenFile.filter (!·.isEmpty) with
  | some path => do
      PgM.change (·.openFile path)
      saveMeta browser
  | none => modify fun self => self.dispatch (.openFile self.getCurrentFile)
  modify fun self => { self with initializedWorkspaceName := some name }.dispatch .switchWorkspace

/-- A switch saves the metadata and enters the workspace. -/
theorem switchWorkspace_eq (browser : Browser) (fuel : Nat) (name : Text)
    (defaultOpenFile : Option Text) : switchWorkspace browser fuel name defaultOpenFile =
      (do saveMeta browser; enterWorkspace browser fuel name defaultOpenFile) := rfl

/-- `saveWorkspaces` changes the configuration only. -/
theorem saveWorkspaces_saves (unreserved : Unreserved place) (sound : disk.Tolerable 0)
    (roomy : Roomy depth place disk.tree) :
    (saveWorkspaces browser).Ensures (Interference.nobody.setting fs cutOff) self disk
      fun result self' disk' => result = .ok () ∧ self' = self ∧ disk'.Tolerable 0 ∧
        Roomy depth place disk'.tree ∧ SavedOnly place disk.tree disk'.tree ∧
        storedMetaAt browser disk'.tree place = storedMetaAt browser disk.tree place := by
  refine (saveWorkspaces_writes sound roomy.config).mono ?_
  rintro result self' disk' ⟨rfl, rfl, left, config, outside, grown⟩
  have savedOnly : SavedOnly place disk.tree disk'.tree := savedOnly_of_config outside
  have spares := sparesMetadata_of_config unreserved outside
  refine ⟨rfl, rfl, left, ⟨spares.writable (savedOnly.files place unreserved) roomy.metadata,
    config, roomy.shallow_of_grown grown ?_, roomy.deep⟩, savedOnly, spares.stored browser⟩
  have deep := roomy.deep
  have inside := List.length_pos_of_ne_nil unreserved.inside
  simp only [List.length_cons, List.length_nil]
  omega

/-- To have entered depends on the explorer alone. -/
theorem Entered.congr {tree : Tree} {state other : PgExplorer}
    (entered : Entered browser tree place state) (explorer : other.explorer = state.explorer) :
    Entered browser tree place other := by
  have files : other.files = state.files := congrArg Explorer.files explorer
  have bar : other.bar = state.bar := by
    rw [PgExplorer.bar, PgExplorer.bar, PgExplorer.tabs, PgExplorer.tabs, explorer]
  refine ⟨files ▸ entered.keyed, bar.trans entered.bar, fun rest visible found => ?_⟩
  rw [positionOf, files]
  exact entered.positions rest visible found

/-- Entering the workspace shows what its metadata says, unless another file is opened. -/
theorem enterWorkspace_enters {defaultOpenFile : Option Text} (workspace : IsWorkspace name place)
    (knows : self.context.Knows name) (sound : disk.Tolerable 0)
    (roomy : Roomy depth place disk.tree) (enough : depth < fuel) :
    (enterWorkspace browser fuel name defaultOpenFile).Ensures
      (Interference.nobody.setting fs False) self disk fun result self' disk' =>
        result = .ok () ∧ disk'.Tolerable 0 ∧ self'.context = self.context.switched name ∧
        Keyed self'.files ∧ Roomy depth place disk'.tree ∧ SavedOnly place disk.tree disk'.tree ∧
        (defaultOpenFile = none → Entered browser disk.tree place self') := by
  have renamed : self.setWorkspaceName name =
      .ok { self with workspaces := setCurrentName name self.workspaces } :=
    if_pos knows.hasWorkspace
  rw [enterWorkspace, Async.ensures_bind, PgM.ensures_change, renamed]
  simp only [either_ok]
  refine (saveWorkspaces_saves workspace.toUnreserved sound roomy).bind ?_ ?_
  swap
  · rintro error _ disk₁ ⟨failed, -⟩
    cases failed
  rintro _ state disk₁ ⟨-, rfl, left₁, roomy₁, saved₁, stored₁⟩
  have here : Context.In
      { self with workspaces := setCurrentName name self.workspaces }.context place :=
    workspace.within ⟨knows.stored, knows.hasWorkspace, by
      change name ∈ (setCurrentName name self.workspaces).allNames
      rw [setCurrentName]
      split
      · exact knows.known
      · exact knows.known⟩ (knows.current rfl)
  have known : { self with workspaces := setCurrentName name self.workspaces }.workspaces.allNames ≠
      [] := by
    have same := Context.allNames_switched self.context name
    change (setCurrentName name self.workspaces).allNames ≠ []
    change (setCurrentName name self.workspaces).allNames = _ at same
    rw [same]
    exact List.ne_nil_of_mem knows.known
  refine (initCurrentWorkspace_enters here known left₁ roomy₁ enough).bind ?_ ?_
  swap
  · rintro error _ disk₂ ⟨failed, -⟩
    cases failed
  rintro _ loaded disk₂ ⟨-, left₂, tree, context, entered⟩
  have switched : loaded.context = self.context.switched name := context
  have entered : Entered browser disk.tree place loaded :=
    ⟨entered.keyed, stored₁ ▸ entered.bar, fun rest visible found => by
      have there := (saved₁.files place workspace.toUnreserved).files rest visible found
      rw [← stored₁]
      exact entered.positions rest visible there⟩
  cases opens : defaultOpenFile.filter (fun path => !path.isEmpty) with
  | none =>
      simp only [Async.ensures_bind, Async.ensures_modify, either_ok]
      exact ⟨trivial, left₂, switched, entered.keyed, tree ▸ roomy₁, tree ▸ saved₁,
        fun _ => entered.congr rfl⟩
  | some path =>
      have hereLoaded : (loaded.openFileAt (pathFrom place path)).context.In place := by
        rw [openFileAt_context, switched]
        exact workspace.within (knows.switched name) (knows.current rfl)
      have opened : loaded.openFile path = .ok (loaded.openFileAt (pathFrom place path)) := by
        rw [openFile, convertToFullPath_of_in]
        · rfl
        · rw [openFileAt_context] at hereLoaded
          exact hereLoaded
      have keyed : Keyed (loaded.openFileAt (pathFrom place path)).files := by
        rw [openFileAt_files]
        exact entered.keyed
      obtain ⟨saved, known⟩ := savedMeta_keyed hereLoaded keyed
      simp only [Async.ensures_bind, PgM.ensures_change, opened, either_ok]
      refine (saveMeta_saves hereLoaded workspace.toUnreserved known left₂ (tree ▸ roomy₁)).mono ?_
      rintro _ _ disk₃ ⟨rfl, rfl, left₃, roomy₃, saved₃, -⟩
      refine ⟨rfl, left₃, ?_, keyed, roomy₃, (tree ▸ saved₁).trans saved₃, ?_⟩
      · exact (openFileAt_context _ _).trans switched
      · rintro rfl
        cases opens

end Solpg.Client.Utils
