import Solpg.Client.Utils.Explorer.Creating
import Solpg.Client.Utils.Explorer.MemoryFs
import Solpg.Client.Utils.Explorer.MetaFile

/-!
# Leaving a workspace and returning to it

A switch to another workspace saves the metadata of the one that is left. The creation of
another workspace makes that one current before it switches to it, so that nothing is saved.
-/

namespace Solpg.Client.Utils

open Solpg.Std PgCommon PgExplorer

/-- A way to leave a workspace. -/
inductive Leave where
  | switchTo (name : Text) (defaultOpenFile : Option Text)
  | create (name : Text) (opts : CreateWorkspaceOptions)

section

variable (browser : Browser) (parseWorkspaces : Text → Option Workspaces) (fuel : Nat)

/-- How the workspace is left. -/
def Leave.run : Leave → PgM Unit
  | .switchTo name defaultOpenFile => switchWorkspace browser fuel name defaultOpenFile
  | .create name opts => createWorkspace browser parseWorkspaces fuel name opts

/-- The workspace is left and entered again. -/
def leaveAndReturn (leave : Leave) (name : Text) : PgM Unit := do
  leave.run browser parseWorkspaces fuel
  switchWorkspace browser fuel name none

end

/-- The tabs in their order, the current file and the positions in the files are the same. -/
structure SameSession (before after : PgExplorer) : Prop where
  bar : after.bar = before.bar
  positions : ∀ path, (before.files.content path).isSome = true →
    after.positionOf path = before.positionOf path

variable {fs : LightningFs} {disk : Disk fs} {self : PgExplorer} {browser : Browser}
  {parseWorkspaces : Text → Option Workspaces} {name other : Text} {place away : List Text}
  {leave : Leave} {depth fuel : Nat}

/-- Leaving and returning comes to an end and shows the same. -/
def Restores (browser : Browser) (parseWorkspaces : Text → Option Workspaces) (self : PgExplorer)
    (disk : Disk fs) (leave : Leave) (name : Text) : Prop :=
  ∃ enough, ∀ fuel, enough ≤ fuel → (leaveAndReturn browser parseWorkspaces fuel leave name).Ensures
    (Interference.nobody.setting fs False) self disk
      fun result back _ => result = .ok () ∧ SameSession self back

/-- The explorer shows files that its current workspace has in the store. -/
structure Opened (name : Text) (place : List Text) (state : PgExplorer) (disk : Disk fs) : Prop where
  workspace : IsWorkspace name place
  knows : state.context.Knows name
  current : state.workspaces.currentName = some name
  shown : ShownAt place state
  stored : ∀ path, (state.files.content path).isSome = true → ∃ rest, Visible rest ∧
    path = itemPath (place ++ rest) ∧ (disk.tree.content (place ++ rest)).isSome = true
  sound : disk.Sound
  metadata : WritableMetaAt disk.tree place
  config : WritableConfig disk.tree

/-- There is another workspace at that place, or it can be created there with its files. -/
def Leave.Possible (leave : Leave) (away : List Text) (self : PgExplorer) (tree : Tree) : Prop :=
  match leave with
  | .switchTo other _ => IsWorkspace other away ∧ other ∈ self.workspaces.allNames ∧
      WritableMetaAt tree away
  | .create other opts => IsWorkspace other.trim away ∧ other.trim ∉ self.workspaces.allNames ∧
      checkWorkspaceName other.trim opts.skipNameValidation = .ok () ∧
      (∃ files, opts.files = some files ∧ files ≠ [] ∧ NewFiles tree away files) ∧
      tree.content (away ++ [".workspace".toList]) = none ∧
      tree.node (away ++ [".workspace".toList] ++ ["metadata.json".toList]) ≠ some .directory

/-- The metadata in the store already says what the explorer shows. -/
def UpToDate (browser : Browser) (place : List Text) (self : PgExplorer) (tree : Tree) : Prop :=
  Describes (fullPathsFrom place (storedMetaAt browser tree place)) self

/-- The explorer is in another workspace, and the one that it has left is still there with those
entries. -/
structure Away (depth : Nat) (name : Text) (place away : List Text) (before : Tree)
    (state : PgExplorer) (disk : Disk fs) : Prop where
  sound : disk.Tolerable 0
  here : state.context.In away
  knows : state.context.Knows name
  keyed : Keyed state.files
  roomy : Roomy depth away disk.tree
  home : Roomy depth place disk.tree
  files : SparesFiles place before disk.tree

/-- An open workspace is the place of the context. -/
theorem Opened.within (opened : Opened name place self disk) : self.context.In place :=
  opened.workspace.within opened.knows opened.current

/-- A switch to another workspace saves this one. -/
theorem switchWorkspace_away {defaultOpenFile : Option Text} (opened : Opened name place self disk)
    (workspace : IsWorkspace other away) (known : other ∈ self.workspaces.allNames)
    (different : away ≠ place) (home : Roomy depth place disk.tree)
    (roomy : Roomy depth away disk.tree) (enough : depth < fuel)
    {saved : Option (List ItemMetaEntry)} (gathered : self.savedMeta = .ok saved) :
    (switchWorkspace browser fuel other defaultOpenFile).Ensures
      (Interference.nobody.setting fs False) self disk fun result self' disk' => result = .ok () ∧
        Away depth name place away disk.tree self' disk' ∧
        storedMetaAt browser disk'.tree place = metaAfter browser saved disk.tree place := by
  have sound := Disk.sound_iff.mp opened.sound
  rw [switchWorkspace_eq]
  refine (saveMeta_saves opened.within opened.workspace.toUnreserved gathered sound home).bind ?_ ?_
  swap
  · rintro error _ disk₁ ⟨failed, -⟩
    cases failed
  rintro _ _ disk₁ ⟨-, rfl, sound₁, home₁, saved₁, stored₁⟩
  have knows : Context.Knows (PgExplorer.context _) other :=
    ⟨opened.knows.stored, opened.knows.hasWorkspace, known⟩
  have roomy₁ := home₁.elsewhere roomy saved₁ workspace.toUnreserved different
  refine (enterWorkspace_enters workspace knows sound₁ roomy₁ enough).mono ?_
  rintro _ self' disk₂ ⟨rfl, sound₂, context, keyed, roomy₂, saved₂, -⟩
  have home₂ := roomy₂.elsewhere home₁ saved₂ opened.workspace.toUnreserved different.symm
  have spares := saved₂.metadata place opened.workspace.toUnreserved different.symm
  refine ⟨rfl, ⟨sound₂, ?_, ?_, keyed, roomy₂, home₂, ?_⟩, (spares.stored browser).trans stored₁⟩
  · rw [context]
    exact workspace.within (knows.switched other) (knows.current rfl)
  · rw [context]
    exact opened.knows.switched other
  · exact (saved₁.files place opened.workspace.toUnreserved).trans
      (saved₂.files place opened.workspace.toUnreserved)

/-- Creating another workspace leaves this one alone. -/
theorem createWorkspace_away {opts : CreateWorkspaceOptions} {files : TupleFiles}
    (opened : Opened name place self disk) (workspace : IsWorkspace other.trim away)
    (new : other.trim ∉ self.workspaces.allNames)
    (valid : checkWorkspaceName other.trim opts.skipNameValidation = .ok ())
    (given : opts.files = some files) (some_ : files ≠ []) (newFiles : NewFiles disk.tree away files)
    (noFile : disk.tree.content (away ++ [".workspace".toList]) = none)
    (free : disk.tree.node (away ++ [".workspace".toList] ++ ["metadata.json".toList]) ≠
      some .directory)
    (different : away ≠ place) (home : Roomy depth place disk.tree) (deep : away.length + 2 < depth)
    (short : ∀ file ∈ files, (targetOf away file.1).length < depth) (enough : depth < fuel) :
    (createWorkspace browser parseWorkspaces fuel other opts).Ensures
      (Interference.nobody.setting fs False) self disk fun result self' disk' => result = .ok () ∧
        Away depth name place away disk.tree self' disk' ∧
        storedMetaAt browser disk'.tree place = storedMetaAt browser disk.tree place := by
  have sound := Disk.sound_iff.mp opened.sound
  have stored : self.isTemporary = false := opened.knows.stored
  have has : self.hasWorkspace = true := opened.knows.hasWorkspace
  let created : PgExplorer :=
    { self with workspaces := ⟨self.workspaces.allNames ++ [other.trim], some other.trim⟩ }
  have inState : self.createWorkspaceInState other.trim = .ok created := if_neg new
  have knowsNew : created.context.Knows other.trim :=
    ⟨stored, has, List.mem_append_right _ (List.mem_singleton_self _)⟩
  have knowsOld : created.context.Knows name :=
    ⟨stored, has, List.mem_append_left _ opened.knows.known⟩
  have here : created.context.In away := workspace.within knowsNew rfl
  rw [createWorkspace, Async.ensures_bind, PgM.ensures_sync, valid, either_ok, Async.ensures_bind,
    Async.ensures_get, either_ok, stored, Bool.and_false, if_neg (by simp), Async.ensures_bind,
    PgM.ensures_sync, has, if_pos rfl, either_ok, Async.ensures_bind, PgM.ensures_change, inState]
  simp only [either_ok, given]
  refine (writeFiles_adds here workspace.toUnreserved newFiles sound home.shallow short).bind ?_ ?_
  swap
  · rintro error _ disk₁ ⟨failed, -⟩
    cases failed
  rintro _ _ disk₁ ⟨-, rfl, sound₁, adds, shallow₁, directory⟩
  have config₁ := adds.writableConfig home.config
  have spares₁ := adds.sparesMetadata place
  have home₁ : Roomy depth place disk₁.tree :=
    ⟨spares₁.writable (adds.sparesFiles place) home.metadata, config₁, shallow₁, home.deep⟩
  have roomy₁ : Roomy depth away disk₁.tree := by
    refine ⟨⟨directory some_, ?_, ?_⟩, config₁, shallow₁, deep⟩
    · rw [DirectoryTree.content, adds.reserved _ (.inl (by simp))]
      exact noFile
    · rw [adds.reserved _ (.inl (by simp))]
      exact free
  have keyed : Keyed created.files := opened.shown.keyed
  obtain ⟨saved, gathered⟩ := savedMeta_keyed here keyed
  rw [switchWorkspace_eq]
  refine (saveMeta_saves here workspace.toUnreserved gathered sound₁ roomy₁).bind ?_ ?_
  swap
  · rintro error _ disk₂ ⟨failed, -⟩
    cases failed
  rintro _ _ disk₂ ⟨-, rfl, sound₂, roomy₂, saved₂, -⟩
  refine (enterWorkspace_enters workspace knowsNew sound₂ roomy₂ enough).mono ?_
  rintro _ self' disk₃ ⟨rfl, sound₃, context, keyed₃, roomy₃, saved₃, -⟩
  have savedOnly := saved₂.trans saved₃
  have home₃ := roomy₃.elsewhere home₁ savedOnly opened.workspace.toUnreserved different.symm
  have spares := savedOnly.metadata place opened.workspace.toUnreserved different.symm
  refine ⟨rfl, ⟨sound₃, ?_, ?_, keyed₃, roomy₃, home₃, ?_⟩,
    (spares.stored browser).trans (spares₁.stored browser)⟩
  · rw [context]
    exact workspace.within (knowsNew.switched other.trim) (knowsNew.current rfl)
  · rw [context]
    exact knowsOld.switched other.trim
  · exact (adds.sparesFiles place).trans
      (savedOnly.files place opened.workspace.toUnreserved)

/-- The switch back shows what the metadata of the workspace says. -/
theorem return_enters {before : Tree} (awayNow : Away depth name place away before self disk)
    (workspace : IsWorkspace name place) (unreserved : Unreserved away) (different : away ≠ place)
    (enough : depth < fuel) :
    (switchWorkspace browser fuel name none).Ensures (Interference.nobody.setting fs False) self disk
      fun result back _ => result = .ok () ∧
        back.bar = metadataBar (fullPathsFrom place (storedMetaAt browser disk.tree place)) ∧
        ∀ rest, Visible rest → (before.content (place ++ rest)).isSome = true →
          back.positionOf (itemPath (place ++ rest)) = metaPosition
            (fullPathsFrom place (storedMetaAt browser disk.tree place))
            (itemPath (place ++ rest)) := by
  obtain ⟨saved, gathered⟩ := savedMeta_keyed awayNow.here awayNow.keyed
  rw [switchWorkspace_eq]
  refine (saveMeta_saves awayNow.here unreserved gathered awayNow.sound awayNow.roomy).bind ?_ ?_
  swap
  · rintro error _ disk₁ ⟨failed, -⟩
    cases failed
  rintro _ _ disk₁ ⟨-, rfl, sound₁, roomy₁, saved₁, -⟩
  have home₁ := roomy₁.elsewhere awayNow.home saved₁ workspace.toUnreserved different.symm
  have stored := (saved₁.metadata place workspace.toUnreserved different.symm).stored browser
  refine (enterWorkspace_enters workspace awayNow.knows sound₁ home₁ enough).mono ?_
  rintro _ back disk₂ ⟨rfl, -, -, -, -, -, entered⟩
  obtain ⟨-, bar, positions⟩ := entered rfl
  rw [stored] at bar positions
  refine ⟨rfl, bar, fun rest visible found => positions rest visible ?_⟩
  exact (saved₁.files place workspace.toUnreserved).files rest visible
    (awayNow.files.files rest visible found)

/-- What is shown after the return is what the metadata said, whatever was shown before. -/
theorem sameSession_iff {back : PgExplorer} {entries : List ItemMetaEntry}
    (opened : Opened name place self disk) (bar : back.bar = metadataBar entries)
    (positions : ∀ rest, Visible rest → (disk.tree.content (place ++ rest)).isSome = true →
      back.positionOf (itemPath (place ++ rest)) =
        metaPosition entries (itemPath (place ++ rest))) :
    SameSession self back ↔ Describes entries self := by
  have position : ∀ path, (self.files.content path).isSome = true →
      back.positionOf path = metaPosition entries path := by
    intro path held
    obtain ⟨rest, visible, rfl, found⟩ := opened.stored path held
    exact positions rest visible found
  constructor
  · rintro ⟨sameBar, samePositions⟩
    exact ⟨bar.symm.trans sameBar, fun path held =>
      (position path held).symm.trans (samePositions path held)⟩
  · rintro ⟨sameBar, samePositions⟩
    exact ⟨bar.trans sameBar, fun path held =>
      (position path held).trans (samePositions path held)⟩

/-- `JSON.parse` undoes `JSON.stringify` on metadata. -/
def Browser.ReadsMeta (browser : Browser) : Prop :=
  ∀ entries, browser.parseMetaFile (browser.stringifyMetaFile entries) = some entries

/-- The metadata that is found on the return says what was shown. -/
def Leave.Keeps (leave : Leave) (browser : Browser) (place : List Text) (self : PgExplorer)
    (tree : Tree) : Prop :=
  match leave with
  | .switchTo _ _ => self.files.keys ≠ [] ∨ UpToDate browser place self tree
  | .create _ _ => UpToDate browser place self tree

/-- What a switch leaves behind describes what was shown, unless there was nothing to save. -/
theorem describes_metaAfter (reads : browser.ReadsMeta) (opened : Opened name place self disk) :
    ∃ saved, self.savedMeta = .ok saved ∧
      (Describes (fullPathsFrom place (metaAfter browser saved disk.tree place)) self ↔
        self.files.keys ≠ [] ∨ UpToDate browser place self disk.tree) := by
  by_cases empty : self.files.keys = []
  · refine ⟨none, savedMeta_empty empty, ?_⟩
    simp only [metaAfter, empty, ne_eq, not_true_eq_false, false_or]
    rfl
  · obtain ⟨entries, saved, describes⟩ := savedMeta_shown opened.within opened.shown empty
    refine ⟨some entries, saved, ?_⟩
    rw [metaAfter, reads, Option.getD_some]
    exact iff_of_true describes (.inl empty)

/-- However the workspace is left, it keeps its files. -/
theorem leave_away (reads : browser.ReadsMeta) (opened : Opened name place self disk)
    (different : away ≠ place) (possible : leave.Possible away self disk.tree) :
    ∃ depth, ∀ fuel, depth < fuel → (leave.run browser parseWorkspaces fuel).Ensures
      (Interference.nobody.setting fs False) self disk fun result self' disk' => result = .ok () ∧
        Away depth name place away disk.tree self' disk' ∧
        (Describes (fullPathsFrom place (storedMetaAt browser disk'.tree place)) self ↔
          leave.Keeps browser place self disk.tree) := by
  obtain ⟨existing, shallow⟩ := fs.finite disk.db
  cases leave with
  | switchTo other defaultOpenFile =>
      obtain ⟨workspace, known, metadata⟩ := possible
      let depth := existing + place.length + away.length + 3
      have bounded : ∀ path, (disk.tree.node path).isSome = true → path.length < depth :=
        fun path exists_ => (shallow path exists_).trans_le (by omega)
      have home : Roomy depth place disk.tree := ⟨opened.metadata, opened.config, bounded, by omega⟩
      have roomy : Roomy depth away disk.tree := ⟨metadata, opened.config, bounded, by omega⟩
      obtain ⟨saved, gathered, keeps⟩ := describes_metaAfter reads opened
      refine ⟨depth, fun fuel enough => ?_⟩
      refine (switchWorkspace_away opened workspace known different home roomy enough
        gathered).mono ?_
      rintro result self' disk' ⟨rfl, awayNow, stored⟩
      exact ⟨rfl, awayNow, stored ▸ keeps⟩
  | create other opts =>
      obtain ⟨workspace, new, valid, ⟨files, given, some_, newFiles⟩, noFile, free⟩ := possible
      obtain ⟨longest, short⟩ := exists_depth (files.map fun file => targetOf away file.1)
      let depth := existing + longest + place.length + away.length + 3
      have bounded : ∀ path, (disk.tree.node path).isSome = true → path.length < depth :=
        fun path exists_ => (shallow path exists_).trans_le (by omega)
      have home : Roomy depth place disk.tree := ⟨opened.metadata, opened.config, bounded, by omega⟩
      have fits : ∀ file ∈ files, (targetOf away file.1).length < depth := fun file member =>
        (short _ (List.mem_map.mpr ⟨file, member, rfl⟩)).trans_le (by omega)
      refine ⟨depth, fun fuel enough => ?_⟩
      refine (createWorkspace_away opened workspace new valid given some_ newFiles noFile free
        different home (by omega) fits enough).mono ?_
      rintro result self' disk' ⟨rfl, awayNow, stored⟩
      exact ⟨rfl, awayNow, by rw [stored]; rfl⟩

/-- It is left and entered again, whatever the depth. -/
theorem leaveAndReturn_ends (reads : browser.ReadsMeta) (opened : Opened name place self disk)
    (different : away ≠ place) (possible : leave.Possible away self disk.tree) :
    ∃ enough, ∀ fuel, enough ≤ fuel →
      (leaveAndReturn browser parseWorkspaces fuel leave name).Ensures
        (Interference.nobody.setting fs False) self disk fun result back _ => result = .ok () ∧
          (SameSession self back ↔ leave.Keeps browser place self disk.tree) := by
  have unreserved : Unreserved away := by
    cases leave with
    | switchTo other defaultOpenFile => exact possible.1.toUnreserved
    | create other opts => exact possible.1.toUnreserved
  obtain ⟨depth, leaves⟩ := @leave_away _ _ _ _ parseWorkspaces _ _ _ _ reads opened different possible
  refine ⟨depth + 1, fun fuel enough => (leaves fuel enough).bind ?_ ?_⟩
  swap
  · rintro error _ disk₁ ⟨failed, -⟩
    cases failed
  rintro _ state disk₁ ⟨-, awayNow, keeps⟩
  refine (return_enters awayNow opened.workspace unreserved different enough).mono ?_
  rintro result back disk₂ ⟨rfl, bar, positions⟩
  exact ⟨rfl, (sameSession_iff opened bar positions).trans keeps⟩

/-- What is restored is what was there. -/
theorem keeps_of_restores (reads : browser.ReadsMeta) (opened : Opened name place self disk)
    (different : away ≠ place) (possible : leave.Possible away self disk.tree)
    (restores : Restores browser parseWorkspaces self disk leave name) :
    leave.Keeps browser place self disk.tree := by
  obtain ⟨enough, ends⟩ := @leaveAndReturn_ends _ _ _ _ parseWorkspaces _ _ _ _ reads opened
    different possible
  obtain ⟨enough', restores⟩ := restores
  -- Both say something about the one run with enough fuel for either.
  have first := ends (max enough enough') (Nat.le_max_left _ _)
  have second := restores (max enough enough') (Nat.le_max_right _ _)
  obtain ⟨result, back, disk', -, ⟨-, keeps⟩, -, same⟩ :=
    Async.Ensures.exists_run (first.and second)
  exact keeps.mp same

/-- A workspace that is left and entered again shows the same exactly when the metadata that is
found says so: after a switch away it does, and after the creation of another workspace when
nothing has changed since the last time that it was saved. -/
theorem restores_iff (reads : browser.ReadsMeta) (opened : Opened name place self disk)
    (different : away ≠ place) (possible : leave.Possible away self disk.tree) :
    Restores browser parseWorkspaces self disk leave name ↔
      leave.Keeps browser place self disk.tree := by
  refine ⟨keeps_of_restores reads opened different possible, fun keeps => ?_⟩
  obtain ⟨enough, ends⟩ := @leaveAndReturn_ends _ _ _ _ parseWorkspaces _ _ _ _ reads opened
    different possible
  refine ⟨enough, fun fuel more => (ends fuel more).mono ?_⟩
  rintro result back disk' ⟨rfl, same⟩
  exact ⟨rfl, same.mpr keeps⟩

/-- The workspace `w` with two tabs, the second of them current. -/
def editedWorkspace : PgExplorer where
  explorer :=
    { files := (OrderedMap.empty.set "/w/a.txt".toList (some ⟨some ['a'], some ⟨some ⟨3, 1, 2⟩⟩⟩)).set
        "/w/b.txt".toList (some ⟨some ['b'], none⟩)
      tabs := ["/w/b.txt".toList, "/w/a.txt".toList]
      currentIndex := some 1 }
  generation := 0
  isTemporary := false
  hasWorkspace := true
  workspaces := ⟨["w".toList, "v".toList], some "w".toList⟩
  initializedWorkspaceName := some "w".toList
  dispatched := []

/-- A disk with two workspaces. -/
def editedDisk : Disk memoryFs where
  db := MemoryDb.empty.after
    [.mkdir "/w".toList, .mkdir "/v".toList, .writeFile "/w/a.txt".toList ['a'],
      .writeFile "/w/b.txt".toList ['b']]
  faults := []

/-- A workspace at the root. -/
theorem isWorkspace_of_letter {name : Text} (isName : UnixPath.IsName name)
    (unreserved : name ≠ ".config".toList ∧ name ≠ ".workspace".toList) :
    IsWorkspace name [name] where
  inside := List.cons_ne_nil _ _
  notConfig within := unreserved.1 (List.cons_prefix_cons.mp within).1.symm
  notMetadata member := unreserved.2 (List.mem_singleton.mp member).symm
  isNameOf := isNameOf_of_isName isName
  areNames _ member := List.mem_singleton.mp member ▸ isName

/-- The keys of the edited workspace. -/
theorem edited_keys : editedWorkspace.files.keys = ["/w/a.txt".toList, "/w/b.txt".toList] := by
  decide +kernel

/-- The edited workspace is open. -/
theorem edited_opened : Opened "w".toList ["w".toList] editedWorkspace editedDisk where
  workspace := isWorkspace_of_letter (by decide) (by decide)
  knows := ⟨rfl, rfl, by decide⟩
  current := rfl
  shown :=
    { keyed := by decide +kernel
      below := by
        rw [edited_keys]
        simp only [List.forall_mem_cons, List.not_mem_nil, false_imp_iff, implies_true, and_true]
        exact ⟨⟨"a.txt".toList, by decide, by decide⟩, ⟨"b.txt".toList, by decide, by decide⟩⟩
      valid := ⟨by decide +kernel, by decide +kernel⟩
      tabs := by decide +kernel }
  stored := by
    intro path held
    obtain ⟨content, held⟩ := Option.isSome_iff_exists.mp held
    have member := ExplorerFiles.mem_keys_of_content held
    rw [edited_keys] at member
    simp only [List.mem_cons, List.not_mem_nil, or_false] at member
    obtain rfl | rfl := member
    · exact ⟨["a.txt".toList], by decide, by decide, by decide +kernel⟩
    · exact ⟨["b.txt".toList], by decide, by decide, by decide +kernel⟩
  sound := nofun
  metadata := ⟨by decide +kernel, by decide +kernel, by decide +kernel⟩
  config := ⟨by decide +kernel, by decide +kernel, by decide +kernel⟩

/-- Metadata is read back from JSON. -/
theorem jsonBrowser_reads : jsonBrowser.ReadsMeta := MetaFile.read_write

/-- A switch to the workspace `v` and back. -/
theorem switch_restores : Restores jsonBrowser (fun _ => none) editedWorkspace editedDisk
    (.switchTo "v".toList none) "w".toList := by
  have possible : (Leave.switchTo "v".toList none).Possible ["v".toList] editedWorkspace
      editedDisk.tree :=
    ⟨isWorkspace_of_letter (by decide) (by decide), by decide,
      ⟨by decide +kernel, by decide +kernel, by decide +kernel⟩⟩
  have keeps : (Leave.switchTo "v".toList none).Keeps jsonBrowser ["w".toList] editedWorkspace
      editedDisk.tree := by
    refine .inl ?_
    rw [edited_keys]
    exact List.cons_ne_nil _ _
  exact (restores_iff jsonBrowser_reads edited_opened (by decide) possible).mpr keeps

/-- A new workspace `u` with one file. -/
def createU : Leave :=
  .create "u".toList ⟨some [("c.txt".toList, ['c'])], none, false, false⟩

/-- The other workspace can be created. -/
theorem createU_possible : createU.Possible ["u".toList] editedWorkspace editedDisk.tree := by
  refine ⟨isWorkspace_of_letter (by decide) (by decide), by decide, by decide,
    ⟨_, rfl, List.cons_ne_nil _ _, ?_⟩, by decide +kernel, by decide +kernel⟩
  constructor
  · intro file member
    rw [List.mem_singleton.mp member]
    exact ⟨["c.txt".toList], by decide, by decide, by decide, by decide⟩
  · intro file member
    rw [List.mem_singleton.mp member]
    decide +kernel
  · intro file member
    rw [List.mem_singleton.mp member]
    decide +kernel
  · intro first member second other _
    rw [List.mem_singleton.mp member, List.mem_singleton.mp other]

/-- The tabs are lost when another workspace is created before they have been saved. -/
theorem not_always_restores : ¬ ∀ (fs : LightningFs) (browser : Browser)
    (parseWorkspaces : Text → Option Workspaces) (self : PgExplorer) (disk : Disk fs)
    (leave : Leave) (name : Text) (place away : List Text), browser.ReadsMeta →
    Opened name place self disk → away ≠ place → leave.Possible away self disk.tree →
    Restores browser parseWorkspaces self disk leave name := by
  intro all
  have restores := all memoryFs jsonBrowser (fun _ => none) _ _ _ _ _ _ jsonBrowser_reads
    edited_opened (by decide) createU_possible
  have keeps := keeps_of_restores jsonBrowser_reads edited_opened (by decide) createU_possible
    restores
  have same := congrArg (fun bar => bar.tabs.length) keeps.1
  exact absurd same (by decide +kernel)

end Solpg.Client.Utils
