import Solpg.Client.Learning.ApplyPatch

/-!
# Undoing what has been applied

When `undoPatch` restores the files from before `applyPatch`: it deletes a
created file with every key that starts with its path.
-/

namespace Solpg.Client.Learning

open Solpg.Std Solpg.Client.Utils PgExplorer PgM

variable {fs : LightningFs} {disk : Disk fs} {self : PgExplorer} {browser : Browser}
  {name path : Text} {patch : WorkspacePatch}

/-- An accepted patch for a workspace whose files are those of the store. The
paths of files end in a name, and what all ask of the store is documented: none
leads to a directory or below a file. -/
structure Patching (state : PgExplorer) (disk : Disk fs) (name : Text) (patch : WorkspacePatch) :
    Prop where
  mirrors : Mirrors state disk.tree name
  sound : disk.Sound
  metadata : WritableMetadata disk.tree name
  accepted : ∃ value, validateWorkspacePatch value = .ok patch
  endings : ∀ file ∈ patch.files, NamesFile name file.path → file.path.endsWith slash = false
  passable : ∀ file ∈ patch.files, Passable disk.tree (placeIn name file.path).dropLast
  free : ∀ file ∈ patch.files, disk.tree.node (placeIn name file.path) ≠ some .directory
  apart : ∀ file ∈ patch.files, ∀ other ∈ patch.files,
    placeIn name file.path <+: placeIn name other.path →
      placeIn name file.path = placeIn name other.path

/-- A safe path is one of a file when it names one. -/
theorem SafePath.filePath (safe : SafePath path) (isName : UnixPath.IsName name)
    (noSlash : path.endsWith slash = false) (named : NamesFile name path) :
    ∃ parent last, FilePath name path parent last := by
  have rough := safe.rough noSlash
  obtain ⟨root, rest, some_, pieces, isRoot⟩ := safe.pieces
  obtain ⟨before, last, rfl⟩ := (List.eq_nil_or_concat' rest).resolve_left some_
  have relative : path.startsWith slash = false := by
    have valid := safe.root
    rw [validRoot, Bool.or_eq_true, startsWith_iff, startsWith_iff] at valid
    obtain ⟨tail, rfl⟩ | ⟨tail, rfl⟩ := valid <;> rfl
  have full : pathIn name path = UnixPath.text (name :: root :: before ++ [last]) := by
    have text := UnixPath.text_splitOn path
    rw [pieces] at text
    rw [pathIn, if_neg (by simp [relative])]
    have shape : name :: root :: before ++ [last] = [name] ++ (root :: (before ++ [last])) := by simp
    rw [shape, UnixPath.text_append, text]
    simp [slash]
  have allRough : UnixPath.Rough (name :: root :: before ++ [last]) := by
    rw [pieces] at rough
    have whole : name :: root :: before ++ [last] = [name] ++ (root :: (before ++ [last])) := by simp
    have first : UnixPath.Rough [name] := by
      intro other member
      rw [List.mem_singleton.mp member]
      exact ⟨isName.1, isName.2.1, isName.2.2.2⟩
    rw [whole]
    exact UnixPath.rough_append.mpr ⟨first, rough⟩
  have itemName : getItemNameFromPath (pathIn name path) = last := by
    rw [full]
    exact getItemNameFromPath_text allRough.slashless (allRough last (by simp)).1
  have rootNotDot : root ≠ ['.'] := by
    rintro rfl
    revert isRoot
    decide
  have plain : UnixPath.plain (name :: root :: before) = name :: root :: UnixPath.plain before := by
    simp [UnixPath.plain, isName.2.2.1, rootNotDot]
  obtain ⟨isFile, valid⟩ := named
  rw [getItemTypeFromPath, itemName] at isFile
  rw [itemName] at valid
  refine ⟨name :: root :: before, last, relative, full, allRough, isFile, valid, ?_, ?_⟩
  · rw [plain]
    intro within
    obtain ⟨-, within⟩ := List.cons_prefix_cons.mp within
    obtain ⟨rfl, -⟩ := List.cons_prefix_cons.mp within
    revert isRoot
    decide
  · rw [plain]
    exact ⟨root :: UnixPath.plain before, rfl⟩

/-- The files of the patch with their content from before. -/
def undoFilesOf (name : Text) (self : PgExplorer) (patch : WorkspacePatch) : List UndoFile :=
  patch.files.map fun file => ⟨file.path, self.files.content (pathIn name file.path)⟩

namespace Patching

variable (patching : Patching self disk name patch)

include patching

theorem filePaths (named : ∀ file ∈ patch.files, NamesFile name file.path) :
    FilePaths name (patch.files.map (·.path)) := by
  obtain ⟨value, valid⟩ := patching.accepted
  obtain ⟨-, safe⟩ := validateWorkspacePatch_ok valid
  constructor
  · intro path member
    obtain ⟨file, among, rfl⟩ := List.mem_map.mp member
    exact (safe file among).filePath patching.mirrors.here.isName
      (patching.endings file among (named file among)) (named file among)
  · intro path member other member'
    obtain ⟨file, among, rfl⟩ := List.mem_map.mp member
    obtain ⟨otherFile, among', rfl⟩ := List.mem_map.mp member'
    exact patching.apart file among otherFile among'

/-- Before the patch no parent folder is a file of the state. -/
theorem ready (named : ∀ file ∈ patch.files, NamesFile name file.path) :
    Ready name (patch.files.map (·.path)) self disk.tree where
  here := patching.mirrors.here
  metadata := patching.metadata
  passable path member := by
    obtain ⟨file, among, rfl⟩ := List.mem_map.mp member
    exact patching.passable file among
  free path member := by
    obtain ⟨file, among, rfl⟩ := List.mem_map.mp member
    exact patching.free file among
  parents path member := by
    obtain ⟨parent, last, filePath⟩ := (patching.filePaths named).isFile path member
    obtain ⟨file, among, rfl⟩ := List.mem_map.mp member
    have passable := patching.passable file among
    rw [filePath.place, List.dropLast_concat] at passable
    rw [filePath.parentPath]
    by_contra some_
    obtain ⟨content, found⟩ := Option.ne_none_iff_exists'.mp some_
    obtain ⟨rest, -, visible, same, isFile⟩ := patching.mirrors.file found
    have areNames := visible.cons_areNames patching.mirrors.here.isName
    obtain text | slashed := itemPath_pathTo (name :: rest)
    · obtain ⟨before, final, whole⟩ :=
        (List.eq_nil_or_concat' (name :: rest)).resolve_left (by simp)
      have noSlash := areNames
      rw [whole] at noSlash
      have ends := endsWith_slash (UnixPath.text parent)
      rw [same, text, whole, text_endsWith_slash noSlash.last] at ends
      cases ends
    · have rough := (UnixPath.rough_append.mp filePath.rough).1
      have names : parent = name :: rest := UnixPath.text_injective rough.slashless
        areNames.slashless (List.append_cancel_right (same.trans slashed))
      have nothing := passable (name :: rest) (by
        rw [names, UnixPath.plain_eq_self areNames])
      rw [DirectoryTree.content_eq_some.mpr isFile] at nothing
      cases nothing

/-- What the undo is given, with the keys and the places. -/
theorem consistent : Views.Consistent (viewsOf name self disk.tree)
    ((undoFilesOf name self patch).map (UndoFile.saved name)) := by
  intro saved member
  rw [undoFilesOf, List.map_map] at member
  obtain ⟨file, among, rfl⟩ := List.mem_map.mp member
  refine ⟨rfl, fun content there => ?_⟩
  have found : self.files.content (pathIn name file.path) = some content := there
  obtain ⟨rest, -, visible, same, isFile⟩ := patching.mirrors.file found
  have place : placeIn name file.path = name :: rest := by
    rw [placeIn, same, locate_itemPath (visible.cons_areNames patching.mirrors.here.isName)]
  change (viewsOf name self disk.tree).stored (placeIn name file.path) = some content
  rw [place, viewsOf_stored, if_neg (metadata_hidden visible)]
  exact DirectoryTree.content_eq_some.mpr isFile

end Patching

/-- A write changes the views at its key and its place. -/
theorem writeFiles_views (name : Text) (files : List PatchFile) (views : Views Text (List Text) Text) :
    (∀ key, (writeFiles name files views).shown key = views.shown key ∨
      ∃ file ∈ files, pathIn name file.path = key) ∧
    (∀ place, (∀ file ∈ files, placeIn name file.path ≠ place) →
      (writeFiles name files views).stored place = views.stored place) ∧
    ∀ place, (∃ file ∈ files, placeIn name file.path = place) ∨
      (views.stored place).isSome = true →
        ((writeFiles name files views).stored place).isSome = true := by
  induction files generalizing views with
  | nil => exact ⟨fun _ => .inl rfl, fun _ _ => rfl, fun _ either => either.resolve_left (by simp)⟩
  | cons file rest ih =>
      obtain ⟨shown, stored, present⟩ := ih
        (views.write (pathIn name file.path) (placeIn name file.path) file.content)
      refine ⟨fun key => ?_, fun place elsewhere => ?_, fun place either => ?_⟩
      · obtain same | ⟨other, member, there⟩ := shown key
        · by_cases here : key = pathIn name file.path
          · exact .inr ⟨file, List.mem_cons_self, here.symm⟩
          · refine .inl (same.trans ?_)
            rw [Views.shown_write, if_neg here]
        · exact .inr ⟨other, List.mem_cons_of_mem _ member, there⟩
      · refine (stored place fun other member => elsewhere other (List.mem_cons_of_mem _ member)).trans ?_
        rw [Views.stored_write, if_neg (Ne.symm (elsewhere file List.mem_cons_self))]
      · refine present place ?_
        rw [Views.stored_write]
        by_cases here : place = placeIn name file.path
        · rw [if_pos here]
          exact .inr rfl
        · rw [if_neg here]
          refine either.imp_left ?_
          rintro ⟨other, member, there⟩
          refine ⟨other, (List.mem_cons.mp member).resolve_left ?_, there⟩
          rintro rfl
          exact here there.symm

theorem pending_writeFiles (name : Text) (patch : WorkspacePatch) (self : PgExplorer)
    (views : Views Text (List Text) Text) :
    Views.Pending views (writeFiles name patch.files views)
      ((undoFilesOf name self patch).map (UndoFile.saved name)) := by
  obtain ⟨shown, stored, present⟩ := writeFiles_views name patch.files views
  have items : (undoFilesOf name self patch).map (UndoFile.saved name) =
      patch.files.map fun file => (⟨pathIn name file.path, placeIn name file.path,
        self.files.content (pathIn name file.path)⟩ : Saved Text (List Text) Text) := by
    rw [undoFilesOf, List.map_map]
    rfl
  rw [items]
  refine ⟨fun key => (shown key).imp_right ?_, fun place elsewhere => ?_, fun place removed => ?_⟩
  · rintro ⟨file, member, there⟩
    exact ⟨_, List.mem_map_of_mem member, there⟩
  · exact stored place fun file member => elsewhere _ (List.mem_map_of_mem member)
  · obtain ⟨next, found, -⟩ := removed
    obtain ⟨file, member, rfl⟩ := List.mem_map.mp (List.mem_of_find?_eq_some found)
    refine present place (.inl ⟨file, member, ?_⟩)
    simpa using List.find?_some found

/-- The patch has been written, and what was there before is known. -/
structure Applied (original : PgExplorer) (tree : Tree) (name : Text) (patch : WorkspacePatch)
    (previous : List UndoFile) (state : PgExplorer) (disk : Disk fs) : Prop where
  previous : previous = undoFilesOf name original patch
  filePaths : FilePaths name (patch.files.map (·.path))
  sound : disk.Tolerable 0
  saves : SavesMeta state
  ready : Ready name (patch.files.map (·.path)) state disk.tree
  views : viewsOf name state disk.tree = writeFiles name patch.files (viewsOf name original tree)

/-- A patch that has been taken back is not applied. -/
theorem restoreFiles_none {fuel : Nat} {undoFiles : List UndoFile}
    {P : List UndoFile → PgExplorer → Disk fs → Prop} :
    (do restoreFiles browser fuel undoFiles; pure none : PgM (Option (List UndoFile))).Ensures
      (Interference.nobody.setting fs True) self disk
      fun result state disk' => ∀ previous, result = .ok (some previous) → P previous state disk' :=
  Async.Ensures.bind (Async.ensures_trivial trivial) (fun _ _ _ _ _ => nofun) fun _ _ _ _ _ => nofun

theorem applyPatch_applied {fuel : Nat} (patching : Patching self disk name patch) :
    (applyPatch browser fuel patch).Ensures (Interference.nobody.setting fs True) self disk
      fun result state disk' => ∀ previous, result = .ok (some previous) →
        Applied self disk.tree name patch previous state disk' := by
  have here := patching.mirrors.here
  obtain ⟨value, valid⟩ := patching.accepted
  obtain ⟨some_, -⟩ := validateWorkspacePatch_ok valid
  have previous : previousFiles patch.files self = .ok (undoFilesOf name self patch) :=
    Outcome.mapM_ok fun file _ => by
      rw [getFileContent_of_at here]
      rfl
  rw [applyPatch, Async.ensures_bind, ensures_sync, previous, either_ok, Async.ensures_tryCatch,
    applyFiles]
  by_cases named : ∀ file ∈ patch.files, NamesFile name file.path
  · refine Async.Ensures.bind (applyFiles_writes (patching.filePaths named) (patching.ready named)
      (fun file member => List.mem_map_of_mem member) (Disk.sound_iff.mp patching.sound)) ?_ ?_
    · rintro _ state disk' applied _ same
      obtain ⟨sound, saves, ready, views⟩ := applied rfl
      cases same
      exact ⟨rfl, patching.filePaths named, sound, saves (.inl some_), ready, views⟩
    · exact fun _ _ _ _ => restoreFiles_none
  · refine Async.Ensures.bind (applyFiles_named here) ?_ ?_
    · intro _ _ _ all
      exact absurd (all rfl) named
    · exact fun _ _ _ _ => restoreFiles_none

/-- `undoPatch` completes, and the files of the state and of the store are those
from before. -/
def Undoes (browser : Browser) (name : Text) (self : PgExplorer) (tree : Tree)
    (previous : List UndoFile) (state : PgExplorer) (disk : Disk fs) : Prop :=
  ∀ fuel, (undoPatch browser fuel previous).Ensures (Interference.nobody.setting fs False) state disk
    fun result state' disk' => result = .ok () ∧
      (∀ key, state'.files.content key = self.files.content key) ∧
      ∀ place, ¬ [name, ".workspace".toList] <+: place →
        disk'.tree.content place = tree.content place

theorem viewsOf_eq_iff {state : PgExplorer} {old new : Tree} :
    viewsOf name state new = viewsOf name self old ↔
      (∀ key, state.files.content key = self.files.content key) ∧
      ∀ place, ¬ [name, ".workspace".toList] <+: place → new.content place = old.content place := by
  constructor
  · intro same
    refine ⟨fun key => congrFun (congrArg Views.shown same) key, fun place outside => ?_⟩
    have stored := congrFun (congrArg Views.stored same) place
    rwa [viewsOf_stored, viewsOf_stored, if_neg outside, if_neg outside] at stored
  · rintro ⟨shown, stored⟩
    refine Views.ext (funext shown) (funext fun place => ?_)
    rw [viewsOf_stored, viewsOf_stored]
    split
    next => rfl
    next outside => exact stored place outside

/-- Undoing is putting back what was written. -/
theorem Applied.undoes_iff {tree : Tree} {previous : List UndoFile} {state : PgExplorer}
    (applied : Applied self tree name patch previous state disk) :
    Undoes browser name self tree previous state disk ↔
      Views.putBackAll deletesKey ((undoFilesOf name self patch).map (UndoFile.saved name))
        (writeFiles name patch.files (viewsOf name self tree)) = some (viewsOf name self tree) := by
  have among : ∀ file ∈ previous, file.path ∈ patch.files.map (·.path) := by
    intro file member
    rw [applied.previous, undoFilesOf] at member
    obtain ⟨patchFile, among, rfl⟩ := List.mem_map.mp member
    exact List.mem_map_of_mem among
  have spec : ∀ fuel, (undoPatch browser fuel previous).Ensures
      (Interference.nobody.setting fs False) state disk _ := fun fuel =>
    undoPatch_spec applied.filePaths applied.ready applied.saves among applied.sound
  rw [applied.views, applied.previous] at spec
  rw [Undoes, applied.previous]
  constructor
  · intro undoes
    obtain ⟨result, state', disk', ran, done, same⟩ := (undoes 0).exists_run
    have known := (spec 0).of_run ran
    split at known
    next final all => rw [all, ← known.2, viewsOf_eq_iff.mpr same]
    next =>
      obtain ⟨error, failed⟩ := known
      rw [done] at failed
      cases failed
  · intro all fuel
    refine (spec fuel).mono ?_
    intro result state' disk' known
    rw [all] at known
    exact ⟨known.1, viewsOf_eq_iff.mp known.2⟩

theorem Patching.restorable_iff (patching : Patching self disk name patch) :
    Views.putBackAll deletesKey ((undoFilesOf name self patch).map (UndoFile.saved name))
        (writeFiles name patch.files (viewsOf name self disk.tree)) =
          some (viewsOf name self disk.tree) ↔
      Views.Restorable deletesKey (viewsOf name self disk.tree)
        ((undoFilesOf name self patch).map (UndoFile.saved name)) :=
  Views.putBackAll_eq_iff (pending_writeFiles name patch self _) patching.consistent startsWith_refl

/-- When `applyPatch` has succeeded, `undoPatch` restores the files if and only if
what it deletes was not there before, or is written by a later file of the patch. -/
theorem undoes_iff_restorable {fuel : Nat} {previous : List UndoFile} {state : PgExplorer}
    {after : Disk fs} (patching : Patching self disk name patch)
    (applied : (applyPatch browser fuel patch).run Disk.serve self disk =
      some (.ok (some previous), state, after)) :
    Undoes browser name self disk.tree previous state after ↔
      Views.Restorable deletesKey (viewsOf name self disk.tree)
        ((undoFilesOf name self patch).map (UndoFile.saved name)) :=
  ((applyPatch_applied patching).of_run applied previous rfl).undoes_iff.trans patching.restorable_iff

/-- A patch of one file. -/
def oneFilePatch (path content : String) : WorkspacePatch where
  title := "Tutor code proposal".toList
  explanation := []
  learningObjective := []
  files := [⟨path.toList, content.toList⟩]

theorem oneFile_patching (path content : String)
    (accepted : validateWorkspacePatch (.object [("files".toList,
      .array [.object [("path".toList, .string path.toList),
        ("content".toList, .string content.toList)]])]) = .ok (oneFilePatch path content))
    (ending : Text.endsWith path.toList slash = false)
    (passable : Passable siblingDisk.tree (placeIn "w".toList path.toList).dropLast)
    (free : siblingDisk.tree.node (placeIn "w".toList path.toList) ≠ some .directory) :
    Patching siblingWorkspace siblingDisk "w".toList (oneFilePatch path content) where
  mirrors := siblings_mirrors
  sound := fun _ member => by cases member
  metadata := ⟨by decide +kernel, by decide +kernel, by decide +kernel⟩
  accepted := ⟨_, accepted⟩
  endings file member _ := by
    rw [List.mem_singleton.mp member]
    exact ending
  passable file member := by
    rw [List.mem_singleton.mp member]
    exact passable
  free file member := by
    rw [List.mem_singleton.mp member]
    exact free
  apart file member other member' _ := by
    rw [List.mem_singleton.mp member, List.mem_singleton.mp member']

/-- A new file whose path starts no other one is undone. -/
theorem undoes_new_file : ∃ previous state after,
    (applyPatch plainBrowser 0 (oneFilePatch "src/new.rs" "n")).run Disk.serve siblingWorkspace
      siblingDisk = some (.ok (some previous), state, after) ∧
    Undoes plainBrowser "w".toList siblingWorkspace siblingDisk.tree previous state after := by
  have done : ((applyPatch plainBrowser 0 (oneFilePatch "src/new.rs" "n")).run Disk.serve
      siblingWorkspace siblingDisk).map (·.1) =
        some (.ok (some [⟨"src/new.rs".toList, none⟩])) := by decide +kernel
  obtain ⟨⟨result, state, after⟩, ran, rfl⟩ := Option.map_eq_some_iff.mp done
  have patching := oneFile_patching "src/new.rs" "n" rfl (by decide)
    (by decide +kernel) (by decide +kernel)
  refine ⟨_, state, after, ran, (undoes_iff_restorable patching ran).mpr ⟨fun _ => ?_, trivial⟩⟩
  refine ⟨Views.not_nextRemoved_nil, fun _ => by decide +kernel, fun key below there => ?_⟩
  obtain ⟨content, found⟩ := Option.isSome_iff_exists.mp there
  have apart : ∀ key ∈ siblingWorkspace.files.keys,
      deletesKey (pathIn "w".toList "src/new.rs".toList) key = false := by decide +kernel
  have kept := apart key (ExplorerFiles.mem_keys_of_content found)
  exact absurd (below.symm.trans kept) (by simp)

/-- Undoing the new file `a.r` deletes the file `a.rs` of the state too. -/
theorem not_always_undoes : ¬ ∀ (fs : LightningFs) (browser : Browser) (self : PgExplorer)
    (disk : Disk fs) (name : Text) (patch : WorkspacePatch) (fuel : Nat)
    (previous : List UndoFile) (state : PgExplorer) (after : Disk fs),
    Patching self disk name patch →
    (applyPatch browser fuel patch).run Disk.serve self disk =
      some (.ok (some previous), state, after) →
    Undoes browser name self disk.tree previous state after := by
  intro all
  have done : ((applyPatch plainBrowser 0 (oneFilePatch "src/a.r" "n")).run Disk.serve
      siblingWorkspace siblingDisk).map (·.1) =
        some (.ok (some [⟨"src/a.r".toList, none⟩])) := by decide +kernel
  obtain ⟨⟨result, state, after⟩, ran, rfl⟩ := Option.map_eq_some_iff.mp done
  have patching := oneFile_patching "src/a.r" "n" rfl (by decide) (by decide +kernel)
    (by decide +kernel)
  have undoes := all _ _ _ _ _ _ _ _ _ _ patching ran
  have lost : (((applyPatch plainBrowser 0 (oneFilePatch "src/a.r" "n")).run Disk.serve
      siblingWorkspace siblingDisk).bind fun (_, state, after) =>
        (undoPatch plainBrowser 0 [⟨"src/a.r".toList, none⟩]).run Disk.serve state after).map
          (·.2.1.files.content "/w/src/a.rs".toList) = some none := by decide +kernel
  obtain ⟨result, state', after', undone, -, shown, -⟩ := (undoes 0).exists_run
  rw [ran] at lost
  change ((undoPatch plainBrowser 0 [⟨"src/a.r".toList, none⟩]).run Disk.serve state after).map _ =
    _ at lost
  rw [undone] at lost
  have gone : state'.files.content "/w/src/a.rs".toList = none := Option.some.inj lost
  rw [shown] at gone
  exact absurd gone (by decide +kernel)

end Solpg.Client.Learning
