import Solpg.Std.PutBack
import Solpg.Client.Utils.Explorer.Deletion
import Solpg.Client.Utils.Explorer.Metadata

/-!
# Writing and deleting a file

What `createItem` with `override` and `deleteItem` do to the files of the state
and of the store, also when the store fails and while others work on the tabs.
-/

namespace Solpg.Client.Utils

open Solpg.Std PgCommon PgExplorer

variable {fs : LightningFs} {others : Interference} {cutOff : Prop} {disk : Disk fs} {count : Nat}
  {self : PgExplorer} {name path : Text} {browser : Browser}

/-! ## The metadata -/

/-- The metadata can be gathered from the state. -/
def SavesMeta (state : PgExplorer) : Prop := ∃ saved, state.savedMeta = .ok saved

/-- The metadata can be made exactly when every key has an item. -/
theorem metaEntries_ok_iff (here : self.context.At name) :
    (∃ entries, self.metaEntries = .ok entries) ↔
      ∀ key ∈ self.files.keys, (self.files.item key).isSome = true := by
  have stored : self.isTemporary = false := here.stored
  have relative : ∀ key, ∃ path, self.getRelativePath key = .ok path := by
    intro key
    rw [getRelativePath, stored, if_neg (by simp), requiredPath_of_at here]
    exact ⟨_, rfl⟩
  have gathered {entries : Except JsError (List (Text × ItemMetaEntry))}
      {order : List (Text × ItemMetaEntry) → List ItemMetaEntry} :
      (∃ result, (entries >>= fun entries => .ok (order entries)) = .ok result) ↔
        ∃ result, entries = .ok result := by
    cases entries with
    | error error =>
        refine iff_of_false ?_ ?_
        · rintro ⟨_, failed⟩
          cases failed
        · rintro ⟨_, failed⟩
          cases failed
    | ok entries => exact ⟨fun _ => ⟨_, rfl⟩, fun _ => ⟨_, rfl⟩⟩
  rw [metaEntries]
  refine gathered.trans (Outcome.exists_mapM_ok.trans (forall₂_congr fun key _ => ?_))
  obtain ⟨path, known⟩ := relative key
  simp only [known]
  cases self.files.item key with
  | none => simp
  | some item => exact ⟨fun _ => rfl, fun _ => ⟨_, rfl⟩⟩

/-- A key of another workspace keeps the metadata from being saved, and a key
without an item from being gathered. -/
theorem savesMeta_iff (here : self.context.At name) : SavesMeta self ↔
    (∃ key ∈ self.files.keys, key.startsWith (UnixPath.text [name] ++ slash) = false) ∨
      ∀ key ∈ self.files.keys, (self.files.item key).isSome = true := by
  have stored : self.isTemporary = false := here.stored
  rw [SavesMeta, savedMeta, stored, Bool.false_or, requiredPath_of_at here, ← metaEntries_ok_iff here]
  by_cases empty : self.files.keys = []
  · have entries := (metaEntries_ok_iff here).mpr (by simp [empty])
    simp [empty, entries]
  rw [if_neg (by simpa using empty)]
  change (∃ saved, (if (self.files.keys.any fun path =>
      !path.startsWith (UnixPath.text [name] ++ slash)) = true then Except.ok none
      else some <$> self.metaEntries) = Except.ok saved) ↔ _
  by_cases foreign : ∃ key ∈ self.files.keys,
      key.startsWith (UnixPath.text [name] ++ slash) = false
  · rw [if_pos (by simpa using foreign)]
    exact ⟨fun _ => .inl foreign, fun _ => ⟨none, rfl⟩⟩
  · rw [if_neg (by simpa using foreign)]
    simp only [foreign, false_or]
    cases self.metaEntries with
    | error error => simp
    | ok entries => exact ⟨fun _ => ⟨_, rfl⟩, fun _ => ⟨_, rfl⟩⟩

/-- The metadata can still be gathered when the keys that come have items and no
key of another workspace goes. -/
theorem SavesMeta.of_keys {state : PgExplorer} (saves : SavesMeta self)
    (here : self.context.At name) (same : state.context = self.context)
    (items : ∀ key ∈ state.files.keys, (state.files.item key).isSome = true ∨
      key ∈ self.files.keys ∧ state.files.item key = self.files.item key)
    (foreign : ∀ key ∈ self.files.keys,
      key.startsWith (UnixPath.text [name] ++ slash) = false → key ∈ state.files.keys) :
    SavesMeta state := by
  have here' : state.context.At name := same ▸ here
  rw [savesMeta_iff here'] 
  rw [savesMeta_iff here] at saves
  refine saves.imp ?_ ?_
  · rintro ⟨key, member, outside⟩
    exact ⟨key, foreign key member outside, outside⟩
  · intro all key member
    obtain item | ⟨before, item⟩ := items key member
    · exact item
    · rw [item]
      exact all key before

/-- The metadata can be written below the directory of the workspace. -/
structure WritableMetadata (tree : Tree) (name : Text) : Prop where
  directory : tree.node [name] = some .directory
  noFile : tree.content [name, ".workspace".toList] = none
  free : tree.node (metadataPlace name) ≠ some .directory

/-- The metadata file lies in the folder of the workspace. -/
theorem folder_prefix_metadata (name : Text) : [name, ".workspace".toList] <+: metadataPlace name :=
  ⟨["metadata.json".toList], rfl⟩

/-- Writable metadata may be saved. -/
theorem WritableMetadata.writable {tree : Tree} (writable : WritableMetadata tree name) :
    WritableMetaAt tree [name] :=
  ⟨writable.directory, writable.noFile, writable.free⟩

/-- Metadata that may be saved are writable. -/
theorem WritableMetadata.of_writable {tree : Tree} (writable : WritableMetaAt tree [name]) :
    WritableMetadata tree name :=
  ⟨writable.directory, writable.noFile, writable.free⟩

/-- `saveMeta` touches nothing but the metadata, and fails only when these cannot
be gathered or by a fault. -/
theorem saveMeta_keeps (here : self.context.At name) (tolerable : disk.Tolerable count)
    (writable : WritableMetadata disk.tree name) :
    (saveMeta browser).Ensures (others.setting fs cutOff) self disk fun result self' disk' =>
      others.Rel self self' ∧ WritableMetadata disk'.tree name ∧
        SameOutside [name, ".workspace".toList] disk.tree disk'.tree ∧
        match result with
        | .ok _ => disk'.Tolerable count ∧ SavesMeta self
        | .error _ => SavesMeta self → ∃ fewer < count, disk'.Tolerable fewer := by
  refine (saveMeta_writes here.within tolerable writable.writable).mono ?_
  rintro result self' disk' ⟨moved, writable', outside, outcome⟩
  refine ⟨moved, .of_writable writable', outside, ?_⟩
  cases known : self.savedMeta with
  | error error =>
      rw [known] at outcome
      obtain ⟨rfl, rfl⟩ := outcome
      rintro ⟨saved, same⟩
      rw [known] at same
      cases same
  | ok saved =>
      rw [known] at outcome
      cases saved with
      | none =>
          obtain ⟨rfl, rfl⟩ := outcome
          exact ⟨tolerable, none, known⟩
      | some entries =>
          cases result with
          | error error => exact fun _ => outcome
          | ok done => exact ⟨outcome.1, _, known⟩

/-! ## Paths of files -/

/-- Where a path of the workspace lies on the disk. -/
def placeIn (name path : Text) : List Text := locate (pathIn name path)

/-- A relative path that `createItem` takes for that of a file. -/
structure FilePath (name path : Text) (parent : List Text) (last : Text) : Prop where
  relative : path.startsWith slash = false
  full : pathIn name path = UnixPath.text (parent ++ [last])
  rough : UnixPath.Rough (parent ++ [last])
  isFile : getItemTypeFromName last = .file
  valid : isItemNameValid last = true
  apart : ¬ [name, ".workspace".toList] <+: UnixPath.plain parent ++ [last]
  inside : name :: [] <+: UnixPath.plain parent

namespace FilePath

variable {parent : List Text} {last : Text}

/-- A file's name is not the dot. -/
theorem notDot (filePath : FilePath name path parent last) : last ≠ ['.'] := by
  rintro rfl
  exact absurd filePath.valid (by decide)

/-- A file's place is its name below its parent. -/
theorem place (filePath : FilePath name path parent last) :
    placeIn name path = UnixPath.plain parent ++ [last] := by
  rw [placeIn, filePath.full]
  have rough := UnixPath.location_text_rough filePath.rough [] (by simp)
  refine rough.trans ?_
  simp [UnixPath.plain, filePath.notDot]

/-- A file's full path starts with a slash. -/
theorem startsWith_slash (filePath : FilePath name path parent last) :
    (pathIn name path).startsWith slash = true := by
  rw [filePath.full]
  exact text_startsWith_slash (by simp)

/-- A file's full path does not end in a slash. -/
theorem endsWith_slash (filePath : FilePath name path parent last) :
    (pathIn name path).endsWith slash = false := by
  obtain ⟨nonempty, noSlash, -⟩ := filePath.rough last (by simp)
  rw [filePath.full]
  exact text_endsWith_slash_of_slashless nonempty noSlash

/-- The item name of a file's path is its last component. -/
theorem itemName (filePath : FilePath name path parent last) :
    getItemNameFromPath (pathIn name path) = last := by
  rw [filePath.full]
  exact getItemNameFromPath_text filePath.rough.slashless (filePath.rough last (by simp)).1

/-- A file's path is that of a file. -/
theorem itemType (filePath : FilePath name path parent last) :
    getItemTypeFromPath (pathIn name path) = .file := by
  rw [getItemTypeFromPath, filePath.itemName, filePath.isFile]

/-- The parent path of a file is that of its directory. -/
theorem parentPath (filePath : FilePath name path parent last) :
    getParentPathFromPath (pathIn name path) = UnixPath.text parent ++ slash := by
  rw [filePath.full]
  exact getParentPathFromPath_text filePath.rough

/-- No file is the parent of another. -/
theorem notParent (filePath : FilePath name path parent last) {other : Text} {otherParent : List Text}
    {otherLast : Text} (otherPath : FilePath name other otherParent otherLast) :
    getParentPathFromPath (pathIn name other) ≠ pathIn name path := by
  intro same
  have ends := filePath.endsWith_slash
  rw [← same, otherPath.parentPath, Utils.endsWith_slash] at ends
  cases ends

end FilePath

/-! ## What a change of one file keeps -/

/-- At most the file at a place is changed and the directories above it are made. -/
structure Changed (name : Text) (place : List Text) (old new : Tree) : Prop where
  content : ∀ other, ¬ [name, ".workspace".toList] <+: other → other ≠ place →
    new.content other = old.content other
  directory : ∀ other, ¬ [name, ".workspace".toList] <+: other → new.node other = some .directory →
    old.node other = some .directory ∨ other <+: place ∧ other ≠ place
  metadata : WritableMetadata new name

/-- The paths are those of files that can be written and the parents of which the
state does not take for files. -/
structure Ready (name : Text) (paths : List Text) (state : PgExplorer) (tree : Tree) : Prop where
  here : state.context.At name
  metadata : WritableMetadata tree name
  passable : ∀ path ∈ paths, Passable tree (placeIn name path).dropLast
  free : ∀ path ∈ paths, tree.node (placeIn name path) ≠ some .directory
  parents : ∀ path ∈ paths,
    state.files.content (getParentPathFromPath (pathIn name path)) = none

/-- Paths of files, none of which leads below the file of another one. -/
structure FilePaths (name : Text) (paths : List Text) : Prop where
  isFile : ∀ path ∈ paths, ∃ parent last, FilePath name path parent last
  apart : ∀ path ∈ paths, ∀ other ∈ paths, placeIn name path <+: placeIn name other →
    placeIn name path = placeIn name other

/-- A change of one file keeps the others ready. -/
theorem Ready.changed {paths : List Text} {tree new : Tree} {state : PgExplorer}
    (ready : Ready name paths self tree) (filePaths : FilePaths name paths) (member : path ∈ paths)
    (changed : Changed name (placeIn name path) tree new) (context : state.context = self.context)
    (parents : ∀ other ∈ paths,
      state.files.content (getParentPathFromPath (pathIn name other)) = none) :
    Ready name paths state new where
  here := context ▸ ready.here
  metadata := changed.metadata
  parents := parents
  passable other member' place above := by
    obtain ⟨parent, last, otherPath⟩ := filePaths.isFile other member'
    have within : place <+: placeIn name other := above.trans (List.dropLast_prefix _)
    have outside : ¬ [name, ".workspace".toList] <+: place := by
      intro below
      rw [otherPath.place] at within
      exact otherPath.apart (below.trans within)
    rw [changed.content place outside ?_]
    · exact ready.passable other member' place above
    · rintro rfl
      have same := filePaths.apart path member other member' within
      rw [same, otherPath.place, List.dropLast_concat] at above
      exact absurd above.length_le (by simp)
  free other member' directory := by
    obtain ⟨parent, last, otherPath⟩ := filePaths.isFile other member'
    have outside : ¬ [name, ".workspace".toList] <+: placeIn name other := by
      rw [otherPath.place]
      exact otherPath.apart
    rcases changed.directory _ outside directory with before | ⟨above, different⟩
    · exact ready.free other member' before
    · exact different (filePaths.apart other member' path member above)

/-- Readiness depends on the context and the files only. -/
theorem Ready.congr {paths : List Text} {tree : Tree} {state : PgExplorer}
    (ready : Ready name paths self tree) (context : state.context = self.context)
    (files : state.files = self.files) : Ready name paths state tree where
  here := context ▸ ready.here
  metadata := ready.metadata
  passable := ready.passable
  free := ready.free
  parents path member := by
    rw [files]
    exact ready.parents path member

/-- Saving the metadata keeps what is asked of the paths. -/
theorem Ready.saved {paths : List Text} {tree new : Tree} (ready : Ready name paths self tree)
    (filePaths : FilePaths name paths) (metadata : WritableMetadata new name)
    (same : SameOutside [name, ".workspace".toList] tree new) : Ready name paths self new where
  here := ready.here
  metadata := metadata
  parents := ready.parents
  passable path member place above := by
    obtain ⟨parent, last, filePath⟩ := filePaths.isFile path member
    rw [DirectoryTree.content, same place]
    · exact ready.passable path member place above
    · intro below
      have within := below.trans (above.trans (List.dropLast_prefix _))
      rw [filePath.place] at within
      exact filePath.apart within
  free path member := by
    obtain ⟨parent, last, filePath⟩ := filePaths.isFile path member
    rw [same]
    · exact ready.free path member
    · rw [filePath.place]
      exact filePath.apart

namespace FilePath

variable {parent : List Text} {last : Text} {old new : Tree}

/-- The directories above the file are not above the metadata. -/
theorem metadata_apart (filePath : FilePath name path parent last) {part : List Text}
    (within : part <+: UnixPath.plain parent) : ¬ metadataPlace name <+: part := by
  intro above
  have below := (folder_prefix_metadata name).trans (above.trans within)
  exact filePath.apart (below.trans (List.prefix_append _ _))

/-- A file is not the workspace's directory. -/
theorem ne_root (filePath : FilePath name path parent last) :
    [name] ≠ UnixPath.plain parent ++ [last] := by
  intro same
  have short := congrArg List.length same
  have long := filePath.inside.length_le
  simp only [List.length_append, List.length_singleton] at short long
  omega

/-- Growing directories towards a file changes nothing else. -/
theorem grown (filePath : FilePath name path parent last) (metadata : WritableMetadata old name)
    {part : List Text} (within : part <+: UnixPath.plain parent)
    (grown : new.node = DirectoryTree.grow old.node part) :
    Changed name (placeIn name path) old new ∧
      new.content (placeIn name path) = old.content (placeIn name path) := by
  refine ⟨⟨fun other _ _ => content_of_node grown other, fun other _ directory => ?_, ⟨?_, ?_, ?_⟩⟩,
    content_of_node grown _⟩
  · rw [grown, DirectoryTree.grow_eq_directory] at directory
    refine directory.imp_right fun missing => ?_
    have above := missing.2.trans within
    rw [filePath.place]
    refine ⟨above.trans (List.prefix_append _ _), ?_⟩
    rintro rfl
    exact absurd above.length_le (by simp)
  · rw [grown, DirectoryTree.grow_eq_directory]
    exact .inl metadata.directory
  · rw [content_of_node grown]
    exact metadata.noFile
  · rw [grown, Ne, DirectoryTree.grow_eq_directory, not_or]
    exact ⟨metadata.free, fun both => filePath.metadata_apart within both.2⟩

/-- Writing a file changes nothing else. -/
theorem written (filePath : FilePath name path parent last) (metadata : WritableMetadata old name)
    {data : Text} (written : new.node =
      Function.update (DirectoryTree.grow old.node (UnixPath.plain parent))
        (UnixPath.plain parent ++ [last]) (some (.file data))) :
    Changed name (placeIn name path) old new ∧
      new.content (placeIn name path) = some data := by
  have elsewhere : ∀ other, other ≠ UnixPath.plain parent ++ [last] →
      new.node other = DirectoryTree.grow old.node (UnixPath.plain parent) other := by
    intro other different
    rw [written, Function.update_of_ne different]
  have content : ∀ other, other ≠ UnixPath.plain parent ++ [last] →
      new.content other = old.content other := by
    intro other different
    refine Option.ext fun text => ?_
    rw [DirectoryTree.content_eq_some, elsewhere other different, DirectoryTree.grow_eq_file,
      ← DirectoryTree.content_eq_some]
  have outside : ∀ other, [name, ".workspace".toList] <+: other →
      other ≠ UnixPath.plain parent ++ [last] := by
    rintro other below rfl
    exact filePath.apart below
  rw [filePath.place]
  refine ⟨⟨fun other _ => content other, fun other _ directory => ?_, ⟨?_, ?_, ?_⟩⟩, ?_⟩
  · by_cases here : other = UnixPath.plain parent ++ [last]
    · rw [here, written, Function.update_self] at directory
      cases directory
    · rw [elsewhere other here, DirectoryTree.grow_eq_directory] at directory
      exact directory.imp_right fun missing => ⟨missing.2.trans (List.prefix_append _ _), here⟩
  · rw [elsewhere _ filePath.ne_root, DirectoryTree.grow_eq_directory]
    exact .inl metadata.directory
  · rw [content _ (outside _ List.prefix_rfl)]
    exact metadata.noFile
  · rw [elsewhere _ (outside _ (folder_prefix_metadata name)), Ne,
      DirectoryTree.grow_eq_directory, not_or]
    exact ⟨metadata.free, fun both => filePath.metadata_apart List.prefix_rfl both.2⟩
  · rw [DirectoryTree.content_eq_some, written, Function.update_self]

/-- The file itself is removed. -/
theorem removed (filePath : FilePath name path parent last) (metadata : WritableMetadata old name)
    (removed : new.node = Function.update old.node (UnixPath.plain parent ++ [last]) none) :
    Changed name (placeIn name path) old new ∧ new.content (placeIn name path) = none := by
  have elsewhere : ∀ other, other ≠ UnixPath.plain parent ++ [last] →
      new.node other = old.node other := by
    intro other different
    rw [removed, Function.update_of_ne different]
  have outside : ∀ other, [name, ".workspace".toList] <+: other →
      other ≠ UnixPath.plain parent ++ [last] := by
    rintro other below rfl
    exact filePath.apart below
  rw [filePath.place]
  refine ⟨⟨fun other _ different => ?_, fun other _ directory => .inl ?_, ⟨?_, ?_, ?_⟩⟩, ?_⟩
  · rw [DirectoryTree.content, elsewhere other different]
    rfl
  · by_cases here : other = UnixPath.plain parent ++ [last]
    · rw [here, removed, Function.update_self] at directory
      cases directory
    · rw [← elsewhere other here]
      exact directory
  · rw [elsewhere _ filePath.ne_root]
    exact metadata.directory
  · rw [DirectoryTree.content, elsewhere _ (outside _ List.prefix_rfl)]
    exact metadata.noFile
  · rw [elsewhere _ (outside _ (folder_prefix_metadata name))]
    exact metadata.free
  · rw [DirectoryTree.content, removed, Function.update_self]

end FilePath

/-! ## The two views of the files -/

/-- The files that the state shows and those that are stored, the metadata apart. -/
def viewsOf (name : Text) (state : PgExplorer) (tree : Tree) : Views Text (List Text) Text where
  shown := state.files.content
  stored place := if [name, ".workspace".toList] <+: place then none else tree.content place

section Views

variable {parent : List Text} {last data : Text} {old new : Tree} {state : PgExplorer}

@[simp] theorem viewsOf_shown (name : Text) (state : PgExplorer) (tree : Tree) :
    (viewsOf name state tree).shown = state.files.content := rfl

/-- What is stored is the disk outside the metadata folder. -/
theorem viewsOf_stored (name : Text) (state : PgExplorer) (tree : Tree) (place : List Text) :
    (viewsOf name state tree).stored place =
      if [name, ".workspace".toList] <+: place then none else tree.content place := rfl

/-- Only the file at the place is seen to change. -/
theorem FilePath.stored_changed (filePath : FilePath name path parent last)
    (changed : Changed name (placeIn name path) old new) (place : List Text) :
    (viewsOf name state new).stored place =
      if place = placeIn name path then new.content (placeIn name path)
      else (viewsOf name self old).stored place := by
  rw [viewsOf_stored, viewsOf_stored]
  by_cases here : place = placeIn name path
  · have apart := filePath.apart
    rw [← filePath.place, ← here] at apart
    rw [if_pos here, if_neg apart, here]
  · rw [if_neg here]
    split
    next => rfl
    next outside => exact changed.content place outside here

/-- The metadata are not among the views. -/
theorem viewsOf_saved (shown : state.files = self.files)
    (same : SameOutside [name, ".workspace".toList] old new) :
    viewsOf name state new = viewsOf name self old := by
  refine Views.ext (by simp [shown]) (funext fun place => ?_)
  rw [viewsOf_stored, viewsOf_stored]
  split
  next => rfl
  next outside =>
    rw [DirectoryTree.content, same place outside]
    rfl

/-- A write changes both views at its file. -/
theorem viewsOf_write (filePath : FilePath name path parent last)
    (changed : Changed name (placeIn name path) old new)
    (there : new.content (placeIn name path) = some data)
    (shown : ∀ key, state.files.content key =
      if key = pathIn name path then some data else self.files.content key) :
    viewsOf name state new =
      (viewsOf name self old).write (pathIn name path) (placeIn name path) data := by
  refine Views.ext (funext shown) (funext fun place => ?_)
  rw [@FilePath.stored_changed self name path parent last old new state filePath changed, there]
  rfl

/-- A write of the stored content changes no view. -/
theorem viewsOf_same (filePath : FilePath name path parent last)
    (changed : Changed name (placeIn name path) old new)
    (same : new.content (placeIn name path) = old.content (placeIn name path))
    (shown : state.files = self.files) : viewsOf name state new = viewsOf name self old := by
  refine Views.ext (by simp [shown]) (funext fun place => ?_)
  rw [@FilePath.stored_changed self name path parent last old new state filePath changed, same]
  split
  next here =>
    have apart := filePath.apart
    rw [← filePath.place] at apart
    rw [here, viewsOf_stored, if_neg apart]
  next => rfl

/-- A removal takes the file from both views. -/
theorem viewsOf_remove (filePath : FilePath name path parent last)
    (changed : Changed name (placeIn name path) old new)
    (gone : new.content (placeIn name path) = none)
    (shown : ∀ key, state.files.content key =
      if key.startsWith (pathIn name path) then none else self.files.content key) :
    viewsOf name state new = (viewsOf name self old).remove (fun path key => key.startsWith path)
      (pathIn name path) (placeIn name path) := by
  refine Views.ext (funext shown) (funext fun place => ?_)
  rw [@FilePath.stored_changed self name path parent last old new state filePath changed, gone]
  rfl

end Views

/-- The others leave the files alone. -/
structure TabsOnly (others : Interference) : Prop where
  files : ∀ {first second}, others.Rel first second → second.files = first.files

/-- Nobody else changes the tabs only. -/
theorem tabsOnly_nobody : TabsOnly .nobody := ⟨fun same => congrArg PgExplorer.files same⟩

/-- Saving the metadata depends on the context and the files only. -/
theorem SavesMeta.congr {state : PgExplorer} (saves : SavesMeta self) (here : self.context.At name)
    (context : state.context = self.context) (files : state.files = self.files) : SavesMeta state :=
  saves.of_keys here context (fun key member => .inr ⟨files ▸ member, by rw [files]⟩)
    fun key member _ => files ▸ member

/-! ## `createItem` -/

section CreateItem

variable {paths parent : List Text} {last data : Text} {opts : CreateItemOptions}

/-- A file may be created where overriding is allowed. -/
theorem checkCreate_of_filePath (filePath : FilePath name path parent last)
    (override : opts.override = true) : self.checkCreate (pathIn name path) opts = .ok () := by
  simp [checkCreate, filePath.itemName, filePath.valid, override]

/-- The state after the file has been written. -/
theorem createdFile_ready {state : PgExplorer} {tree new : Tree} {previous : Option Text}
    (filePaths : FilePaths name paths) (ready : Ready name paths self tree) (member : path ∈ paths)
    (context : state.context = self.context) (files : state.files = self.files)
    (changed : Changed name (placeIn name path) tree new)
    (there : new.content (placeIn name path) = some data) {after : PgExplorer}
    (created : after =
      (state.createdFile self.generation (pathIn name path) data previous opts).dispatch .createItem) :
    Ready name paths after new ∧
      viewsOf name after new =
        (viewsOf name self tree).write (pathIn name path) (placeIn name path) data ∧
      (SavesMeta self → SavesMeta after) := by
  obtain ⟨parent, last, filePath⟩ := filePaths.isFile path member
  have generation : self.generation = state.generation := (congrArg Context.generation context).symm
  have afterFiles : after.files = self.files.set (pathIn name path) (some
      ⟨some data, some (((self.files.item (pathIn name path)).bind ItemInfo.meta_).getD ⟨none⟩)⟩) := by
    rw [created, generation, dispatch_files, createdFile_files, files]
  have afterContext : after.context = self.context := by
    rw [created, dispatch_context, createdFile_context, context]
  have shown : ∀ key, after.files.content key =
      if key = pathIn name path then some data else self.files.content key := by
    intro key
    rw [afterFiles, ExplorerFiles.content_set]
    rfl
  refine ⟨ready.changed filePaths member changed afterContext fun other member' => ?_,
    viewsOf_write filePath changed there shown, fun saves => ?_⟩
  · obtain ⟨otherParent, otherLast, otherPath⟩ := filePaths.isFile other member'
    rw [shown, if_neg (filePath.notParent otherPath)]
    exact ready.parents other member'
  · refine saves.of_keys ready.here afterContext (fun key among => ?_) fun key among _ => ?_
    · rw [afterFiles, OrderedMap.mem_keys_set] at among
      rw [afterFiles, ExplorerFiles.item_set]
      by_cases here : key = pathIn name path
      · exact .inl (by rw [if_pos here]; rfl)
      · exact .inr ⟨among.resolve_left here, if_neg here⟩
    · rw [afterFiles, OrderedMap.mem_keys_set]
      exact .inr among

/-- Storing an item writes its file. -/
theorem storeItem_writes (filePaths : FilePaths name paths)
    (ready : Ready name paths self disk.tree) (member : path ∈ paths)
    (tolerable : disk.Tolerable count) :
    (storeItem (pathIn name path) data opts).Ensures (others.setting fs cutOff) self disk
      fun result self' disk' => Changed name (placeIn name path) disk.tree disk'.tree ∧
        match result with
        | .ok _ => disk'.Tolerable count ∧ disk'.tree.content (placeIn name path) = some data ∧
            ∃ state, others.Rel self state ∧ self' = state.createdFile self.generation
              (pathIn name path) data (self.files.content (pathIn name path)) opts
        | .error _ => (∃ fewer < count, disk'.Tolerable fewer) ∧
            disk'.tree.content (placeIn name path) = disk.tree.content (placeIn name path) ∧
            others.Rel self self' := by
  obtain ⟨parent, last, filePath⟩ := filePaths.isFile path member
  have place : locate (pathIn name path) = UnixPath.plain parent ++ [last] := filePath.place
  have passable := ready.passable path member
  have free := ready.free path member
  rw [filePath.place] at free
  rw [filePath.place, List.dropLast_concat] at passable
  have writes := @writeRough_acts fs others cutOff self.context disk count (pathIn name path)
    (pathIn name path) data parent last tolerable (UnixPath.rough_append.mp filePath.rough).1
    (leadsTo_full filePath.startsWith_slash) filePath.parentPath place passable free
  rw [storeItem, Async.ensures_bind, Async.ensures_get, either_ok, filePath.itemType]
  refine Async.Ensures.bind ((ensures_unlessTemporary ready.here.stored).mpr (writes self rfl)) ?_ ?_
  · rintro _ state disk' ⟨moved, left, written⟩
    obtain ⟨changed, there⟩ := filePath.written ready.metadata written
    exact ⟨changed, left, there, state, moved, rfl⟩
  · rintro error state disk' ⟨moved, left, part, within, grown⟩
    obtain ⟨changed, same⟩ := filePath.grown ready.metadata within grown
    exact ⟨changed, left, same, moved⟩

/-- `createItem` with `override` writes the file or fails by a fault: then the file
is as before or written. -/
theorem createItem_writes (tabsOnly : TabsOnly others) (filePaths : FilePaths name paths)
    (ready : Ready name paths self disk.tree) (member : path ∈ paths)
    (override : opts.override = true) (tolerable : disk.Tolerable count) :
    (createItem browser path data opts).Ensures (others.setting fs cutOff) self disk
      fun result self' disk' =>
        match result with
        | .ok _ => disk'.Tolerable count ∧ SavesMeta self' ∧ Ready name paths self' disk'.tree ∧
            viewsOf name self' disk'.tree =
              (viewsOf name self disk.tree).write (pathIn name path) (placeIn name path) data
        | .error _ => SavesMeta self → (∃ fewer < count, disk'.Tolerable fewer) ∧ SavesMeta self' ∧
            Ready name paths self' disk'.tree ∧
            (viewsOf name self' disk'.tree = viewsOf name self disk.tree ∨
              viewsOf name self' disk'.tree =
                (viewsOf name self disk.tree).write (pathIn name path) (placeIn name path) data) := by
  obtain ⟨parent, last, filePath⟩ := filePaths.isFile path member
  have full : self.convertToFullPath path = .ok (pathIn name path) :=
    convertToFullPath_of_at ready.here path
  rw [createItem, Async.ensures_bind, PgM.ensures_sync, full, either_ok, Async.ensures_bind,
    PgM.ensures_sync, checkCreate_of_filePath filePath override, either_ok]
  refine Async.Ensures.bind (storeItem_writes filePaths ready member tolerable) ?_ ?_
  · rintro _ created disk₁ ⟨changed, left, there, state, moved, rfl⟩
    obtain ⟨ready₁, views₁, saves₁⟩ := createdFile_ready filePaths ready member
      (others.context moved) (tabsOnly.files moved) changed there rfl
    rw [Async.ensures_bind, Async.ensures_modify, either_ok]
    refine (saveMeta_keeps ready₁.here left ready₁.metadata).mono ?_
    rintro result final disk₂ ⟨later, metadata, same, ended⟩
    have context := others.context later
    have files := tabsOnly.files later
    have ready₂ := (ready₁.saved filePaths metadata same).congr context files
    have views₂ := (viewsOf_saved files same).trans views₁
    cases result with
    | ok _ => exact ⟨ended.1, ended.2.congr ready₁.here context files, ready₂, views₂⟩
    | error error =>
        intro saves
        have gathered := saves₁ saves
        exact ⟨ended gathered, gathered.congr ready₁.here context files, ready₂, .inr views₂⟩
  · rintro error final disk₁ ⟨changed, left, same, moved⟩ saves
    have context := others.context moved
    have files := tabsOnly.files moved
    refine ⟨left, saves.congr ready.here context files, ?_,
      .inl (viewsOf_same filePath changed same files)⟩
    refine ready.changed filePaths member changed context fun other member' => ?_
    rw [files]
    exact ready.parents other member'

end CreateItem

/-! ## `deleteItem` -/

section DeleteItem

variable {paths parent : List Text} {last : Text} {fuel : Nat}

/-- A file may be deleted. -/
theorem checkDelete_of_filePath (here : self.context.At name)
    (filePath : FilePath name path parent last) :
    self.checkDelete (pathIn name path) = .ok () := by
  have different : isPathsEqual (pathIn name path)
      (UnixPath.text [name, "src".toList] ++ slash) = false := by
    rw [isPathsEqual, filePath.full, appendSlash_text_of_rough filePath.rough,
      appendSlash_of_endsWith (endsWith_slash _), decide_eq_false_iff_not]
    intro same
    have slashless : UnixPath.Slashless [name, "src".toList] := by
      intro other member
      rcases List.mem_cons.mp member with rfl | later
      · exact here.isName.2.1
      · rw [List.mem_singleton.mp later]
        decide
    have names := UnixPath.text_injective filePath.rough.slashless slashless
      (List.append_cancel_right same)
    have isSrc : last = "src".toList := by
      have ends := congrArg (List.getLast? ·) names
      simpa using ends
    exact absurd filePath.isFile (by rw [isSrc]; decide)
  rw [checkDelete, getCurrentSrcPath_of_at here]
  simp only [Except.bind, different]
  rfl

/-- Removing an item that is a file removes it from the disk. -/
theorem removeItem_file_acts {context : Context} {content : Text} (tolerable : disk.Tolerable count)
    (filePath : FilePath name path parent last)
    (found : disk.tree.node (UnixPath.plain parent ++ [last]) = some (.file content)) :
    Acts others cutOff context (removeItem fuel (pathIn name path)) disk (Outcome count
      (fun _ tree => tree.node =
        Function.update disk.tree.node (UnixPath.plain parent ++ [last]) none)
      (· = disk.tree)) := by
  have full := filePath.startsWith_slash
  have place : locate (pathIn name path) = UnixPath.plain parent ++ [last] := filePath.place
  refine Acts.bind _ (getMetadata_acts tolerable full (by rw [place]; exact found)) ?_ ?_
  · rintro _ disk₁ ⟨left, rfl, tree⟩
    have found₁ : disk₁.tree.node (locate (pathIn name path)) = some (.file content) := by
      rw [place, tree]
      exact found
    obtain ⟨answer, removed⟩ := fs.unlink_file found₁
    rw [place] at removed
    rw [← tree]
    exact acts_sync_bind (leadsTo_full full) (acts_call _ _ left ⟨(), answer, removed⟩ rfl)
  · exact fun _ _ outcome => outcome

/-- Only what is stored is deleted. -/
theorem removeItem_missing_acts {context : Context} (tolerable : disk.Tolerable count)
    (filePath : FilePath name path parent last)
    (missing : disk.tree.node (UnixPath.plain parent ++ [last]) = none) :
    Acts others cutOff context (removeItem fuel (pathIn name path)) disk
      fun result disk' => (∃ error, result = .error error) ∧ disk'.tree = disk.tree ∧
        disk'.Tolerable count := by
  have full := filePath.startsWith_slash
  have place : locate (pathIn name path) = UnixPath.plain parent ++ [last] := filePath.place
  refine Acts.bind (fun result disk' => (∃ error, result = .error error) ∧
    disk'.tree = disk.tree ∧ disk'.Tolerable count) ?_ ?_ ?_
  · refine acts_sync_bind (leadsTo_full full) (acts_request ?_)
    obtain ⟨same, tree, left⟩ | ⟨⟨error, same, -⟩, tree, fewer, less, left⟩ :=
      tolerable.serve (.stat (pathIn name path))
    · obtain ⟨message, answer⟩ := @LightningFs.stat_missing fs disk.db (pathIn name path)
        (by rw [place]; exact missing)
      exact ⟨⟨_, same.trans answer⟩, tree.trans (fs.stat_same _ _), left⟩
    · exact ⟨⟨error, same⟩, tree, left.mono (by omega)⟩
  · rintro _ _ ⟨⟨error, failed⟩, -⟩
    cases failed
  · rintro error _ ⟨-, tree, left⟩
    exact ⟨⟨error, rfl⟩, tree, left⟩

/-- A file is removed, or nothing changes. -/
theorem removeItem_acts {context : Context} (tolerable : disk.Tolerable count)
    (filePath : FilePath name path parent last)
    (free : disk.tree.node (UnixPath.plain parent ++ [last]) ≠ some .directory) :
    Acts others cutOff context (removeItem fuel (pathIn name path)) disk fun result disk' =>
      match result with
      | .ok _ => (disk.tree.content (UnixPath.plain parent ++ [last])).isSome = true ∧
          disk'.Tolerable count ∧ disk'.tree.node =
            Function.update disk.tree.node (UnixPath.plain parent ++ [last]) none
      | .error _ => disk'.tree = disk.tree ∧
          (disk.tree.content (UnixPath.plain parent ++ [last]) = none ∧ disk'.Tolerable count ∨
            ∃ fewer < count, disk'.Tolerable fewer) := by
  cases found : disk.tree.node (UnixPath.plain parent ++ [last]) with
  | none =>
      have missing : disk.tree.content (UnixPath.plain parent ++ [last]) = none := by
        rw [DirectoryTree.content, found]
      refine (removeItem_missing_acts tolerable filePath found).mono ?_
      rintro _ disk' ⟨⟨error, rfl⟩, tree, left⟩
      exact ⟨tree, .inl ⟨missing, left⟩⟩
  | some node =>
      cases node with
      | directory => exact absurd found free
      | file content =>
          have stored := DirectoryTree.content_eq_some.mpr found
          refine (removeItem_file_acts tolerable filePath found).mono ?_
          intro result disk' outcome
          cases result with
          | ok _ => exact ⟨by rw [stored]; rfl, outcome⟩
          | error error => exact ⟨outcome.2, .inr outcome.1⟩

/-- The state after the file has been removed. -/
theorem deletedItem_ready {state : PgExplorer} {tree new : Tree} (filePaths : FilePaths name paths)
    (ready : Ready name paths self tree) (member : path ∈ paths)
    (context : state.context = self.context) (files : state.files = self.files)
    (changed : Changed name (placeIn name path) tree new)
    (gone : new.content (placeIn name path) = none) :
    Ready name paths (state.deletedItem (pathIn name path)) new ∧
      viewsOf name (state.deletedItem (pathIn name path)) new =
        (viewsOf name self tree).remove (fun path key => key.startsWith path) (pathIn name path)
          (placeIn name path) ∧
      (SavesMeta self → SavesMeta (state.deletedItem (pathIn name path))) := by
  obtain ⟨parent, last, filePath⟩ := filePaths.isFile path member
  have afterContext : (state.deletedItem (pathIn name path)).context = self.context := by
    rw [deletedItem_context, context]
  have shown : ∀ key, (state.deletedItem (pathIn name path)).files.content key =
      if key.startsWith (pathIn name path) then none else self.files.content key := by
    intro key
    rw [deletedItem_content, files]
    by_cases parentKey : key = getParentPathFromPath (pathIn name path)
    · rw [if_pos (.inl parentKey), parentKey, ready.parents path member, ite_self]
    · simp only [parentKey, false_or]
  refine ⟨ready.changed filePaths member changed afterContext fun other member' => ?_,
    viewsOf_remove filePath changed gone shown, fun saves => ?_⟩
  · rw [shown, ready.parents other member', ite_self]
  · refine saves.of_keys ready.here afterContext (fun key among => ?_) fun key among foreign => ?_
    · rw [OrderedMap.mem_keys_iff, deletedItem_get, files] at among
      rw [ExplorerFiles.item, deletedItem_get, files]
      split at among
      next parentKey => exact .inl (by rw [if_pos parentKey]; rfl)
      next other =>
        split at among
        · cases among
        next kept =>
          rw [if_neg other, if_neg kept]
          exact .inr ⟨OrderedMap.mem_keys_iff.mpr among, rfl⟩
    · have outside : ¬ key.startsWith (pathIn name path) = true := by
        intro below
        rw [startsWith_iff] at below
        have within : UnixPath.text [name] ++ slash <+: pathIn name path := by
          rw [pathIn, if_neg (by simp [filePath.relative])]
          exact List.prefix_append _ _
        have starts := (startsWith_iff _ _).mpr (within.trans below)
        rw [foreign] at starts
        cases starts
      rw [OrderedMap.mem_keys_iff, deletedItem_get, files]
      split
      · rfl
      · exact OrderedMap.mem_keys_iff.mp among

/-- How `deleteItem` ends: the file is removed, with all keys that start with its
path, or nothing changes; without a fault it fails where nothing is stored. -/
theorem deleteItem_ends (tabsOnly : TabsOnly others) (filePaths : FilePaths name paths)
    (ready : Ready name paths self disk.tree) (member : path ∈ paths)
    (tolerable : disk.Tolerable count) :
    (deleteItem browser fuel path).Ensures (others.setting fs cutOff) self disk
      fun result self' disk' =>
        match result with
        | .ok _ => ((viewsOf name self disk.tree).stored (placeIn name path)).isSome = true ∧
            disk'.Tolerable count ∧ SavesMeta self' ∧ Ready name paths self' disk'.tree ∧
            viewsOf name self' disk'.tree =
              (viewsOf name self disk.tree).remove (fun path key => key.startsWith path)
                (pathIn name path) (placeIn name path)
        | .error _ => SavesMeta self → SavesMeta self' ∧ Ready name paths self' disk'.tree ∧
            (viewsOf name self' disk'.tree = viewsOf name self disk.tree ∧
                ((viewsOf name self disk.tree).stored (placeIn name path) = none ∧
                    disk'.Tolerable count ∨ ∃ fewer < count, disk'.Tolerable fewer) ∨
              ((viewsOf name self disk.tree).stored (placeIn name path)).isSome = true ∧
                (∃ fewer < count, disk'.Tolerable fewer) ∧
                viewsOf name self' disk'.tree =
                  (viewsOf name self disk.tree).remove (fun path key => key.startsWith path)
                    (pathIn name path) (placeIn name path)) := by
  obtain ⟨parent, last, filePath⟩ := filePaths.isFile path member
  have full : self.convertToFullPath path = .ok (pathIn name path) :=
    convertToFullPath_of_at ready.here path
  have free := ready.free path member
  rw [filePath.place] at free
  have stored : (viewsOf name self disk.tree).stored (placeIn name path) =
      disk.tree.content (UnixPath.plain parent ++ [last]) := by
    rw [viewsOf_stored, filePath.place, if_neg filePath.apart]
  simp only [stored]
  rw [deleteItem, Async.ensures_bind, PgM.ensures_sync, full, either_ok, Async.ensures_bind,
    PgM.ensures_sync, checkDelete_of_filePath ready.here filePath, either_ok]
  refine Async.Ensures.bind ((ensures_unlessTemporary ready.here.stored).mpr
    (removeItem_acts tolerable filePath free self rfl)) ?_ ?_
  · rintro _ state disk₁ ⟨moved, there, left, removed⟩
    obtain ⟨changed, gone⟩ := filePath.removed ready.metadata removed
    obtain ⟨ready₁, views₁, saves₁⟩ := deletedItem_ready filePaths ready member
      (others.context moved) (tabsOnly.files moved) changed gone
    rw [Async.ensures_bind, Async.ensures_modify, either_ok]
    refine (saveMeta_keeps ready₁.here left ready₁.metadata).mono ?_
    rintro result final disk₂ ⟨later, metadata, same, ended⟩
    have context := others.context later
    have files := tabsOnly.files later
    have ready₂ := (ready₁.saved filePaths metadata same).congr context files
    have views₂ := (viewsOf_saved files same).trans views₁
    cases result with
    | ok _ => exact ⟨there, ended.1, ended.2.congr ready₁.here context files, ready₂, views₂⟩
    | error error =>
        intro saves
        have gathered := saves₁ saves
        exact ⟨gathered.congr ready₁.here context files, ready₂,
          .inr ⟨there, ended gathered, views₂⟩⟩
  · rintro error final disk₁ ⟨moved, tree, left⟩ saves
    have context := others.context moved
    have files := tabsOnly.files moved
    have unchanged : viewsOf name final disk₁.tree = viewsOf name self disk.tree := by
      rw [tree]
      exact viewsOf_saved files fun _ _ => rfl
    refine ⟨saves.congr ready.here context files, ?_, .inl ⟨unchanged, left⟩⟩
    rw [tree]
    exact ready.congr context files

/-- `deleteItem` of a stored file removes it, with all keys that start with its
path, or fails by a fault. -/
theorem deleteItem_removes (tabsOnly : TabsOnly others) (filePaths : FilePaths name paths)
    (ready : Ready name paths self disk.tree) (member : path ∈ paths)
    (stored : ((viewsOf name self disk.tree).stored (placeIn name path)).isSome = true)
    (tolerable : disk.Tolerable count) :
    (deleteItem browser fuel path).Ensures (others.setting fs cutOff) self disk
      fun result self' disk' =>
        match result with
        | .ok _ => disk'.Tolerable count ∧ SavesMeta self' ∧ Ready name paths self' disk'.tree ∧
            viewsOf name self' disk'.tree =
              (viewsOf name self disk.tree).remove (fun path key => key.startsWith path)
                (pathIn name path) (placeIn name path)
        | .error _ => SavesMeta self → ∃ fewer < count, disk'.Tolerable fewer := by
  refine (deleteItem_ends tabsOnly filePaths ready member tolerable).mono ?_
  intro result self' disk' ended
  cases result with
  | ok _ => exact ended.2
  | error error =>
      intro saves
      obtain ⟨-, -, ⟨-, ⟨missing, -⟩ | left⟩ | ⟨-, left, -⟩⟩ := ended saves
      · rw [missing] at stored
        cases stored
      · exact left
      · exact left

/-- What is not stored cannot be deleted. -/
theorem deleteItem_missing (filePaths : FilePaths name paths)
    (ready : Ready name paths self disk.tree) (member : path ∈ paths)
    (missing : (viewsOf name self disk.tree).stored (placeIn name path) = none)
    (tolerable : disk.Tolerable 0) :
    (deleteItem browser fuel path).Ensures (Interference.nobody.setting fs cutOff) self disk
      fun result _ _ => ∃ error, result = .error error := by
  refine (deleteItem_ends tabsOnly_nobody filePaths ready member tolerable).mono ?_
  intro result self' disk' ended
  cases result with
  | ok _ =>
      have stored := ended.1
      rw [missing] at stored
      cases stored
  | error error => exact ⟨error, rfl⟩

end DeleteItem

end Solpg.Client.Utils
