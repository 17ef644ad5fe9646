import Solpg.Client.Utils.Explorer.Mirror
import Solpg.Client.Utils.Explorer.Removing

/-!
# Deleting an item

`deleteItem` deletes by the start of the path in the state and a directory tree
in the store. When the two are the same, and when the tabs are those that are
left.
-/

namespace Solpg.Client.Utils

open Solpg.Std PgCommon

/-- An item of the workspace: a file, or a folder with or without a slash. -/
structure IsItem (tree : Tree) (name : Text) (rest : List Text) (path : Text) : Prop where
  inside : rest ≠ []
  visible : Visible rest
  exists_ : (tree.node (name :: rest)).isSome = true
  pathTo : PathTo (name :: rest) path
  folder : path.endsWith slash = true → tree.node (name :: rest) = some .directory

/-- What deleting an item is to do: the item and its files are gone, its tabs are
closed, and the store has the same files. -/
structure DeletesSubtree (name : Text) (rest : List Text) (before after : PgExplorer) (tree : Tree) :
    Prop where
  removed : tree.node (name :: rest) = none
  content : ∀ key, after.files.content key =
    if KeyBelow (name :: rest) key then none else before.files.content key
  tabs : after.tabs = before.tabs.filter fun tab => ¬ KeyBelow (name :: rest) tab
  mirrors : Mirrors after tree name

/-- `removeDir` takes the path of a directory with entries only with a slash. -/
def Removable (tree : Tree) (place : List Text) (path : Text) : Prop :=
  path.endsWith slash = true ∨ ∀ entry, tree.node (place ++ [entry]) = none

namespace PgExplorer

open PgM

variable {fs : LightningFs} {disk : Disk fs} {self : PgExplorer} {browser : Browser}
  {name path : Text} {rest : List Text} {item : Text}
  {setting : Setting PgExplorer FsCall FsCall.Answer (Disk fs)}

theorem ensures_unlessTemporary {program : PgM Unit} (stored : self.isTemporary = false)
    {post : Except JsError Unit → PgExplorer → Disk fs → Prop} :
    (unlessTemporary program).Ensures setting self disk post ↔
      program.Ensures setting self disk post := by
  rw [unlessTemporary, Async.ensures_bind, Async.ensures_get, either_ok, if_neg (by simp [stored])]

theorem getCurrentSrcPath_of_at (here : self.context.At name) :
    self.getCurrentSrcPath = .ok (UnixPath.text [name, "src".toList] ++ slash) := by
  have areNames : UnixPath.AreNames [name] := by
    intro other member
    rw [List.mem_singleton.mp member]
    exact here.isName
  have areSrc : UnixPath.AreNames [name, "src".toList] :=
    UnixPath.areNames_append.mpr ⟨areNames, by decide⟩
  have stored : self.isTemporary = false := here.stored
  have joined : joinPaths (UnixPath.text [name] ++ slash) "src".toList =
      UnixPath.text ([name] ++ ["src".toList]) := joinPaths_name areNames (.inr rfl) (by decide)
  rw [getCurrentSrcPath, getProjectRootPath, stored, if_neg (by simp), requiredPath_of_at here,
    Except.map, joined]
  exact congrArg Except.ok (appendSlash_text areSrc)

theorem checkDelete_of_at (here : self.context.At name) (areNames : UnixPath.AreNames (name :: rest))
    (pathTo : PathTo (name :: rest) path) (notSrc : rest ≠ ["src".toList]) :
    self.checkDelete path = .ok () := by
  have different : isPathsEqual path (UnixPath.text [name, "src".toList] ++ slash) = false := by
    rw [isPathsEqual, appendSlash_of_pathTo areNames pathTo,
      appendSlash_of_endsWith (endsWith_slash _), decide_eq_false_iff_not]
    intro same
    have areSrc : UnixPath.AreNames [name, "src".toList] := by
      intro other member
      rcases List.mem_cons.mp member with rfl | later
      · exact here.isName
      · rw [List.mem_singleton.mp later]
        decide
    have equal := UnixPath.text_injective areNames.slashless areSrc.slashless
      (List.append_cancel_right same)
    exact notSrc (List.cons.inj equal).2
  rw [checkDelete, getCurrentSrcPath_of_at here]
  simp only [Except.bind, different]
  rfl

theorem removeItem_acts {fuel : Nat} {context : Context} (sound : disk.Tolerable 0)
    (areNames : UnixPath.AreNames (name :: rest)) (item : IsItem disk.tree name rest path)
    (removable : Removable disk.tree (name :: rest) path)
    (deep : ∀ below, (disk.tree.node below).isSome = true → below.length < fuel) :
    Acts .nobody False context (removeItem fuel path) disk (Succeeds fun _ tree =>
      tree.node = DirectoryTree.cut disk.tree.node (name :: rest)) := by
  have full := item.pathTo.startsWith_slash (by simp)
  have place := locate_of_pathTo areNames (by simp) item.pathTo
  obtain ⟨node, found⟩ := Option.isSome_iff_exists.mp item.exists_
  refine Acts.bind _ (getMetadata_acts sound full (by rw [place]; exact found)).succeeds
    ?_ fun _ _ failed => (not_succeeds failed).elim
  rintro metadata disk₁ ⟨sound₁, rfl, tree⟩
  cases node with
  | file content =>
      have removes := @removeFile_acts fs .nobody False context disk₁ path sound₁ full content
        (by rw [place, tree]; exact found)
      rw [place, tree] at removes
      exact removes
  | directory =>
      rw [← tree] at found removable deep ⊢
      refine removeDir_acts sound₁ areNames (by simp) found (fun below exists_ => ?_) ?_
      · have short := deep _ exists_
        rw [List.length_append, List.length_cons] at short
        omega
      · obtain slashed | empty := removable
        · refine .inl (item.pathTo.resolve_left ?_)
          rintro rfl
          obtain ⟨parent, last, whole⟩ := (List.eq_nil_or_concat' (name :: rest)).resolve_left (by simp)
          rw [whole] at areNames slashed
          rw [text_endsWith_slash areNames.last] at slashed
          cases slashed
        · exact .inr ⟨item.pathTo, empty⟩

/-- The parent folder whose key is set: a folder with a dot in its name and a
slash is its own parent. -/
theorem parentPath_directory {tree : Tree} (item : IsItem tree name rest path)
    (areNames : UnixPath.AreNames (name :: rest)) : ∃ names, names ≠ [] ∧ UnixPath.AreNames names ∧
      tree.node names = some .directory ∧
      getParentPathFromPath path = UnixPath.text names ++ slash := by
  obtain ⟨before, last, rfl⟩ := (List.eq_nil_or_concat' rest).resolve_left item.inside
  have whole : name :: (before ++ [last]) = name :: before ++ [last] := by simp
  obtain ⟨-, -, exists_, pathTo, folder⟩ := item
  rw [whole] at areNames exists_ pathTo folder
  have parent := tree.closed _ _ exists_
  obtain rfl | rfl := pathTo
  · exact ⟨name :: before, by simp, areNames.parent, parent,
      getParentPathFromPath_of_pathTo areNames (.inl rfl)⟩
  · cases type : getItemTypeFromName last with
    | folder =>
        exact ⟨name :: before, by simp, areNames.parent, parent,
          getParentPathFromPath_of_pathTo areNames (.inr ⟨rfl, type⟩)⟩
    | file =>
        refine ⟨name :: before ++ [last], by simp, areNames, folder (endsWith_slash _), ?_⟩
        have split : (UnixPath.text (name :: before ++ [last]) ++ slash).splitOn '/' =
            [] :: (name :: before ++ [last] ++ [[]]) :=
          UnixPath.splitOn_text_slash areNames.slashless
        have itemType := getItemTypeFromPath_of_pathTo areNames (.inr rfl)
        rw [getParentPathFromPath, split, itemType, type]
        have erased : ([] :: (name :: before ++ [last] ++ [[]])).eraseIdx
            (([] :: (name :: before ++ [last] ++ [[]])).length - 1) =
              [] :: (name :: before ++ [last]) := by
          rw [List.eraseIdx_eq_dropLast (by simp), ← List.cons_append, List.dropLast_concat]
        simp only [reduceCtorEq, false_and, if_false, erased, foldl_join, List.nil_append]
        exact appendSlash_text areNames

/-- What is below `.workspace` is not shown. -/
theorem metadata_hidden {other : List Text} (visible : Visible other) :
    ¬ [name, ".workspace".toList] <+: name :: other := by
  intro within
  rw [List.cons_prefix_cons] at within
  cases other with
  | nil => exact absurd within.2.length_le (by simp)
  | cons first others =>
      obtain ⟨rfl, -⟩ := List.cons_prefix_cons.mp within.2
      exact absurd (visible _ List.mem_cons_self).2 (by decide)

/-- `saveMeta` at the end of a method: it may throw, but no shown file is touched. -/
theorem saveMeta_hidden (here : self.context.At name) {count : Nat} {others : Interference}
    {cutOff : Prop} (tolerable : disk.Tolerable count)
    (directory : disk.tree.node [name] = some .directory) :
    (saveMeta browser).Ensures (others.setting fs cutOff) self disk fun _ self' disk' =>
      others.Rel self self' ∧ disk'.Tolerable count ∧
        SameOutside [name, ".workspace".toList] disk.tree disk'.tree := by
  have above : [name, ".workspace".toList] <+: metadataPlace name := ⟨["metadata.json".toList], rfl⟩
  refine (saveMeta_framed browser here tolerable above ?_).mono ?_
  · intro place within outside
    rcases List.prefix_cons_iff.mp within with root | ⟨others, rfl, deeper⟩
    · rw [root, disk.tree.root]
      rfl
    · rcases List.prefix_cons_iff.mp deeper with folder | ⟨others, rfl, -⟩
      · rw [folder, directory]
        rfl
      · exact absurd ⟨others, rfl⟩ outside
  · rintro result self' disk' ⟨moved, ⟨left, outside⟩, -⟩
    exact ⟨moved, left, outside⟩

/-- What `deleteItem` does: the state loses the keys that start with the path,
the store what is at the path or below it. -/
theorem deleteItem_spec {fuel : Nat} (mirrors : Mirrors self disk.tree name)
    (sound : disk.Tolerable 0) (valid : self.bar.Valid) (leads : pathIn name item = path)
    (isItem : IsItem disk.tree name rest path) (notSrc : rest ≠ ["src".toList])
    (removable : Removable disk.tree (name :: rest) path)
    (deep : ∀ below, (disk.tree.node below).isSome = true → below.length < fuel) :
    (deleteItem browser fuel item).Ensures (Interference.nobody.setting fs False) self disk
      fun _ self' disk' =>
        (∀ key, self'.files.content key =
          if key.startsWith path then none else self.files.content key) ∧
        self'.tabs = (self.bar.closeAll (gone self.files path)).tabs ∧
        self'.context = self.context ∧ disk'.tree.node [name] = some .directory ∧
        disk'.tree.node (name :: rest) = none ∧
        ∀ other, Visible other → disk'.tree.content (name :: other) =
          if name :: rest <+: name :: other then none else disk.tree.content (name :: other) := by
  have areNames := isItem.visible.cons_areNames mirrors.here.isName
  have full : self.convertToFullPath item = .ok path := leads ▸ convertToFullPath_of_at mirrors.here item
  rw [deleteItem, Async.ensures_bind, ensures_sync, full, either_ok, Async.ensures_bind, ensures_sync,
    checkDelete_of_at mirrors.here areNames isItem.pathTo notSrc, either_ok]
  refine Async.Ensures.bind ((ensures_unlessTemporary mirrors.here.stored).mpr
    (removeItem_acts sound areNames isItem removable deep self rfl)) ?_ ?_
  swap
  · rintro error _ disk₁ ⟨rfl, failed⟩
    exact (not_succeeds failed).elim
  rintro _ state disk₁ ⟨rfl, sound₁, cut⟩
  have bar := deletedItem_bar valid path
  have context := deletedItem_context path state
  have hereAfter : (state.deletedItem path).context.At name := by
    rw [context]
    exact mirrors.here
  have directory₁ : disk₁.tree.node [name] = some .directory := by
    rw [cut, DirectoryTree.cut, if_neg, mirrors.directory]
    intro within
    exact isItem.inside (List.prefix_nil.mp (List.cons_prefix_cons.mp within).2)
  rw [Async.ensures_bind, Async.ensures_modify, either_ok]
  refine (saveMeta_hidden hereAfter sound₁ directory₁).mono ?_
  rintro result _ disk₂ ⟨rfl, -, outside⟩
  refine ⟨fun key => ?_, ?_, context, ?_, ?_, fun other visible => ?_⟩
  · rw [deletedItem_content]
    by_cases parent : key = getParentPathFromPath path
    · obtain ⟨names, inside, areParent, directory, same⟩ := parentPath_directory isItem areNames
      have nothing := mirrors.content_of_directory areParent inside (.inr (parent.trans same)) directory
      rw [if_pos (.inl parent), nothing]
      split <;> rfl
    · simp only [parent, false_or]
  · rw [← bar_tabs, bar]
    split
    · rw [TabBar.openLast_tabs]
    · rfl
  · rw [outside _ fun within => absurd within.length_le (by simp)]
    exact directory₁
  · rw [outside _ (metadata_hidden isItem.visible), cut, DirectoryTree.cut, if_pos List.prefix_rfl]
  · have same := outside _ (metadata_hidden visible)
    rw [DirectoryTree.content, same, cut, DirectoryTree.cut]
    by_cases below : name :: rest <+: name :: other
    · rw [if_pos below, if_pos below]
    · rw [if_neg below, if_neg below]
      rfl

/-- The files that start with the path are those of the item. -/
def OnlyBelow (files : ExplorerFiles) (names : List Text) (path : Text) : Prop :=
  ∀ key ∈ files.keys, (files.content key).isSome = true → key.startsWith path = true →
    KeyBelow names key

instance (files : ExplorerFiles) (names : List Text) (path : Text) :
    Decidable (OnlyBelow files names path) :=
  inferInstanceAs (Decidable (∀ key ∈ files.keys, _))

/-- The files of the item start with its path. -/
theorem startsWith_of_keyBelow {key content : Text} (mirrors : Mirrors self disk.tree name)
    (isItem : IsItem disk.tree name rest path) (found : self.files.content key = some content)
    (below : KeyBelow (name :: rest) key) : key.startsWith path = true := by
  have areNames := isItem.visible.cons_areNames mirrors.here.isName
  obtain ⟨other, -, visible, rfl, file⟩ := mirrors.file found
  have areOther := visible.cons_areNames mirrors.here.isName
  rw [keyBelow_itemPath areOther] at below
  rw [startsWith_iff]
  obtain rfl | rfl := isItem.pathTo
  · exact text_prefix_itemPath below
  · refine (slash_prefix_itemPath areNames areOther).mpr ⟨below, fun same => ?_⟩
    have directory := isItem.folder (endsWith_slash _)
    rw [same, file] at directory
    cases directory

theorem mirrors_deleted {after : PgExplorer} {tree : Tree} (mirrors : Mirrors self disk.tree name)
    (context : after.context = self.context) (directory : tree.node [name] = some .directory)
    (content : ∀ key, after.files.content key =
      if KeyBelow (name :: rest) key then none else self.files.content key)
    (cut : ∀ other, Visible other → tree.content (name :: other) =
      if name :: rest <+: name :: other then none else disk.tree.content (name :: other)) :
    Mirrors after tree name where
  here := by
    rw [context]
    exact mirrors.here
  directory := directory
  keys key text found := by
    rw [content] at found
    split at found
    · cases found
    · exact mirrors.keys key text found
  files other some_ visible := by
    have areOther := visible.cons_areNames mirrors.here.isName
    rw [content, cut other visible, mirrors.files other some_ visible]
    simp only [keyBelow_itemPath areOther]

/-- Without a slash, a directory with entries stays in the store. -/
theorem deleteItem_misses {fuel : Nat} (here : self.context.At name)
    (sound : disk.Tolerable 0) (leads : pathIn name item = path)
    (isItem : IsItem disk.tree name rest path) (notSrc : rest ≠ ["src".toList])
    (stays : ¬ Removable disk.tree (name :: rest) path) :
    (deleteItem browser fuel item).Ensures (Interference.nobody.setting fs True) self disk
      fun _ _ disk' => disk'.tree.node (name :: rest) = some .directory := by
  have areNames := isItem.visible.cons_areNames here.isName
  have full : self.convertToFullPath item = .ok path := leads ▸ convertToFullPath_of_at here item
  rw [Removable, not_or, not_forall] at stays
  obtain ⟨noSlash, entry, found⟩ := stays
  have exists_ : (disk.tree.node (name :: rest ++ [entry])).isSome = true :=
    Option.isSome_iff_ne_none.mpr found
  have directory := disk.tree.closed _ _ exists_
  have plain : path = UnixPath.text (name :: rest) := by
    refine isItem.pathTo.resolve_right ?_
    rintro rfl
    exact noSlash (endsWith_slash _)
  have fullPath := isItem.pathTo.startsWith_slash (by simp)
  have place := locate_of_pathTo areNames (by simp) isItem.pathTo
  have keeps : Acts .nobody True self.context (removeItem fuel path) disk
      fun _ disk' => disk'.Tolerable 0 ∧ disk'.tree.node (name :: rest) = some .directory := by
    refine Acts.bind _ (getMetadata_acts sound fullPath (by rw [place]; exact directory)).succeeds
      ?_ fun _ _ failed => (not_succeeds failed).elim
    rintro metadata disk₁ ⟨sound₁, rfl, tree⟩
    obtain ⟨parent, last, whole⟩ := (List.eq_nil_or_concat' (name :: rest)).resolve_left (by simp)
    rw [← tree] at directory exists_
    rw [plain, whole]
    rw [whole] at areNames directory exists_
    refine (removeDir_misses sound₁ areNames directory exists_).mono ?_
    rintro result disk₂ ⟨sound₂, same⟩
    have still := same []
    rw [List.append_nil] at still
    exact ⟨sound₂, still.trans directory⟩
  rw [deleteItem, Async.ensures_bind, ensures_sync, full, either_ok, Async.ensures_bind, ensures_sync,
    checkDelete_of_at here areNames isItem.pathTo notSrc, either_ok]
  refine Async.Ensures.bind ((ensures_unlessTemporary here.stored).mpr (keeps self rfl)) ?_ ?_
  swap
  · rintro error _ disk₁ ⟨-, -, still⟩
    exact still
  rintro _ state disk₁ ⟨rfl, sound₁, still⟩
  have hereAfter : (state.deletedItem path).context.At name := by
    rw [deletedItem_context]
    exact here
  have above : disk₁.tree.node [name] = some .directory := by
    have exists_ : (disk₁.tree.node ([name] ++ rest)).isSome = true := by
      rw [List.singleton_append, still]
      rfl
    exact disk₁.tree.node_of_below exists_ isItem.inside
  rw [Async.ensures_bind, Async.ensures_modify, either_ok]
  refine (saveMeta_hidden hereAfter sound₁ above).mono ?_
  rintro result _ disk₂ ⟨-, -, outside⟩
  exact (outside _ (metadata_hidden isItem.visible)).trans still

/-- An item of a workspace whose files are those of the store and whose tabs are
open files. -/
structure Deleting (state : PgExplorer) (disk : Disk fs) (name : Text) (rest : List Text)
    (item : Text) : Prop where
  mirrors : Mirrors state disk.tree name
  sound : disk.Sound
  valid : state.bar.Valid
  tabs : ∀ tab ∈ state.tabs, (state.files.content tab).isSome = true
  isItem : IsItem disk.tree name rest (pathIn name item)
  notSrc : rest ≠ ["src".toList]

/-- When the path that is deleted means the same to the state and to the store,
and no closing takes away a tab that stays. -/
structure Deletable (state : PgExplorer) (tree : Tree) (name : Text) (rest : List Text)
    (path : Text) : Prop where
  removable : Removable tree (name :: rest) path
  files : OnlyBelow state.files (name :: rest) path
  tabs : state.bar.closesOnly (gone state.files path) = true

/-- `deleteItem` comes to an end and deletes the item and what is below it. -/
def Deletes (self : PgExplorer) (disk : Disk fs) (browser : Browser) (name : Text) (rest : List Text) (item : Text) : Prop :=
  ∃ enough, ∀ fuel ≥ enough,
    (deleteItem browser fuel item).Ensures (Interference.nobody.setting fs False) self disk
      fun _ self' disk' => DeletesSubtree name rest self self' disk'.tree

theorem nodup_gone (files : ExplorerFiles) (fullPath : Text) : (gone files fullPath).Nodup :=
  files.nodup_keys.filter _

/-- The tabs to be closed are the keys that `deleteItem` deletes, when these are
the files of the item. -/
theorem Deleting.filter_tabs (deleting : Deleting self disk name rest item)
    (only : OnlyBelow self.files (name :: rest) (pathIn name item)) :
    self.tabs.filter (fun tab => ¬ KeyBelow (name :: rest) tab) =
      self.tabs.filter (· ∉ gone self.files (pathIn name item)) := by
  refine List.filter_congr fun tab member => ?_
  obtain ⟨content, found⟩ := Option.isSome_iff_exists.mp (deleting.tabs tab member)
  have key := ExplorerFiles.mem_keys_of_content found
  have same : KeyBelow (name :: rest) tab ↔ tab ∈ gone self.files (pathIn name item) := by
    rw [gone, List.mem_filter]
    constructor
    · exact fun below => ⟨key, startsWith_of_keyBelow deleting.mirrors deleting.isItem found below⟩
    · rintro ⟨-, starts⟩
      exact only tab key (deleting.tabs tab member) starts
  simp only [same]

theorem Deleting.deletes (deleting : Deleting self disk name rest item)
    (deletable : Deletable self disk.tree name rest (pathIn name item)) :
    Deletes self disk browser name rest item := by
  obtain ⟨enough, deep⟩ := fs.finite disk.db
  refine ⟨enough, fun fuel most => ?_⟩
  refine (deleteItem_spec deleting.mirrors (Disk.sound_iff.mp deleting.sound) deleting.valid rfl
    deleting.isItem deleting.notSrc deletable.removable fun below exists_ => (deep below exists_).trans_le most).mono ?_
  rintro _ self' disk' ⟨content, tabs, context, directory, removed, cut⟩
  have exactly : ∀ key, self'.files.content key =
      if KeyBelow (name :: rest) key then none else self.files.content key := by
    intro key
    rw [content]
    cases found : self.files.content key with
    | none => simp
    | some text =>
        have same : key.startsWith (pathIn name item) = true ↔ KeyBelow (name :: rest) key :=
          ⟨deletable.files key (ExplorerFiles.mem_keys_of_content found) (by rw [found]; rfl),
            startsWith_of_keyBelow deleting.mirrors deleting.isItem found⟩
        simp only [same]
  have left : (self.bar.closeAll (gone self.files (pathIn name item))).tabs =
      self.bar.tabs.filter (· ∉ gone self.files (pathIn name item)) :=
    (TabBar.closeAll_tabs_iff deleting.valid (nodup_gone _ _)).mpr deletable.tabs
  exact ⟨removed, exactly, tabs.trans (left.trans (deleting.filter_tabs deletable.files).symm),
    mirrors_deleted deleting.mirrors context directory exactly cut⟩

theorem Deleting.deletable (deleting : Deleting self disk name rest item)
    (deletes : Deletes self disk browser name rest item) :
    Deletable self disk.tree name rest (pathIn name item) := by
  have sound := Disk.sound_iff.mp deleting.sound
  obtain ⟨enough, deletes⟩ := deletes
  obtain ⟨depth, deep⟩ := fs.finite disk.db
  let fuel := max enough depth
  have deep : ∀ below, (disk.tree.node below).isSome = true → below.length < fuel :=
    fun below exists_ => (deep below exists_).trans_le (le_max_right _ _)
  obtain ⟨result, self', disk', ran, holds⟩ := (deletes fuel (le_max_left _ _)).exists_run
  have removable : Removable disk.tree (name :: rest) (pathIn name item) := by
    by_contra stays
    have there := (deleteItem_misses deleting.mirrors.here sound rfl deleting.isItem deleting.notSrc
      stays).of_run ran
    rw [holds.removed] at there
    cases there
  obtain ⟨content, tabs, -⟩ :=
    (deleteItem_spec deleting.mirrors sound deleting.valid rfl deleting.isItem deleting.notSrc
      removable deep).of_run ran
  have only : OnlyBelow self.files (name :: rest) (pathIn name item) := by
    intro key _ isSome starts
    by_contra outside
    have lost := content key
    rw [if_pos starts, holds.content, if_neg outside] at lost
    rw [lost] at isSome
    cases isSome
  refine ⟨removable, only, ?_⟩
  have left : (self.bar.closeAll (gone self.files (pathIn name item))).tabs =
      self.bar.tabs.filter (· ∉ gone self.files (pathIn name item)) :=
    tabs.symm.trans (holds.tabs.trans (deleting.filter_tabs only))
  exact (TabBar.closeAll_tabs_iff deleting.valid (nodup_gone _ _)).mp left

/-- `deleteItem` deletes exactly the item and what is below it if and only if a
directory with entries is given with a slash, no other file's path starts with
the path, and no closing takes away another tab. -/
theorem deletes_iff_deletable {item : Text} (deleting : Deleting self disk name rest item) :
    Deletes self disk browser name rest item ↔
      Deletable self disk.tree name rest (pathIn name item) :=
  ⟨deleting.deletable, deleting.deletes⟩

/-- A workspace `w` with a file next to another one whose name goes on, and a
folder. -/
def siblingWorkspace : PgExplorer where
  explorer :=
    { files := (((OrderedMap.empty.set "/w/src/a.rs".toList (some ⟨some ['a'], none⟩)).set
        "/w/src/a.rs.bak".toList (some ⟨some ['b'], none⟩)).set
        "/w/src/lib/c.rs".toList (some ⟨some ['c'], none⟩))
      tabs := ["/w/src/lib/c.rs".toList, "/w/src/a.rs".toList]
      currentIndex := some 1 }
  generation := 0
  isTemporary := false
  hasWorkspace := true
  workspaces := ⟨["w".toList], some "w".toList⟩
  initializedWorkspaceName := some "w".toList
  dispatched := []

def siblingDisk : Disk memoryFs where
  db := MemoryDb.empty.after
    [.mkdir "/w".toList, .mkdir "/w/src".toList, .mkdir "/w/src/lib".toList,
      .writeFile "/w/src/a.rs".toList ['a'], .writeFile "/w/src/a.rs.bak".toList ['b'],
      .writeFile "/w/src/lib/c.rs".toList ['c']]
  faults := []

theorem siblings_mirrors : Mirrors siblingWorkspace siblingDisk.tree "w".toList :=
  Mirrors.of_memory ⟨rfl, rfl, rfl, by decide⟩ (by decide +kernel) (by decide +kernel)
    (by decide +kernel)

theorem siblings_deleting {rest : List Text}
    (isItem : IsItem siblingDisk.tree "w".toList rest (pathIn "w".toList item))
    (notSrc : rest ≠ ["src".toList]) :
    Deleting siblingWorkspace siblingDisk "w".toList rest item where
  mirrors := siblings_mirrors
  sound := fun _ member => by cases member
  valid := ⟨by decide, by decide⟩
  tabs := by decide +kernel
  isItem := isItem
  notSrc := notSrc

theorem deletes_folder :
    Deletes siblingWorkspace siblingDisk plainBrowser "w".toList ["src".toList, "lib".toList]
      "src/lib/".toList :=
  (deletes_iff_deletable (siblings_deleting
    ⟨by decide, by decide, by decide +kernel, .inr (by decide), fun _ => by decide +kernel⟩
    (by decide))).mpr
    ⟨.inl (by decide), by decide +kernel, by decide +kernel⟩

/-- Deleting `a.rs` deletes the file `a.rs.bak` of the state too. -/
theorem not_always_deletes : ¬ ∀ (fs : LightningFs) (browser : Browser) (self : PgExplorer)
    (disk : Disk fs) (name : Text) (rest : List Text) (item : Text),
    Deleting self disk name rest item → Deletes self disk browser name rest item := by
  intro all
  have deleting : Deleting siblingWorkspace siblingDisk "w".toList ["src".toList, "a.rs".toList]
      "src/a.rs".toList :=
    siblings_deleting ⟨by decide, by decide, by decide +kernel, .inl (by decide),
      fun slashed => absurd slashed (by decide)⟩ (by decide)
  have only := (deleting.deletable (all memoryFs plainBrowser _ _ _ _ _ deleting)).files
  exact absurd only (by decide +kernel)

end PgExplorer
end Solpg.Client.Utils
