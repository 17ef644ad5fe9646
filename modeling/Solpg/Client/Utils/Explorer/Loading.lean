import Solpg.Client.Utils.Explorer.Saving
import Solpg.Client.Utils.Explorer.TabInvariant
import Solpg.Std.Outcome

/-!
# What a switch of the workspace loads

Every visible file of the directory gets its key, and the tabs are those of the
metadata that is stored, or that the switch itself has just stored.
-/

namespace Solpg.Client.Utils

open Solpg.Std PgCommon

/-- Names that the explorer shows. -/
def Visible (names : List Text) : Prop :=
  ∀ name ∈ names, UnixPath.IsName name ∧ isItemNameValid name = true

instance (names : List Text) : Decidable (Visible names) :=
  inferInstanceAs (Decidable (∀ name ∈ names, _))

variable {names rest : List Text} {name path : Text}

theorem Visible.areNames (visible : Visible names) : UnixPath.AreNames names :=
  fun name member => (visible name member).1

theorem appendSlash_of_pathTo (areNames : UnixPath.AreNames names) (pathTo : PathTo names path) :
    appendSlash path = UnixPath.text names ++ slash := by
  obtain rfl | rfl := pathTo
  · exact appendSlash_text areNames
  · exact appendSlash_of_endsWith (endsWith_slash _)

/-- The path of an entry of a directory. -/
theorem joinPaths_name (areNames : UnixPath.AreNames names) (pathTo : PathTo names path)
    (noSlash : '/' ∉ name) : joinPaths path name = UnixPath.text (names ++ [name]) := by
  have kept : withoutPreSlash name = name := by
    cases name with
    | nil => rfl
    | cons first rest =>
        rw [withoutPreSlash]
        rintro other same
        exact noSlash (List.head_eq_of_cons_eq same ▸ List.mem_cons_self)
  rw [joinPaths, appendSlash_of_pathTo areNames pathTo, kept, text_slash_concat]

theorem getCanonicalPath_text {self : PgExplorer} (areNames : UnixPath.AreNames (names ++ [name])) :
    self.getCanonicalPath (UnixPath.text (names ++ [name])) = .ok (itemPath (names ++ [name])) := by
  have full : (UnixPath.text (names ++ [name])).startsWith slash = true :=
    text_startsWith_slash (by simp)
  have type := getItemTypeFromPath_of_pathTo areNames (.inl rfl)
  rw [PgExplorer.getCanonicalPath, PgExplorer.convertToFullPath, if_pos full, Except.map, type,
    itemPath_concat]
  cases getItemTypeFromName name with
  | file => rfl
  | folder => rw [if_neg (by simp), appendSlash_text areNames]

section SetupFiles

variable {fs : LightningFs} {disk : Disk fs} {self : PgExplorer} {content : Text}

/-- The keys of the files below some names. -/
def KeyBelow (names : List Text) (key : Text) : Prop :=
  ∃ rest, UnixPath.AreNames (names ++ rest) ∧ key = itemPath (names ++ rest)

/-- The files of the tree below some names have their keys. -/
def LoadedBelow (tree : Tree) (names : List Text) (files : ExplorerFiles) : Prop :=
  ∀ rest content, Visible rest → tree.node (names ++ rest) = some (.file content) →
    files.item (itemPath (names ++ rest)) = some ⟨some content, none⟩

/-- What loading does: the tabs and the context stay, and so do the keys of
other places. -/
structure Loads (tree : Tree) (names : List Text) (path : Text) (before after : PgExplorer) :
    Prop where
  bar : after.bar = before.bar
  context : after.context = before.context
  loaded : LoadedBelow tree names after.files
  frame : ∀ key, key ≠ path → ¬ KeyBelow names key → after.files.item key = before.files.item key

/-- Setting the key of a file loads it. -/
theorem loads_file {tree : Tree}
    (file : tree.node names = some (.file content)) (self : PgExplorer) :
    Loads tree names (itemPath names) self
      (self.setFiles (self.files.set (itemPath names) (some ⟨some content, none⟩))) where
  bar := rfl
  context := rfl
  loaded rest other visible found := by
    by_cases here : rest = []
    · subst here
      rw [List.append_nil, file] at found
      cases found
      rw [List.append_nil, PgExplorer.setFiles_files, ExplorerFiles.item_set, if_pos rfl]
    · rw [tree.node_below_eq_none (by simp [file]) here] at found
      cases found
  frame key other _ := by
    rw [PgExplorer.setFiles_files, ExplorerFiles.item_set, if_neg other]

/-- An empty directory gets the key of a folder. -/
theorem loads_empty {tree : Tree} (directory : tree.node names = some .directory)
    (empty : ∀ name, tree.node (names ++ [name]) = none) (path : Text) (self : PgExplorer) :
    Loads tree names path self (self.setFiles (self.files.addFolder path)) where
  bar := rfl
  context := rfl
  loaded rest content visible found := by
    cases rest with
    | nil =>
        rw [List.append_nil, directory] at found
        cases found
    | cons name rest =>
        have whole : names ++ name :: rest = names ++ [name] ++ rest := by simp
        by_cases last : rest = []
        · rw [last, empty] at found
          cases found
        · rw [whole, tree.node_below_eq_none (by simp [empty]) last] at found
          cases found
  frame key other _ := by
    rw [PgExplorer.setFiles_files, ExplorerFiles.addFolder, ExplorerFiles.item_set, if_neg other]

/-- The entries of a directory that have had their turn are loaded. -/
structure LoadsEntries (tree : Tree) (names : List Text) (passed : Text → Prop)
    (before after : PgExplorer) : Prop where
  bar : after.bar = before.bar
  context : after.context = before.context
  loaded : ∀ name, passed name → LoadedBelow tree (names ++ [name]) after.files
  frame : ∀ key, ¬ KeyBelow names key → after.files.item key = before.files.item key

theorem keyBelow_concat {key : Text} (below : KeyBelow (names ++ [name]) key) :
    KeyBelow names key := by
  obtain ⟨rest, areNames, rfl⟩ := below
  exact ⟨name :: rest, by simpa using areNames, by simp⟩

/-- One more entry is loaded. The keys of the others are not touched. -/
theorem LoadsEntries.next {tree : Tree} {before middle after : PgExplorer} {passed : Text → Prop}
    (entries : LoadsEntries tree names passed before middle)
    (areNames : UnixPath.AreNames (names ++ [name]))
    (passedNames : ∀ other, passed other → UnixPath.IsName other)
    (loads : Loads tree (names ++ [name]) (itemPath (names ++ [name])) middle after) :
    LoadsEntries tree names (fun other => other = name ∨ passed other) before after where
  bar := loads.bar.trans entries.bar
  context := loads.context.trans entries.context
  loaded other either := by
    by_cases here : other = name
    · exact here ▸ loads.loaded
    · intro rest content visible found
      have was := either.resolve_left here
      have areOther : UnixPath.AreNames (names ++ [other] ++ rest) := by
        refine UnixPath.areNames_append.mpr
          ⟨UnixPath.areNames_append.mpr ⟨areNames.parent, ?_⟩, visible.areNames⟩
        intro single member
        rw [List.mem_singleton.mp member]
        exact passedNames other was
      have apart : ¬ KeyBelow (names ++ [name]) (itemPath (names ++ [other] ++ rest)) := by
        rintro ⟨rest', areNames', same⟩
        have equal := itemPath_injective areOther areNames' same
        simp only [List.append_assoc, List.append_cancel_left_eq, List.cons_append,
          List.nil_append, List.cons.injEq] at equal
        exact here equal.1
      have notHere : itemPath (names ++ [other] ++ rest) ≠ itemPath (names ++ [name]) :=
        fun same => apart ⟨[], by simpa using areNames, by simpa using same⟩
      rw [loads.frame _ notHere apart]
      exact entries.loaded other was rest content visible found
  frame key outside := by
    have apart : ¬ KeyBelow (names ++ [name]) key := fun below => outside (keyBelow_concat below)
    have notHere : key ≠ itemPath (names ++ [name]) := by
      rintro rfl
      exact apart ⟨[], by simpa using areNames, by simp⟩
    rw [loads.frame key notHere apart]
    exact entries.frame key outside

theorem LoadsEntries.mono {tree : Tree} {before after : PgExplorer} {passed fewer : Text → Prop}
    (entries : LoadsEntries tree names passed before after) (less : ∀ name, fewer name → passed name) :
    LoadsEntries tree names fewer before after :=
  { entries with loaded := fun name was => entries.loaded name (less name was) }

/-- All entries together load their directory. -/
theorem LoadsEntries.loads {tree : Tree} {before after : PgExplorer} {passed : Text → Prop}
    (entries : LoadsEntries tree names passed before after)
    (directory : tree.node names = some .directory)
    (all : ∀ name, UnixPath.IsName name → isItemNameValid name = true →
      (tree.node (names ++ [name])).isSome = true → passed name) (path : Text) :
    Loads tree names path before after where
  bar := entries.bar
  context := entries.context
  loaded rest content visible found := by
    cases rest with
    | nil =>
        rw [List.append_nil, directory] at found
        cases found
    | cons name rest =>
        have whole : names ++ name :: rest = names ++ [name] ++ rest := by simp
        obtain ⟨isName, valid⟩ := visible name List.mem_cons_self
        rw [whole] at found ⊢
        refine entries.loaded name (all name isName valid ?_) rest content ?_ found
        · by_contra missing
          rw [Option.not_isSome_iff_eq_none] at missing
          by_cases last : rest = []
          · rw [last, List.append_nil, missing] at found
            cases found
          · rw [tree.node_below_eq_none (by simp [missing]) last] at found
            cases found
        · exact fun other member => visible other (List.mem_cons_of_mem name member)
  frame key _ outside := entries.frame key outside

theorem leadsTo_itemPath (context : Context) (inside : names ≠ []) :
    LeadsTo context (itemPath names) (itemPath names) :=
  leadsTo_full ((itemPath_pathTo names).startsWith_slash inside)

/-- The loop of `setupFiles` over the entries of a directory with `items` still to load. -/
structure Loading (tree : Tree) (names entryNames items : List Text) (before after : PgExplorer)
    (disk : Disk fs) : Prop where
  sound : disk.Tolerable 0
  same : disk.tree = tree
  known : ∀ item ∈ items, ∃ name ∈ entryNames, item = itemPath (names ++ [name])
  entries : LoadsEntries tree names
    (fun name => name ∈ entryNames ∧ itemPath (names ++ [name]) ∉ items) before after

/-- The next entry is loaded. -/
theorem Loading.next {tree : Tree} {entryNames items : List Text} {before middle after : PgExplorer}
    {disk' : Disk fs}
    (loading : Loading tree names entryNames (itemPath (names ++ [name]) :: items) before middle disk)
    (areNames : ∀ name ∈ entryNames, UnixPath.AreNames (names ++ [name]))
    (member : name ∈ entryNames) (sound : disk'.Tolerable 0) (same : disk'.tree = tree)
    (loads : Loads tree (names ++ [name]) (itemPath (names ++ [name])) middle after) :
    Loading tree names entryNames items before after disk' := by
  refine ⟨sound, same, fun other inRest => loading.known other (List.mem_cons_of_mem _ inRest), ?_⟩
  refine (loading.entries.next (areNames name member) ?_ loads).mono ?_
  · exact fun other was => (areNames other was.1).last
  · rintro other ⟨isEntry, notInRest⟩
    by_cases here : other = name
    · exact .inl here
    · refine .inr ⟨isEntry, ?_⟩
      rw [List.mem_cons, not_or]
      refine ⟨fun equal => here ?_, notInRest⟩
      have whole := itemPath_injective (areNames other isEntry) (areNames name member) equal
      simpa using whole

/-- A turn of the loop of `setupFiles`: a file is read, a directory is loaded by recursion. -/
theorem setupItem_loads {fuel : Nat} {cutOff : Prop} {node : Node Text} (sound : disk.Tolerable 0)
    (areNames : UnixPath.AreNames names) (inside : names ≠ [])
    (found : disk.tree.node names = some node)
    (below : ∀ (self : PgExplorer) (disk' : Disk fs), disk'.Tolerable 0 → disk'.tree = disk.tree →
      node = .directory →
      (PgExplorer.setupFiles fuel (itemPath names)).Ensures (Interference.nobody.setting fs cutOff)
        self disk' fun result self' disk'' => result = .ok () ∧ disk''.Tolerable 0 ∧
          disk''.tree = disk'.tree ∧ Loads disk'.tree names (itemPath names) self self') :
    Async.Ensures (Interference.nobody.setting fs cutOff) (do
      match ← PgFs.getMetadata (itemPath names) with
      | .file =>
          tryCatch
            (do
              let content ← PgFs.readToString (itemPath names)
              modify fun self =>
                self.setFiles (self.files.set (itemPath names) (some ⟨some content, none⟩)))
            fun _ => pure ()
      | .directory => PgExplorer.setupFiles fuel (itemPath names)) self disk
      fun result self' disk' => result = .ok () ∧ disk'.Tolerable 0 ∧ disk'.tree = disk.tree ∧
        Loads disk.tree names (itemPath names) self self' := by
  have full := (itemPath_pathTo names).startsWith_slash inside
  have place : disk.tree.node (locate (itemPath names)) = some node := by
    rw [locate_itemPath areNames, found]
  refine Async.Ensures.bind (Acts.nobody (fun _ => getMetadata_acts sound full place) self) ?_ ?_
  swap
  · rintro error _ disk₁ ⟨-, ⟨fewer, less, -⟩, -⟩
    omega
  rintro metadata state disk₁ ⟨rfl, sound₁, rfl, same₁⟩
  cases node with
  | file content =>
      rw [Metadata.ofNode, Async.ensures_tryCatch, Async.ensures_bind]
      refine (Acts.nobody (fun context => readToString_acts sound₁
        (leadsTo_itemPath context inside) (by rw [same₁]; exact place)) state).mono ?_
      rintro (error | text) _ disk₂ ⟨rfl, outcome⟩
      · obtain ⟨⟨fewer, less, -⟩, -⟩ := outcome
        omega
      · obtain ⟨sound₂, rfl, same₂⟩ := outcome
        exact ⟨rfl, sound₂, same₂.trans same₁, loads_file found _⟩
  | directory =>
      refine (below state disk₁ sound₁ same₁ rfl).mono ?_
      rintro result self₁ disk₂ ⟨rfl, sound₂, same₂, loads⟩
      exact ⟨rfl, sound₂, same₂.trans same₁, same₁ ▸ loads⟩

/-- `setupFiles` on a store that does not fail. It comes to an end unless the tree is deeper
than the model follows. -/
theorem setupFiles_loads_within {fuel : Nat} {cutOff : Prop} (sound : disk.Tolerable 0)
    (areNames : UnixPath.AreNames names) (inside : names ≠ []) (pathTo : PathTo names path)
    (directory : disk.tree.node names = some .directory)
    (deep : cutOff ∨ ∀ place, (disk.tree.node place).isSome = true →
      place.length < names.length + fuel) :
    (PgExplorer.setupFiles fuel path).Ensures (Interference.nobody.setting fs cutOff) self disk
      fun result self' disk' => result = .ok () ∧ disk'.Tolerable 0 ∧ disk'.tree = disk.tree ∧
        Loads disk.tree names path self self' := by
  induction fuel generalizing names path self disk with
  | zero =>
      obtain granted | bounded := deep
      · exact granted
      · exact absurd (bounded names (by rw [directory]; rfl)) (by omega)
  | succ fuel ih =>
      have full := pathTo.startsWith_slash inside
      have place := locate_of_pathTo areNames inside pathTo
      rw [PgExplorer.setupFiles]
      refine Async.Ensures.bind (Acts.nobody (fun _ =>
        readDir_acts sound full (by rw [place]; exact directory)) self) ?_ ?_
      swap
      · rintro error _ disk' ⟨-, ⟨fewer, less, -⟩, -⟩
        omega
      rintro itemNames state disk' ⟨rfl, sound', same, distinct, members⟩
      rw [place] at members
      by_cases empty : itemNames = []
      · rw [if_pos (by simp [empty])]
        refine ⟨rfl, sound', same, loads_empty directory (fun name => ?_) path _⟩
        by_contra found
        have member := (members name).mpr (Option.isSome_iff_ne_none.mpr found)
        simp [empty] at member
      · rw [if_neg (by simpa using empty)]
        let visibleNames := itemNames.filter isItemNameValid
        have visible : ∀ name ∈ visibleNames, UnixPath.AreNames (names ++ [name]) :=
          fun name member => fs.named ((members name).mp (List.mem_of_mem_filter member))
        have paths : (visibleNames.mapM fun itemName =>
            (state.getCanonicalPath (joinPaths path itemName))) =
              .ok (visibleNames.map fun itemName => itemPath (names ++ [itemName])) := by
          refine Outcome.mapM_ok fun itemName member => ?_
          have isName := (visible itemName member).last
          rw [joinPaths_name areNames pathTo isName.2.1, getCanonicalPath_text (visible itemName member)]
        rw [Async.ensures_bind]
        change either _ _ (visibleNames.mapM _) state disk'
        rw [paths, either_ok]
        refine Async.Ensures.forM
          (fun items self' disk' => Loading disk.tree names visibleNames items state self' disk')
          ?_ ?_ ?_
        · refine ⟨sound', same, ?_, ⟨rfl, rfl, ?_, fun _ _ => rfl⟩⟩
          · intro item member
            obtain ⟨name, isVisible, rfl⟩ := List.mem_map.mp member
            exact ⟨name, isVisible, rfl⟩
          · rintro name ⟨member, notThere⟩
            exact absurd (List.mem_map.mpr ⟨name, member, rfl⟩) notThere
        · intro item rest self₁ disk₁ loading
          obtain ⟨name, member, rfl⟩ := loading.known item List.mem_cons_self
          have inside' : names ++ [name] ≠ [] := by simp
          obtain ⟨node, found⟩ := Option.isSome_iff_exists.mp
            ((members name).mp (List.mem_of_mem_filter member))
          refine (setupItem_loads loading.sound (visible name member) inside'
            (loading.same ▸ found) ?_).mono ?_
          · rintro self₂ disk₂ sound₂ same₂ rfl
            have tree : disk₂.tree = disk.tree := same₂.trans loading.same
            refine ih sound₂ (visible name member) inside' (itemPath_pathTo _) (tree ▸ found) ?_
            refine deep.imp_right fun bounded place exists_ => ?_
            have short := bounded place (tree ▸ exists_)
            rw [List.length_append, List.length_singleton]
            omega
          · rintro result self₂ disk₂ ⟨rfl, sound₂, same₂, loads⟩
            exact loading.next visible member sound₂ (same₂.trans loading.same)
              (loading.same ▸ loads)
        · intro self' disk' loading
          refine ⟨rfl, loading.sound, loading.same, loading.entries.loads directory ?_ path⟩
          intro name isName valid isSome
          exact ⟨List.mem_filter.mpr ⟨(members name).mpr isSome, valid⟩, List.not_mem_nil⟩

/-- `setupFiles` on a store that does not fail, to any depth that it reaches. -/
theorem setupFiles_loads {fuel : Nat} (sound : disk.Tolerable 0) (areNames : UnixPath.AreNames names)
    (inside : names ≠ []) (pathTo : PathTo names path)
    (directory : disk.tree.node names = some .directory) :
    (PgExplorer.setupFiles fuel path).Ensures (Interference.nobody.setting fs True) self disk
      fun result self' disk' => result = .ok () ∧ disk'.Tolerable 0 ∧ disk'.tree = disk.tree ∧
        Loads disk.tree names path self self' :=
  setupFiles_loads_within sound areNames inside pathTo directory (.inl trivial)

end SetupFiles

section LoadMetadata

variable {fs : LightningFs} {disk : Disk fs} {self : PgExplorer} {entries : List ItemMetaEntry}

theorem loadPosition_content (files : ExplorerFiles) (entry : ItemMetaEntry) (key : Text) :
    (PgExplorer.loadPosition files entry).content key = files.content key := by
  rw [PgExplorer.loadPosition]
  split
  next content _ found =>
    rw [ExplorerFiles.content_set]
    split
    next here => rw [here, ExplorerFiles.content, found]; rfl
    next => rfl
  next => rfl

theorem loadedMetadata_content (entries : List ItemMetaEntry) (self : PgExplorer) (key : Text) :
    (PgExplorer.loadedMetadata entries self).files.content key = self.files.content key := by
  have loop : ∀ files : ExplorerFiles,
      ExplorerFiles.content (entries.foldl PgExplorer.loadPosition files) key =
        files.content key := by
    induction entries with
    | nil => exact fun files => rfl
    | cons entry rest ih =>
        intro files
        rw [List.foldl_cons, ih, loadPosition_content]
  exact loop self.files

/-- The paths that the metadata has for tabs. -/
def tabPaths (entries : List ItemMetaEntry) : List Text := (entries.filter (·.isTabs)).map (·.path)

/-- The tabs of the metadata with its current file. -/
def metadataBar (entries : List ItemMetaEntry) : TabBar :=
  let tabs := PgExplorer.uniqueTabs (tabPaths entries)
  ⟨tabs, (entries.find? (·.isCurrent)).bind fun entry => tabs.idxOf? entry.path⟩

theorem metadataBar_valid (entries : List ItemMetaEntry) : (metadataBar entries).Valid where
  distinct := PgExplorer.nodup_uniqueTabs _
  valid index found := by
    obtain ⟨entry, -, here⟩ := Option.bind_eq_some_iff.mp found
    exact idxOf?_lt here

/-- The metadata has no tabs, or its current file is one of them. -/
def SelectsTab (entries : List ItemMetaEntry) : Prop :=
  tabPaths entries = [] ∨
    ∃ entry, entries.find? (·.isCurrent) = some entry ∧ entry.path ∈ tabPaths entries

theorem metadataBar_selection (selects : SelectsTab entries) : (metadataBar entries).Selection where
  toValid := metadataBar_valid entries
  current := by
    obtain none_ | ⟨entry, found, member⟩ := selects
    · have tabs : PgExplorer.uniqueTabs (tabPaths entries) = [] := by rw [none_]; rfl
      cases current : entries.find? (·.isCurrent) <;> simp [metadataBar, tabs, current]
    · have member' : entry.path ∈ PgExplorer.uniqueTabs (tabPaths entries) :=
        PgExplorer.mem_uniqueTabs.mpr member
      simp [metadataBar, found, List.isSome_idxOf?, member', List.ne_nil_of_mem member']

/-- The entries of the metadata file of the workspace at a place. -/
def storedMetaAt (browser : Browser) (tree : Tree) (place : List Text) : List ItemMetaEntry :=
  match tree.content (metadataOf place) with
  | some text => (browser.parseMetaFile text).getD []
  | none => []

/-- The entries of the metadata file of a workspace. -/
def storedMeta (browser : Browser) (tree : Tree) (name : Text) : List ItemMetaEntry :=
  match tree.content (metadataPlace name) with
  | some text => (browser.parseMetaFile text).getD []
  | none => []

/-- The entries with full paths. -/
def fullPathsFrom (place : List Text) (entries : List ItemMetaEntry) : List ItemMetaEntry :=
  entries.map fun entry => { entry with path := pathFrom place entry.path }

/-- The entries with full paths. -/
def fullPaths (name : Text) (entries : List ItemMetaEntry) : List ItemMetaEntry :=
  entries.map fun entry => { entry with path := pathIn name entry.path }

theorem loadMetadata_loads_in {place : List Text} {cutOff : Prop} (browser : Browser)
    (here : self.context.In place) (sound : disk.Tolerable 0)
    (readable : disk.tree.node (metadataOf place) ≠ some .directory) :
    (PgExplorer.loadMetadata browser).Ensures (Interference.nobody.setting fs cutOff) self disk
      fun result self' disk' => result = .ok () ∧
        self' = PgExplorer.loadedMetadata
          (fullPathsFrom place (storedMetaAt browser disk.tree place)) self ∧
        disk'.Tolerable 0 ∧ disk'.tree = disk.tree := by
  have located : locate (pathFrom place METADATA_PATH) = metadataOf place := by
    rw [pathFrom_metadata]
    exact UnixPath.location_text (areNames_metadataOf here.areNames) [] (by simp [metadataOf])
  have entries : (tryCatch
      (do
        let text ← PgFs.readToString METADATA_PATH
        pure ((browser.parseMetaFile text).getD []))
      fun _ => pure [] : PgM (List ItemMetaEntry)).Ensures (Interference.nobody.setting fs cutOff) self
        disk fun result self' disk' => self' = self ∧ disk'.Tolerable 0 ∧ disk'.tree = disk.tree ∧
          result = .ok (storedMetaAt browser disk.tree place) := by
    rw [Async.ensures_tryCatch, Async.ensures_bind]
    cases found : disk.tree.node (metadataOf place) with
    | none =>
        have fails : Acts .nobody cutOff self.context (PgFs.readToString METADATA_PATH) disk
            fun result disk' => disk'.Tolerable 0 ∧ disk'.tree = disk.tree ∧
              ∃ error, result = .error error := by
          refine acts_sync_bind (leadsTo_in here METADATA_PATH) (acts_request ?_)
          obtain ⟨answer, tree, left⟩ | ⟨-, -, fewer, less, -⟩ :=
            sound.serve (.readFile (pathFrom place METADATA_PATH))
          · obtain ⟨message, missing⟩ := fs.readFile_missing (by rw [located]; exact found)
            exact ⟨left, tree.trans (fs.readFile_same _ _), _, answer.trans missing⟩
          · omega
        refine (fails self rfl).mono ?_
        rintro result _ disk' ⟨rfl, left, tree, error, rfl⟩
        simp [storedMetaAt, DirectoryTree.content, found, left, tree]
    | some node =>
        cases node with
        | directory => exact absurd found readable
        | file text =>
            refine (readToString_acts sound (leadsTo_in here METADATA_PATH)
              (by rw [located]; exact found) self rfl).mono ?_
            rintro (error | text) self' disk' ⟨rfl, outcome⟩
            · obtain ⟨⟨fewer, less, -⟩, -⟩ := outcome
              omega
            · obtain ⟨left, rfl, tree⟩ := outcome
              simp [storedMetaAt, DirectoryTree.content, found, left, tree]
  rw [PgExplorer.loadMetadata]
  refine entries.bind ?_ ?_
  · rintro metaFile state disk' ⟨rfl, left, tree, same⟩
    cases same
    have full : ((storedMetaAt browser disk.tree place).mapM fun entry =>
        (state.convertToFullPath entry.path).map fun path => { entry with path }) =
          .ok (fullPathsFrom place (storedMetaAt browser disk.tree place)) := by
      refine Outcome.mapM_ok fun entry _ => ?_
      rw [convertToFullPath_of_in here]
      rfl
    rw [Async.ensures_bind]
    change either _ _ (List.mapM _ (storedMetaAt browser disk.tree place)) state disk'
    rw [full]
    exact ⟨rfl, rfl, left, tree⟩
  · rintro error state disk' ⟨-, -, -, same⟩
    cases same

theorem loadMetadata_loads (browser : Browser) (here : self.context.At name)
    (sound : disk.Tolerable 0)
    (readable : disk.tree.node (metadataPlace name) ≠ some .directory) :
    (PgExplorer.loadMetadata browser).Ensures (Interference.nobody.setting fs True) self disk
      fun result self' disk' => result = .ok () ∧
        self' = PgExplorer.loadedMetadata (fullPaths name (storedMeta browser disk.tree name)) self ∧
        disk'.Tolerable 0 ∧ disk'.tree = disk.tree :=
  loadMetadata_loads_in browser here.within sound readable

end LoadMetadata

end Solpg.Client.Utils
