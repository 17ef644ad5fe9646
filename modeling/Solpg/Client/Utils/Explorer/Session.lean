import Mathlib.Data.List.Sort
import Solpg.Client.Utils.Explorer.Metadata

/-!
# What the metadata says of a workspace

The tabs, the current file and the positions that the explorer shows, and those that it shows
after it has loaded some metadata. Loading what has been saved gives back what was shown.
-/

namespace Solpg.Client.Utils

open Solpg.Std PgCommon PgExplorer

variable {self : PgExplorer} {place : List Text} {path : Text} {entries : List ItemMetaEntry}

/-- Sorting by the place in a list without duplicates gives that list. -/
theorem mergeSort_idxOf {items order : List Text} (distinct : order.Nodup)
    (same : items.Perm order) :
    (items.mergeSort fun first second => order.idxOf first ≤ order.idxOf second) = order := by
  have sorted := @List.pairwise_mergeSort _
    (fun first second => decide (order.idxOf first ≤ order.idxOf second))
    (fun first second third before after => by
      simp only [decide_eq_true_eq] at before after ⊢
      omega)
    (fun first second => by
      simp only [Bool.or_eq_true, decide_eq_true_eq]
      omega) items
  simp only [decide_eq_true_eq] at sorted
  have perm : (items.mergeSort fun first second =>
      order.idxOf first ≤ order.idxOf second).Perm order := (List.mergeSort_perm _ _).trans same
  refine perm.eq_of_pairwise ?_ sorted ?_
  · intro first second member _ before after
    exact (List.idxOf_inj (perm.mem_iff.mp member)).mp (Nat.le_antisymm before after)
  · rw [List.pairwise_iff_getElem]
    intro index later inside laterInside before
    rw [distinct.idxOf_getElem, distinct.idxOf_getElem]
    omega

/-! ## Positions -/

/-- The position of the editor in a file. -/
def PgExplorer.positionOf (self : PgExplorer) (path : Text) : Option Position :=
  ((self.files.item path).bind ItemInfo.meta_).bind ItemMeta.position

/-- The position that the last entry of a path gives. -/
def metaPosition (entries : List ItemMetaEntry) (path : Text) : Option Position :=
  (entries.filter (·.path = path)).getLast?.bind (·.position)

theorem loadPosition_item {files : ExplorerFiles} {content : Text} {meta_ : Option ItemMeta}
    (found : files.item path = some ⟨some content, meta_⟩) (entry : ItemMetaEntry) :
    (loadPosition files entry).item path =
      some ⟨some content, if entry.path = path then some ⟨entry.position⟩ else meta_⟩ := by
  by_cases here : entry.path = path
  · subst here
    rw [loadPosition, found, if_pos rfl]
    exact (ExplorerFiles.item_set _ _ _ _).trans (if_pos rfl)
  · rw [loadPosition, if_neg here]
    split
    · rw [ExplorerFiles.item_set, if_neg (Ne.symm here), found]
    · exact found

theorem loadPositions_item {files : ExplorerFiles} {content : Text}
    (found : files.item path = some ⟨some content, none⟩) (entries : List ItemMetaEntry) :
    ∃ meta_, (entries.foldl loadPosition files).item path = some ⟨some content, meta_⟩ ∧
      meta_.bind ItemMeta.position = metaPosition entries path := by
  induction entries using List.reverseRecOn with
  | nil => exact ⟨none, found, rfl⟩
  | append_singleton entries entry ih =>
      obtain ⟨meta_, item, position⟩ := ih
      rw [List.foldl_concat, loadPosition_item item]
      refine ⟨_, rfl, ?_⟩
      rw [metaPosition, List.filter_append]
      by_cases here : entry.path = path
      · simp [here]
      · simp only [here, if_false, decide_false, List.filter_cons, List.filter_nil,
          List.append_nil, Bool.false_eq_true]
        exact position

/-- A file that has just been loaded has the position of the metadata. -/
theorem loadedMetadata_positionOf {content : Text}
    (found : self.files.item path = some ⟨some content, none⟩) (entries : List ItemMetaEntry) :
    (loadedMetadata entries self).positionOf path = metaPosition entries path := by
  obtain ⟨meta_, item, position⟩ := loadPositions_item found entries
  have files : (loadedMetadata entries self).files = entries.foldl loadPosition self.files := rfl
  rw [positionOf, files, item]
  exact position

/-! ## Saving -/

/-- Every key holds an item. -/
def Keyed (files : ExplorerFiles) : Prop := ∀ key ∈ files.keys, (files.item key).isSome = true

instance (files : ExplorerFiles) : Decidable (Keyed files) :=
  inferInstanceAs (Decidable (∀ key ∈ files.keys, _))

/-- The keys are items of the workspace, and the tabs are among them. -/
structure ShownAt (place : List Text) (state : PgExplorer) : Prop where
  keyed : Keyed state.files
  below : ∀ key ∈ state.files.keys, ∃ relative, ¬ relative.startsWith slash = true ∧
    key = UnixPath.text place ++ slash ++ relative
  valid : state.bar.Valid
  tabs : ∀ tab ∈ state.tabs, tab ∈ state.files.keys

/-- What the explorer shows of an item. -/
def shownEntry (self : PgExplorer) (path : Text) : ItemMetaEntry :=
  ⟨path, self.tabs.contains path, self.currentFilePath = some path, self.positionOf path⟩

/-- The path of an item from the folder of its workspace. -/
def relativeTo (place : List Text) (path : Text) : Text :=
  path.replace (UnixPath.text place ++ slash) []

theorem relativeTo_append (place : List Text) (relative : Text) :
    relativeTo place (UnixPath.text place ++ slash ++ relative) = relative := by
  obtain ⟨first, rest, root⟩ := List.exists_cons_of_ne_nil
    (show UnixPath.text place ++ slash ≠ [] by simp [slash])
  rw [relativeTo, root]
  exact Text.replace_append relative

theorem getRelativePath_of_in (here : self.context.In place) (path : Text) :
    self.getRelativePath path = .ok (relativeTo place path) := by
  have stored : self.isTemporary = false := here.stored
  rw [getRelativePath, stored, if_neg (by simp), requiredPath_of_in here]
  rfl

theorem uniqueTabs_of_nodup {tabs : List Text} (distinct : tabs.Nodup) : uniqueTabs tabs = tabs := by
  suffices loop : ∀ unique, (unique ++ tabs).Nodup → tabs.foldl
      (fun unique path => if path ∈ unique then unique else unique ++ [path]) unique =
        unique ++ tabs from loop [] distinct
  induction tabs with
  | nil => simp
  | cons tab rest ih =>
      intro unique apart
      have new : tab ∉ unique := fun member =>
        (List.nodup_append.mp apart).2.2 tab member tab List.mem_cons_self rfl
      rw [List.foldl_cons, if_neg new, ih (List.nodup_cons.mp distinct).2 _ (by simpa using apart)]
      simp

/-- The keys in the order of the metadata: those that are tabs first, as the tabs are. -/
def metaOrder (self : PgExplorer) : List Text :=
  self.tabs ++ self.files.keys.filter fun key => !self.tabs.contains key

theorem mem_metaOrder (shown : ShownAt place self) : path ∈ metaOrder self ↔ path ∈ self.files.keys := by
  rw [metaOrder, List.mem_append, List.mem_filter]
  constructor
  · rintro (tab | ⟨key, -⟩)
    · exact shown.tabs path tab
    · exact key
  · intro key
    by_cases tab : path ∈ self.tabs
    · exact .inl tab
    · exact .inr ⟨key, by simpa using tab⟩

theorem nodup_metaOrder (shown : ShownAt place self) : (metaOrder self).Nodup := by
  refine List.nodup_append.mpr ⟨shown.valid.distinct, self.files.nodup_keys.filter _, ?_⟩
  rintro tab inTabs _ other rfl
  simpa [inTabs] using (List.mem_filter.mp other).2

/-- What `saveMeta` gathers of a key. -/
def gathered (self : PgExplorer) (place : List Text) (path : Text) : Text × ItemMetaEntry :=
  (path, { shownEntry self path with path := relativeTo place path })

/-- With an item for every key nothing is thrown. -/
theorem metaEntries_keyed (here : self.context.In place) (keyed : Keyed self.files) :
    self.metaEntries = .ok
      (((((self.files.keys.map (gathered self place)).filter fun entry => entry.2.isTabs).mergeSort
          fun first second => self.tabs.idxOf first.1 ≤ self.tabs.idxOf second.1) ++
        (self.files.keys.map (gathered self place)).filter fun entry => !entry.2.isTabs).map
          Prod.snd) := by
  rw [metaEntries, Outcome.mapM_ok (g := gathered self place)]
  · rfl
  · intro path member
    obtain ⟨item, found⟩ := Option.isSome_iff_exists.mp (keyed path member)
    have position : item.meta_.bind ItemMeta.position = self.positionOf path := by
      rw [positionOf, found]
      rfl
    simp only [found, getRelativePath_of_in here, position]
    rfl

/-- The entries tell what is shown of the keys in the order of the metadata. -/
theorem metaEntries_shown (here : self.context.In place) (shown : ShownAt place self) :
    ∃ entries, self.metaEntries = .ok entries ∧
      fullPathsFrom place entries = (metaOrder self).map (shownEntry self) := by
  have distinct : self.tabs.Nodup := shown.valid.distinct
  have inTabs : ((self.files.keys.map (gathered self place)).filter fun entry => entry.2.isTabs) =
      (self.files.keys.filter fun key => self.tabs.contains key).map (gathered self place) :=
    List.filter_map
  have others : ((self.files.keys.map (gathered self place)).filter fun entry => !entry.2.isTabs) =
      (self.files.keys.filter fun key => !self.tabs.contains key).map (gathered self place) :=
    List.filter_map
  have sorted : (((self.files.keys.filter fun key => self.tabs.contains key).map
      (gathered self place)).mergeSort fun first second =>
        self.tabs.idxOf first.1 ≤ self.tabs.idxOf second.1) =
      self.tabs.map (gathered self place) := by
    have perm : (self.files.keys.filter fun key => self.tabs.contains key).Perm self.tabs := by
      rw [List.perm_ext_iff_of_nodup (self.files.nodup_keys.filter _) distinct]
      intro path
      rw [List.mem_filter, List.contains_iff_mem]
      exact ⟨And.right, fun tab => ⟨shown.tabs path tab, tab⟩⟩
    have order := mergeSort_idxOf distinct perm
    rw [← List.map_mergeSort (r := fun first second => decide (self.tabs.idxOf first ≤
      self.tabs.idxOf second)) (f := gathered self place) fun _ _ _ _ => rfl, order]
  refine ⟨_, metaEntries_keyed here shown.keyed, ?_⟩
  rw [inTabs, others, sorted, ← List.map_append, fullPathsFrom, List.map_map, List.map_map]
  refine List.map_congr_left fun path member => ?_
  obtain ⟨relative, isRelative, whole⟩ := shown.below path ((mem_metaOrder shown).mp member)
  have full : pathFrom place (relativeTo place path) = path := by
    rw [whole, relativeTo_append, pathFrom, if_neg isRelative]
  change ItemMetaEntry.mk (pathFrom place (relativeTo place path)) _ _ _ = _
  rw [full]
  rfl

/-- The metadata says the same as the explorer. -/
def Describes (entries : List ItemMetaEntry) (self : PgExplorer) : Prop :=
  metadataBar entries = self.bar ∧ ∀ path, (self.files.content path).isSome = true →
    metaPosition entries path = self.positionOf path

theorem metadataBar_shown (shown : ShownAt place self) :
    metadataBar ((metaOrder self).map (shownEntry self)) = self.bar := by
  have paths : tabPaths ((metaOrder self).map (shownEntry self)) = self.tabs := by
    rw [tabPaths, List.filter_map, List.map_map]
    have path : (ItemMetaEntry.path ∘ shownEntry self) = id := rfl
    rw [path, List.map_id, metaOrder, List.filter_append]
    have kept : self.tabs.filter ((fun entry => entry.isTabs) ∘ shownEntry self) = self.tabs := by
      refine List.filter_eq_self.mpr fun tab member => ?_
      simpa [shownEntry] using member
    rw [kept, List.filter_filter, List.filter_eq_nil_iff.mpr, List.append_nil]
    intro key _
    simp [shownEntry]
  have found : (((metaOrder self).map (shownEntry self)).find? (·.isCurrent)).map (·.path) =
      self.currentFilePath := by
    rw [List.find?_map, Option.map_map]
    have path : (ItemMetaEntry.path ∘ shownEntry self) = id := rfl
    rw [path, Option.map_id]
    cases current : self.currentFilePath with
    | none =>
        refine List.find?_eq_none.mpr fun path _ => ?_
        simp [shownEntry, current]
    | some path =>
        have member : path ∈ metaOrder self :=
          List.mem_append_left _ (mem_tabs_of_current current)
        cases search : (metaOrder self).find? ((fun entry => entry.isCurrent) ∘ shownEntry self) with
        | none =>
            have absent := List.find?_eq_none.mp search path member
            simp [shownEntry, current] at absent
        | some other =>
            have same := List.find?_some search
            simpa [shownEntry, current, eq_comm] using same
  have distinct : self.tabs.Nodup := shown.valid.distinct
  have index : (((metaOrder self).map (shownEntry self)).find? (·.isCurrent)).bind
      (fun entry => self.tabs.idxOf? entry.path) = self.currentFilePath.bind self.tabs.idxOf? := by
    rw [← found, Option.bind_map]
    rfl
  rw [metadataBar, paths, uniqueTabs_of_nodup distinct]
  change TabBar.mk self.tabs _ = TabBar.mk self.tabs self.explorer.currentIndex
  rw [index]
  cases current : self.explorer.currentIndex with
  | none => rw [currentFilePath, current]; rfl
  | some index =>
      have inside := shown.valid.valid index current
      rw [currentFilePath_of_index current inside]
      exact congrArg (TabBar.mk self.tabs) (idxOf?_getElem distinct inside)

theorem metaPosition_shown (shown : ShownAt place self) (path : Text) :
    metaPosition ((metaOrder self).map (shownEntry self)) path = self.positionOf path := by
  rw [metaPosition, List.filter_map]
  have same : ((fun entry : ItemMetaEntry => decide (entry.path = path)) ∘ shownEntry self) =
      fun other => decide (other = path) := rfl
  rw [same]
  by_cases key : path ∈ self.files.keys
  · have alone : (metaOrder self).filter (fun other => decide (other = path)) = [path] := by
      have count := List.count_eq_one_of_mem (nodup_metaOrder shown) ((mem_metaOrder shown).mpr key)
      rw [List.filter_eq, count]
      rfl
    rw [alone]
    rfl
  · have nothing : (metaOrder self).filter (fun other => decide (other = path)) = [] := by
      refine List.filter_eq_nil_iff.mpr fun other member => ?_
      have different : other ≠ path := fun same =>
        key (same ▸ (mem_metaOrder shown).mp member)
      simpa using different
    have missing : self.files.item path = none := by
      rw [ExplorerFiles.item, OrderedMap.get_eq_none.mpr key]
      rfl
    rw [nothing, positionOf, missing]
    rfl

/-- What is saved describes what is shown. -/
theorem describes_shown (shown : ShownAt place self) :
    Describes ((metaOrder self).map (shownEntry self)) self :=
  ⟨metadataBar_shown shown, fun path _ => metaPosition_shown shown path⟩

theorem isPrefix_root (shown : ShownAt place self) {key : Text} (member : key ∈ self.files.keys) :
    key.startsWith (UnixPath.text place ++ slash) = true := by
  obtain ⟨relative, -, rfl⟩ := shown.below key member
  exact (startsWith_iff _ _).mpr (List.prefix_append _ _)

/-- In its own workspace the explorer saves what it shows. -/
theorem savedMeta_shown (here : self.context.In place) (shown : ShownAt place self)
    (some_ : self.files.keys ≠ []) : ∃ entries, self.savedMeta = .ok (some entries) ∧
      Describes (fullPathsFrom place entries) self := by
  obtain ⟨entries, gathered, full⟩ := metaEntries_shown here shown
  have stored : self.isTemporary = false := here.stored
  have inside : (self.files.keys.any fun path =>
      !path.startsWith (UnixPath.text place ++ slash)) = false := by
    rw [List.any_eq_false]
    intro key member
    simp [isPrefix_root shown member]
  refine ⟨entries, ?_, full ▸ describes_shown shown⟩
  have proceeds : (self.isTemporary || self.files.keys.isEmpty) = false := by
    simp [stored, some_]
  rw [savedMeta, proceeds, if_neg (by simp), requiredPath_of_in here]
  change (if (self.files.keys.any fun path =>
    !path.startsWith (UnixPath.text place ++ slash)) = true then _ else _) = _
  rw [inside, if_neg (by simp), gathered]
  rfl

theorem savedMeta_empty (none_ : self.files.keys = []) : self.savedMeta = .ok none := by
  rw [savedMeta, if_pos (by simp [none_])]

theorem savedMeta_keyed (here : self.context.In place) (keyed : Keyed self.files) :
    ∃ saved, self.savedMeta = .ok saved := by
  rw [savedMeta, requiredPath_of_in here, metaEntries_keyed here keyed]
  change ∃ saved, (if _ = true then _ else if _ = true then _ else _) = _
  split
  · exact ⟨none, rfl⟩
  · split
    · exact ⟨none, rfl⟩
    · exact ⟨some _, rfl⟩

end Solpg.Client.Utils
