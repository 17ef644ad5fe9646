import Solpg.Client.Utils.Explorer.Fs

/-!
# The paths of items

`itemPath` is the path under which the explorer keeps what is found under the
names in the file system: the path of a folder ends with a slash, and what has
no dot in its name is taken for a folder.
-/

namespace Solpg.Client.Utils

open Solpg.Std PgCommon

/-- The path of an item: folders end with a slash. -/
def itemPath (names : List Text) : Text :=
  match getItemTypeFromName (names.getLastD []) with
  | .file => UnixPath.text names
  | .folder => UnixPath.text names ++ slash

variable {names other : List Text} {name : Text}

/-- The text of the names or the same with a slash. -/
def PathTo (names : List Text) (path : Text) : Prop :=
  path = UnixPath.text names ∨ path = UnixPath.text names ++ slash

/-- The path of an item leads to its names. -/
theorem itemPath_pathTo (names : List Text) : PathTo names (itemPath names) := by
  rw [itemPath]
  split
  · exact .inl rfl
  · exact .inr rfl

/-- A path to some names is located there. -/
theorem locate_of_pathTo {path : Text} (areNames : UnixPath.AreNames names)
    (inside : names ≠ []) (pathTo : PathTo names path) : locate path = names := by
  obtain rfl | rfl := pathTo
  · exact UnixPath.location_text areNames [] inside
  · exact UnixPath.location_text_slash areNames []

/-- The path of an item is located at its names. -/
theorem locate_itemPath (areNames : UnixPath.AreNames names) :
    locate (itemPath names) = names := by
  rcases List.eq_nil_or_concat' names with rfl | ⟨parent, name, rfl⟩
  · rfl
  · exact locate_of_pathTo areNames (by simp) (itemPath_pathTo _)

/-- Different items have different paths. -/
theorem itemPath_injective (areNames : UnixPath.AreNames names)
    (areNamesOther : UnixPath.AreNames other)
    (same : itemPath names = itemPath other) : names = other := by
  rw [← locate_itemPath areNames, same, locate_itemPath areNamesOther]

/-- To start with a text is to have it as a prefix. -/
theorem startsWith_iff (text start : Text) : text.startsWith start = true ↔ start <+: text :=
  List.isPrefixOf_iff_prefix

/-- To end with a text is to have it as a suffix. -/
theorem endsWith_iff (text finish : Text) : text.endsWith finish = true ↔ finish <:+ text :=
  List.isSuffixOf_iff_suffix

/-- A slash appended is at the end. -/
theorem endsWith_slash (path : Text) : (path ++ slash).endsWith slash = true :=
  (endsWith_iff _ _).mpr (List.suffix_append _ _)

/-- The path of some names is absolute. -/
theorem text_startsWith_slash (inside : names ≠ []) :
    (UnixPath.text names).startsWith slash = true := by
  obtain ⟨name, rest, rfl⟩ := List.exists_cons_of_ne_nil inside
  rfl

/-- A path to some names is absolute. -/
theorem PathTo.startsWith_slash {path : Text} (pathTo : PathTo names path) (inside : names ≠ []) :
    path.startsWith slash = true := by
  obtain rfl | rfl := pathTo
  · exact text_startsWith_slash inside
  · obtain ⟨name, rest, rfl⟩ := List.exists_cons_of_ne_nil inside
    rfl

/-- A path joined to an absolute one is absolute. -/
theorem joinPaths_startsWith_slash {first : Text} (full : first.startsWith slash = true)
    (second : Text) : (joinPaths first second).startsWith slash = true := by
  rw [startsWith_iff] at full ⊢
  rw [joinPaths, appendSlash]
  split
  · exact full.trans (List.prefix_append _ _)
  · exact full.trans ((List.prefix_append _ _).trans (List.prefix_append _ _))

/-- A full path starts with a slash. -/
theorem startsWith_slash_of_convert {self : PgExplorer} {path fullPath : Text}
    (full : self.convertToFullPath path = .ok fullPath) : fullPath.startsWith slash = true := by
  rw [PgExplorer.convertToFullPath] at full
  split at full
  next starts =>
    cases full
    exact starts
  next =>
    cases root : self.getProjectRootPath with
    | error error =>
        rw [root] at full
        cases full
    | ok rootPath =>
        rw [root] at full
        cases full
        refine joinPaths_startsWith_slash ?_ path
        rw [PgExplorer.getProjectRootPath] at root
        split at root
        · cases root
          rfl
        · rw [PgExplorer.getRequiredCurrentWorkspacePath] at root
          split at root
          · cases root
          · split at root
            · cases root
            · cases root
            · cases root
              exact joinPaths_startsWith_slash rfl _

/-- A text of names ends like its last name. -/
theorem text_endsWith_slash_of_slashless (nonempty : name ≠ []) (noSlash : '/' ∉ name) :
    (UnixPath.text (names ++ [name])).endsWith slash = false := by
  rw [Bool.eq_false_iff, Ne, endsWith_iff, UnixPath.text_concat]
  intro ends
  obtain ⟨before, last, rfl⟩ := (List.eq_nil_or_concat' name).resolve_left nonempty
  have same : '/' = last := by
    have shape : UnixPath.text names ++ '/' :: (before ++ [last]) =
        (UnixPath.text names ++ '/' :: before) ++ [last] := by simp
    rw [shape] at ends
    obtain ⟨front, whole⟩ := ends
    exact (List.append_inj' whole rfl).2 |> List.head_eq_of_cons_eq
  exact noSlash (List.mem_append_right _ (List.mem_singleton.mpr same))

/-- The path of some names has no slash at its end. -/
theorem text_endsWith_slash (isName : UnixPath.IsName name) :
    (UnixPath.text (names ++ [name])).endsWith slash = false :=
  text_endsWith_slash_of_slashless isName.1 isName.2.1

/-- The name of an item is the last one of its path. -/
theorem getItemNameFromPath_text (slashless : UnixPath.Slashless (names ++ [name]))
    (nonempty : name ≠ []) : getItemNameFromPath (UnixPath.text (names ++ [name])) = name := by
  have noSlash : '/' ∉ name := slashless name (by simp)
  rw [getItemNameFromPath, UnixPath.splitOn_text slashless,
    text_endsWith_slash_of_slashless nonempty noSlash, if_neg (by simp), ← List.cons_append,
    List.getLastD_eq_getLast?, List.getLast?_concat, Option.getD_some]

/-- With a slash at the end too, the name is the last one. -/
theorem getItemNameFromPath_of_pathTo {path : Text}
    (areNames : UnixPath.AreNames (names ++ [name]))
    (pathTo : PathTo (names ++ [name]) path) : getItemNameFromPath path = name := by
  have slashless := areNames.slashless
  obtain rfl | rfl := pathTo
  · exact getItemNameFromPath_text slashless areNames.last.1
  · have split : (UnixPath.text (names ++ [name]) ++ slash).splitOn '/' =
        [] :: (names ++ [name] ++ [[]]) := UnixPath.splitOn_text_slash slashless
    have names_ : ([] :: (names ++ [name] ++ [[]])).dropLast = [] :: (names ++ [name]) := by
      rw [← List.cons_append, List.dropLast_concat]
    rw [getItemNameFromPath, split, endsWith_slash]
    simp only [if_true, names_]
    rw [← List.cons_append, List.getLastD_eq_getLast?, List.getLast?_concat, Option.getD_some]

/-- The type of a path is that of its last name. -/
theorem getItemTypeFromPath_of_pathTo {path : Text}
    (areNames : UnixPath.AreNames (names ++ [name]))
    (pathTo : PathTo (names ++ [name]) path) :
    getItemTypeFromPath path = getItemTypeFromName name := by
  rw [getItemTypeFromPath, getItemNameFromPath_of_pathTo areNames pathTo]

/-- The path of an item by the type of its name. -/
theorem itemPath_concat (names : List Text) (name : Text) : itemPath (names ++ [name]) =
    match getItemTypeFromName name with
    | .file => UnixPath.text (names ++ [name])
    | .folder => UnixPath.text (names ++ [name]) ++ slash := by
  rw [itemPath, List.getLastD_eq_getLast?, List.getLast?_concat, Option.getD_some]

/-- The text of names from the pieces that `reduce` joins. -/
theorem foldl_join (start : Text) (names : List Text) :
    names.foldl (fun acc itemName => acc ++ slash ++ itemName) start =
      start ++ UnixPath.text names := by
  induction names generalizing start with
  | nil => simp
  | cons name rest ih => rw [List.foldl_cons, ih, UnixPath.text_cons, slash]; simp

/-- A slash is appended to a path without one. -/
theorem appendSlash_text_of_rough (rough : UnixPath.Rough names) :
    appendSlash (UnixPath.text names) = UnixPath.text names ++ slash := by
  rcases List.eq_nil_or_concat' names with rfl | ⟨parent, name, rfl⟩
  · rfl
  · obtain ⟨nonempty, noSlash, -⟩ := rough name (by simp)
    rw [appendSlash, text_endsWith_slash_of_slashless nonempty noSlash, if_neg (by simp)]

/-- A slash is appended to the path of some names. -/
theorem appendSlash_text (areNames : UnixPath.AreNames names) :
    appendSlash (UnixPath.text names) = UnixPath.text names ++ slash :=
  appendSlash_text_of_rough areNames.rough

/-- The parent folder of a path without a slash at its end. -/
theorem getParentPathFromPath_text (rough : UnixPath.Rough (names ++ [name])) :
    getParentPathFromPath (UnixPath.text (names ++ [name])) = UnixPath.text names ++ slash := by
  obtain ⟨nonempty, noSlash, -⟩ := rough name (by simp)
  rw [getParentPathFromPath, UnixPath.splitOn_text rough.slashless,
    text_endsWith_slash_of_slashless nonempty noSlash]
  have erased : ([] :: (names ++ [name])).eraseIdx (([] :: (names ++ [name])).length - 1) =
      [] :: names := by
    simp [List.eraseIdx_cons_succ, List.eraseIdx_append_of_length_le]
  simp only [Bool.false_eq_true, and_false, if_false, erased, foldl_join, List.nil_append]
  exact appendSlash_text_of_rough (UnixPath.rough_append.mp rough).1

/-- The parent folder of an item, unless the path of a file ends with a slash. -/
theorem getParentPathFromPath_of_pathTo {path : Text}
    (areNames : UnixPath.AreNames (names ++ [name]))
    (pathTo : path = UnixPath.text (names ++ [name]) ∨
      path = UnixPath.text (names ++ [name]) ++ slash ∧ getItemTypeFromName name = .folder) :
    getParentPathFromPath path = UnixPath.text names ++ slash := by
  have slashless := areNames.slashless
  obtain rfl | ⟨rfl, folder⟩ := pathTo
  · exact getParentPathFromPath_text areNames.rough
  · have split : (UnixPath.text (names ++ [name]) ++ slash).splitOn '/' =
        [] :: (names ++ [name] ++ [[]]) := UnixPath.splitOn_text_slash slashless
    have type := getItemTypeFromPath_of_pathTo areNames (.inr rfl)
    rw [getParentPathFromPath, split, endsWith_slash, type, folder]
    have erased : ([] :: (names ++ [name] ++ [[]])).eraseIdx
        (([] :: (names ++ [name] ++ [[]])).length - 2) = [] :: (names ++ [[]]) := by
      simp [List.eraseIdx_cons_succ, List.eraseIdx_append_of_length_le]
    have withSlash : UnixPath.text (names ++ [[]]) = UnixPath.text names ++ slash := by
      simp [slash]
    simp only [and_self, if_true, erased, foldl_join, List.nil_append, withSlash]
    exact appendSlash_of_endsWith (endsWith_slash _)

/-! ## Any path -/

/-- A slash before a path does not change its components. -/
theorem components_withoutPreSlash (path : Text) :
    (UnixPath.ofText (withoutPreSlash path)).components = (UnixPath.ofText path).components := by
  cases path with
  | nil => rfl
  | cons first rest =>
      by_cases preSlash : first = '/'
      · subst preSlash
        exact (UnixPath.components_append_slash [] rest).symm
      · rw [withoutPreSlash]
        rintro other ⟨⟩
        exact preSlash rfl

/-- Up to its last slash a path that ends with one leads to the same place. -/
theorem appendSlash_split (path : Text) :
    ∃ base, appendSlash path = base ++ slash ∧ locate base = locate path := by
  by_cases ends : path.endsWith slash
  · obtain ⟨base, rfl⟩ := (endsWith_iff _ _).mp ends
    exact ⟨base, appendSlash_of_endsWith ends, (UnixPath.location_append_slash base []).symm⟩
  · exact ⟨path, if_neg ends, rfl⟩

/-- A slash at the end does not change where a path leads. -/
theorem locate_appendSlash (path : Text) : locate (appendSlash path) = locate path := by
  obtain ⟨base, shape, same⟩ := appendSlash_split path
  rw [shape, ← same]
  exact UnixPath.location_append_slash base []

/-- The second path is followed from where the first leads. -/
theorem locate_joinPaths (first second : Text) :
    locate (joinPaths first second) =
      UnixPath.follow (locate first) (UnixPath.ofText second).components := by
  obtain ⟨base, shape, same⟩ := appendSlash_split first
  rw [joinPaths, shape, ← same, ← components_withoutPreSlash second, List.append_assoc]
  exact UnixPath.location_append_slash base (withoutPreSlash second)

/-- A name joined to a path leads one step further. -/
theorem locate_joinPaths_name (isName : UnixPath.IsName name) (path : Text) :
    locate (joinPaths path name) = locate path ++ [name] := by
  rw [locate_joinPaths, UnixPath.ofText_of_isName isName]
  exact if_neg isName.2.2.2

/-! ## What is below a path -/

/-- A path with a slash at its end starts the paths of what is below it. -/
theorem slash_prefix_itemPath (areNames : UnixPath.AreNames names)
    (areNamesOther : UnixPath.AreNames other) :
    UnixPath.text names ++ slash <+: itemPath other ↔
      names <+: other ∧ (names = other → getItemTypeFromName (names.getLastD []) = .folder) := by
  have slashless := areNames.slashless
  have slashlessOther := areNamesOther.slashless
  rw [itemPath]
  split
  next file =>
    refine (UnixPath.text_slash_prefix slashless slashlessOther).trans
      (and_congr_right fun _ => ⟨fun different same => absurd same different, ?_⟩)
    rintro folder rfl
    rw [file] at folder
    cases folder rfl
  next folder =>
    refine (UnixPath.text_slash_prefix_slash slashless slashlessOther).trans ?_
    refine ⟨fun within => ⟨within, ?_⟩, And.left⟩
    rintro rfl
    exact folder

/-- The paths of items below some names start with their path. -/
theorem text_prefix_itemPath (below : names <+: other) :
    UnixPath.text names <+: itemPath other := by
  have within := UnixPath.text_prefix below
  rw [itemPath]
  split
  · exact within
  · exact within.trans (List.prefix_append _ _)

end Solpg.Client.Utils
