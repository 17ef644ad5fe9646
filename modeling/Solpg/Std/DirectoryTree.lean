import Solpg.Std.FileSystem

/-!
# Directory trees

A tree of files and directories over any type of names, with its root. The
operations ask for what makes their result a tree.
-/

namespace Solpg.Std

universe u

deriving instance DecidableEq for Node

/-- Whatever exists stands in a directory. -/
structure DirectoryTree (Name : Type u) (Content : Type) where
  node : List Name → Option (Node Content)
  root : node [] = some .directory
  closed : ∀ path name, (node (path ++ [name])).isSome = true → node path = some .directory

namespace DirectoryTree

variable {Name : Type u} {Content : Type} {tree : DirectoryTree Name Content} {path rest : List Name}

/-- The content of the file at a path. -/
def content (tree : DirectoryTree Name Content) (path : List Name) : Option Content :=
  match tree.node path with
  | some (.file content) => some content
  | _ => none

/-- A path has a content when a file stands there. -/
theorem content_eq_some {content : Content} :
    tree.content path = some content ↔ tree.node path = some (.file content) := by
  simp only [DirectoryTree.content]
  split <;> simp_all

/-- Above whatever exists there are directories only. -/
theorem node_of_below (below : (tree.node (path ++ rest)).isSome = true) (proper : rest ≠ []) :
    tree.node path = some .directory := by
  induction rest using List.reverseRecOn with
  | nil => exact absurd rfl proper
  | append_singleton rest name ih =>
      rw [← List.append_assoc] at below
      have parent := tree.closed (path ++ rest) name below
      by_cases last : rest = []
      · rwa [last, List.append_nil] at parent
      · exact ih (by rw [parent]; rfl) last

/-- Above whatever is there stands a directory. -/
theorem node_of_prefix {other : List Name} (above : path <+: other) (proper : path ≠ other)
    (exists_ : (tree.node other).isSome = true) : tree.node path = some .directory := by
  obtain ⟨rest, rfl⟩ := above
  refine node_of_below exists_ ?_
  rintro rfl
  simp at proper

/-- Nothing stands below what is not a directory. -/
theorem node_below_eq_none (notDirectory : tree.node path ≠ some .directory) (proper : rest ≠ []) :
    tree.node (path ++ rest) = none := by
  by_contra found
  exact notDirectory (node_of_below (Option.isSome_iff_ne_none.mpr found) proper)

/-- Nothing stands below a file. -/
theorem leaf_of_file {content : Content} (file : tree.node path = some (.file content)) (name : Name) :
    tree.node (path ++ [name]) = none :=
  tree.node_below_eq_none (by simp [file]) (by simp)

/-- Neither of two paths leads through the other. -/
def Apart (first second : List Name) : Prop := ¬ first <+: second ∧ ¬ second <+: first

section Apart

variable {first second place : List Name}

/-- Two paths are apart either way round. -/
theorem Apart.symm (apart : Apart first second) : Apart second first := ⟨apart.2, apart.1⟩

/-- Nothing is below both. -/
theorem Apart.not_below (apart : Apart first second) (below : first <+: place) :
    ¬ second <+: place := fun also =>
  (List.prefix_or_prefix_of_prefix below also).elim apart.1 apart.2

/-- What is below one of two paths is apart from the other. -/
theorem Apart.below (apart : Apart first second) (below : first <+: place) :
    Apart place second :=
  ⟨fun above => apart.1 (below.trans above), apart.not_below below⟩

instance [DecidableEq Name] (first second : List Name) : Decidable (Apart first second) :=
  inferInstanceAs (Decidable (_ ∧ _))

end Apart

variable [DecidableEq Name]

/-- Make the directories that are missing on the way to a path. -/
def grow (node : List Name → Option (Node Content)) (path : List Name) :
    List Name → Option (Node Content) :=
  fun place => if node place = none ∧ place <+: path then some .directory else node place

section Grow

variable {node : List Name → Option (Node Content)} {place longer : List Name} {content : Content}

/-- Growing makes and removes no files. -/
theorem grow_eq_file : grow node path place = some (.file content) ↔
    node place = some (.file content) := by
  rw [grow]
  split
  next missing => simp [missing.1]
  next => rfl

/-- Growing adds the directories on the way. -/
theorem grow_eq_directory : grow node path place = some .directory ↔
    node place = some .directory ∨ node place = none ∧ place <+: path := by
  rw [grow]
  split
  next missing => simp [missing]
  next there =>
    constructor
    · exact .inl
    · rintro (directory | missing)
      · exact directory
      · exact absurd missing there

/-- Growing leaves nothing where nothing was and no directory is needed. -/
theorem grow_eq_none : grow node path place = none ↔ node place = none ∧ ¬ place <+: path := by
  rw [grow]
  split
  next missing => simp [missing]
  next there => exact ⟨fun none_ => ⟨none_, fun above => there ⟨none_, above⟩⟩, And.left⟩

/-- Growing on the way first makes no difference. -/
theorem grow_grow (above : path <+: longer) : grow (grow node path) longer = grow node longer := by
  funext place
  by_cases missing : node place = none
  · by_cases within : place <+: path
    · simp [grow, missing, within, within.trans above]
    · simp [grow, missing, within]
  · simp [grow, missing]

/-- Nothing on the way is left to grow. -/
theorem grow_of_prefix (above : path <+: longer) : grow (grow node longer) path = grow node longer := by
  funext place
  rw [grow, if_neg]
  rintro ⟨missing, within⟩
  exact (grow_eq_none.mp missing).2 (within.trans above)

/-- Nothing grows on the way to a directory. -/
theorem grow_of_directory (directory : tree.node path = some .directory) :
    grow tree.node path = tree.node := by
  funext place
  rw [grow, if_neg]
  rintro ⟨missing, above⟩
  by_cases here : place = path
  · rw [here, directory] at missing
    cases missing
  · have parent := node_of_prefix above here (by rw [directory]; rfl)
    rw [parent] at missing
    cases missing

/-- One more directory in an existing one. -/
theorem grow_concat {name : Name} (directory : tree.node path = some .directory)
    (missing : tree.node (path ++ [name]) = none) :
    grow tree.node (path ++ [name]) =
      Function.update tree.node (path ++ [name]) (some .directory) := by
  funext place
  by_cases here : place = path ++ [name]
  · simp [here, grow, missing]
  · have same := congrFun (grow_of_directory directory) place
    rw [Function.update_of_ne here]
    refine Eq.trans ?_ same
    simp only [grow, List.prefix_concat_iff, here, false_or]

end Grow

/-- Everything but what is at a path or below it. -/
def cut (node : List Name → Option (Node Content)) (path : List Name) :
    List Name → Option (Node Content) :=
  fun place => if path <+: place then none else node place

/-- A path with nothing below it is cut by removing it alone. -/
theorem update_none_eq_cut (leaf : ∀ name, tree.node (path ++ [name]) = none) :
    Function.update tree.node path none = cut tree.node path := by
  funext place
  by_cases here : place = path
  · simp [here, cut]
  · rw [Function.update_of_ne here, cut]
    split
    next below =>
      obtain ⟨rest, rfl⟩ := below
      cases rest with
      | nil => simp at here
      | cons name rest =>
          have whole : path ++ name :: rest = path ++ [name] ++ rest := by simp
          by_cases last : rest = []
          · rw [last, leaf]
          · rw [whole, tree.node_below_eq_none (by simp [leaf]) last]
    next => rfl

/-- Put a file or a new directory into a directory. -/
def put (tree : DirectoryTree Name Content) (path : List Name) (new : Node Content)
    (parent : tree.node path.dropLast = some .directory) (inside : path ≠ [])
    (free : tree.node path ≠ some .directory) : DirectoryTree Name Content where
  node := Function.update tree.node path (some new)
  root := by rw [Function.update_of_ne inside.symm, tree.root]
  closed other name exists_ := by
    by_cases target : other ++ [name] = path
    · subst target
      rw [List.dropLast_concat] at parent
      rwa [Function.update_of_ne (by simp)]
    · rw [Function.update_of_ne target] at exists_
      have directory := tree.closed other name exists_
      rw [Function.update_of_ne _ _ _]
      · exact directory
      · rintro rfl
        exact free directory

@[simp] theorem put_node {new : Node Content} (parent : tree.node path.dropLast = some .directory)
    (inside : path ≠ []) (free : tree.node path ≠ some .directory) :
    (tree.put path new parent inside free).node = Function.update tree.node path (some new) := rfl

/-- Remove what has nothing below it. -/
def erase (tree : DirectoryTree Name Content) (path : List Name) (inside : path ≠ [])
    (leaf : ∀ name, tree.node (path ++ [name]) = none) : DirectoryTree Name Content where
  node := Function.update tree.node path none
  root := by rw [Function.update_of_ne inside.symm, tree.root]
  closed other name exists_ := by
    by_cases gone : other ++ [name] = path
    · rw [gone, Function.update_self] at exists_
      cases exists_
    · rw [Function.update_of_ne gone] at exists_
      rw [Function.update_of_ne _ _ _]
      · exact tree.closed other name exists_
      · rintro rfl
        rw [leaf name] at exists_
        cases exists_

@[simp] theorem erase_node (inside : path ≠ []) (leaf : ∀ name, tree.node (path ++ [name]) = none) :
    (tree.erase path inside leaf).node = Function.update tree.node path none := rfl

/-- Where what stands at a path after a move stood before it. -/
def origin (source target path : List Name) : Option (List Name) :=
  if target <+: path then some (source ++ path.drop target.length)
  else if source <+: path then none
  else some path

/-- Move what stands at `source` to `target`, in the place of what stood there. -/
def move (tree : DirectoryTree Name Content) (source target : List Name)
    (inside : target ≠ []) (sourceInside : source ≠ [])
    (parent : tree.node target.dropLast = some .directory)
    (apart : ¬ source <+: target.dropLast) : DirectoryTree Name Content where
  node path := (origin source target path).bind tree.node
  root := by
    have up : ¬ target <+: [] := by simpa using inside
    have down : ¬ source <+: [] := by simpa using sourceInside
    simp [origin, up, down, tree.root]
  closed path name exists_ := by
    by_cases below : target <+: path
    · have deeper : target <+: path ++ [name] := below.trans (List.prefix_append _ _)
      obtain ⟨rest, rfl⟩ := below
      have short : (target ++ rest ++ [name]).drop target.length = rest ++ [name] := by simp
      simp only [origin, deeper, if_true, short, Option.bind_some] at exists_
      have directory := tree.closed (source ++ rest) name (by simpa using exists_)
      simpa [origin] using directory
    · by_cases here : target <+: path ++ [name]
      · -- The new place itself: its directory is not moved.
        obtain same | within := List.prefix_concat_iff.mp here
        · rw [same, List.dropLast_concat] at parent apart
          simp [origin, below, apart, parent]
        · exact absurd within below
      · by_cases moved : source <+: path ++ [name]
        · simp [origin, here, moved] at exists_
        · have notBelow : ¬ source <+: path := fun above =>
            moved (above.trans (List.prefix_append _ _))
          simp only [origin, here, moved, if_false, Option.bind_some] at exists_
          simpa [origin, below, notBelow] using tree.closed path name exists_

end DirectoryTree
end Solpg.Std
