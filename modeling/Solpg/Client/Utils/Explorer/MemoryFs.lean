import Mathlib.Data.List.Dedup
import Solpg.Client.Utils.Explorer.Explorer

/-!
# A store in memory

An instance of `LightningFs`: a tree with a list of paths in which everything
that exists is found.
-/

namespace Solpg.Client.Utils

open Solpg.Std

structure MemoryDb where
  tree : Tree
  paths : List (List Text)
  complete : ∀ path, (tree.node path).isSome = true → path ∈ paths
  named : ∀ path, (tree.node path).isSome = true → UnixPath.AreNames path

namespace MemoryDb

variable (db : MemoryDb)

/-- The names in a directory. -/
def names (path : List Text) : List Text :=
  ((db.paths.filter fun other =>
    decide (other ≠ []) && decide (other.dropLast = path) && (db.tree.node other).isSome).map
      fun other => other.getLastD []).dedup

theorem mem_names {path : List Text} {name : Text} :
    name ∈ db.names path ↔ (db.tree.node (path ++ [name])).isSome = true := by
  simp only [names, List.mem_dedup, List.mem_map, List.mem_filter, Bool.and_eq_true,
    decide_eq_true_eq]
  constructor
  · rintro ⟨other, ⟨-, ⟨inside, rfl⟩, exists_⟩, rfl⟩
    have whole := List.dropLast_append_getLast inside
    have last : other.getLastD [] = other.getLast inside := by
      rw [List.getLastD_eq_getLast?, List.getLast?_eq_some_getLast inside, Option.getD_some]
    rwa [last, whole]
  · intro exists_
    exact ⟨path ++ [name], ⟨db.complete _ exists_, ⟨by simp, by simp⟩, exists_⟩, by simp⟩

theorem names_eq_nil {path : List Text} :
    db.names path = [] ↔ ∀ name, db.tree.node (path ++ [name]) = none := by
  simp [List.eq_nil_iff_forall_not_mem, mem_names]

def failed {α : Type} (message : String) (code : Option FsCode) : Except JsError α × MemoryDb :=
  (.error ⟨message.toList, code⟩, db)

def put (path : List Text) (new : Node Text)
    (parent : db.tree.node path.dropLast = some .directory) (inside : path ≠ [])
    (free : db.tree.node path ≠ some .directory) (areNames : UnixPath.AreNames path) :
    MemoryDb where
  tree := db.tree.put path new parent inside free
  paths := db.paths ++ [path]
  complete other exists_ := by
    by_cases here : other = path
    · simp [here]
    · rw [DirectoryTree.put_node, Function.update_of_ne here] at exists_
      exact List.mem_append_left _ (db.complete other exists_)
  named other exists_ := by
    by_cases here : other = path
    · exact here ▸ areNames
    · rw [DirectoryTree.put_node, Function.update_of_ne here] at exists_
      exact db.named other exists_

def erase (path : List Text) (inside : path ≠ [])
    (leaf : ∀ name, db.tree.node (path ++ [name]) = none) : MemoryDb where
  tree := db.tree.erase path inside leaf
  paths := db.paths
  complete other exists_ := by
    by_cases here : other = path
    · rw [DirectoryTree.erase_node, here, Function.update_self] at exists_
      cases exists_
    · rw [DirectoryTree.erase_node, Function.update_of_ne here] at exists_
      exact db.complete other exists_
  named other exists_ := by
    by_cases here : other = path
    · rw [DirectoryTree.erase_node, here, Function.update_self] at exists_
      cases exists_
    · rw [DirectoryTree.erase_node, Function.update_of_ne here] at exists_
      exact db.named other exists_

def move (source target : List Text) (inside : target ≠ []) (sourceInside : source ≠ [])
    (parent : db.tree.node target.dropLast = some .directory)
    (apart : ¬ source <+: target.dropLast) (areNames : UnixPath.AreNames target) : MemoryDb where
  tree := db.tree.move source target inside sourceInside parent apart
  paths := db.paths ++ db.paths.map fun path => target ++ path.drop source.length
  complete other exists_ := by
    simp only [DirectoryTree.move, DirectoryTree.origin] at exists_
    split at exists_
    next below =>
      obtain ⟨rest, rfl⟩ := below
      simp only [List.drop_left, Option.bind_some] at exists_
      exact List.mem_append_right _
        (List.mem_map.mpr ⟨_, db.complete _ exists_, by simp⟩)
    next =>
      split at exists_
      next => cases exists_
      next => exact List.mem_append_left _ (db.complete other exists_)
  named other exists_ := by
    simp only [DirectoryTree.move, DirectoryTree.origin] at exists_
    split at exists_
    next below =>
      obtain ⟨rest, rfl⟩ := below
      simp only [List.drop_left, Option.bind_some] at exists_
      exact UnixPath.areNames_append.mpr
        ⟨areNames, (UnixPath.areNames_append.mp (db.named _ exists_)).2⟩
    next =>
      split at exists_
      next => cases exists_
      next => exact db.named other exists_

def call : (request : FsCall) → MemoryDb → request.Answer × MemoryDb
  | .stat path, db =>
      match db.tree.node (locate path) with
      | some (.file _) => (.ok .file, db)
      | some .directory => (.ok .directory, db)
      | none => db.failed "ENOENT" (some .ENOENT)
  | .readFile path, db =>
      match db.tree.node (locate path) with
      | some (.file content) => (.ok content, db)
      | some .directory => db.failed "EISDIR" none
      | none => db.failed "ENOENT" (some .ENOENT)
  | .readdir path, db =>
      match db.tree.node (locate path) with
      | some .directory => (.ok (db.names (locate path)), db)
      | some (.file _) => db.failed "ENOTDIR" (some .ENOTDIR)
      | none => db.failed "ENOENT" (some .ENOENT)
  | .writeFile path data, db =>
      if free : db.tree.node (locate path).dropLast = some .directory ∧ locate path ≠ [] ∧
          db.tree.node (locate path) ≠ some .directory then
        (.ok (), db.put (locate path) (.file data) free.1 free.2.1 free.2.2
          (areNames_locate path))
      else db.failed "ENOENT" (some .ENOENT)
  | .mkdir path, db =>
      if (db.tree.node (locate path)).isSome then db.failed "EEXIST" (some .EEXIST)
      else
        if free : db.tree.node (locate path).dropLast = some .directory ∧ locate path ≠ [] ∧
            db.tree.node (locate path) ≠ some .directory then
          (.ok (), db.put (locate path) .directory free.1 free.2.1 free.2.2
            (areNames_locate path))
        else db.failed "ENOENT" (some .ENOENT)
  | .unlink path, db =>
      match found : db.tree.node (locate path) with
      | some (.file content) =>
          (.ok (), db.erase (locate path)
            (fun root => by rw [root, db.tree.root] at found; cases found)
            fun name => db.tree.node_below_eq_none (by simp [found]) (by simp))
      | some .directory => db.failed "EISDIR" none
      | none => db.failed "ENOENT" (some .ENOENT)
  | .rmdir path, db =>
      if empty : db.tree.node (locate path) = some .directory ∧ locate path ≠ [] ∧
          db.names (locate path) = [] then
        (.ok (), db.erase (locate path) empty.2.1 (db.names_eq_nil.mp empty.2.2))
      else db.failed "ENOTEMPTY" (some .ENOTEMPTY)
  | .rename oldPath newPath, db =>
      if (db.tree.node (locate oldPath)).isSome then
        if free : locate newPath ≠ [] ∧ locate oldPath ≠ [] ∧
            db.tree.node (locate newPath).dropLast = some .directory ∧
            ¬ locate oldPath <+: (locate newPath).dropLast then
          (.ok (), db.move (locate oldPath) (locate newPath) free.1 free.2.1 free.2.2.1 free.2.2.2
            (areNames_locate newPath))
        else db.failed "ENOENT" (some .ENOENT)
      else db.failed "ENOENT" (some .ENOENT)

/-- A root without entries. -/
def empty : MemoryDb where
  tree :=
    { node := fun path => if path = [] then some .directory else none
      root := rfl
      closed := fun path name exists_ => by simp at exists_ }
  paths := [[]]
  complete path exists_ := by
    by_cases root : path = []
    · simp [root]
    · simp [root] at exists_
  named path exists_ := by
    by_cases root : path = []
    · exact root ▸ fun _ member => by cases member
    · simp [root] at exists_

/-- The store after some calls. -/
def after (db : MemoryDb) (calls : List FsCall) : MemoryDb :=
  calls.foldl (fun db request => (call request db).2) db

end MemoryDb

theorem exists_depth (paths : List (List Text)) : ∃ depth, ∀ path ∈ paths, path.length < depth := by
  induction paths with
  | nil => exact ⟨0, nofun⟩
  | cons path rest ih =>
      obtain ⟨depth, deep⟩ := ih
      refine ⟨max (path.length + 1) depth, fun other member => ?_⟩
      rcases List.mem_cons.mp member with rfl | later
      · omega
      · have := deep other later
        omega

def memoryFs : LightningFs where
  Db := MemoryDb
  tree := MemoryDb.tree
  call := MemoryDb.call
  named {db path} := db.named path
  finite db := by
    obtain ⟨depth, deep⟩ := exists_depth db.paths
    exact ⟨depth, fun path exists_ => deep path (db.complete path exists_)⟩
  frame {db request path} apart := by
    have notAt : ∀ place, ¬ place <+: path → path ≠ place := by
      rintro place outside rfl
      exact outside List.prefix_rfl
    cases request with
    | stat _ | readFile _ | readdir _ => simp only [MemoryDb.call]; split <;> rfl
    | writeFile target data =>
        have other := notAt _ (apart (locate target) (by simp [FsCall.places]))
        rw [MemoryDb.call]
        split
        · exact Function.update_of_ne other _ _
        · rfl
    | mkdir target =>
        have other := notAt _ (apart (locate target) (by simp [FsCall.places]))
        rw [MemoryDb.call]
        split
        · rfl
        · split
          · exact Function.update_of_ne other _ _
          · rfl
    | unlink target =>
        have other := notAt _ (apart (locate target) (by simp [FsCall.places]))
        rw [MemoryDb.call]
        split
        · exact Function.update_of_ne other _ _
        · rfl
        · rfl
    | rmdir target =>
        have other := notAt _ (apart (locate target) (by simp [FsCall.places]))
        rw [MemoryDb.call]
        split
        · exact Function.update_of_ne other _ _
        · rfl
    | rename source target =>
        have notBelowSource := apart (locate source) (by simp [FsCall.places])
        have notBelowTarget := apart (locate target) (by simp [FsCall.places])
        rw [MemoryDb.call]
        split
        · split
          · simp [MemoryDb.move, DirectoryTree.move, DirectoryTree.origin, notBelowSource,
              notBelowTarget]
          · rfl
        · rfl
  stat_found {db path node} found := by
    cases node <;> simp only [MemoryDb.call, found] <;> rfl
  stat_missing {db path} missing := ⟨_, by simp only [MemoryDb.call, missing]; rfl⟩
  stat_same db path := by
    simp only [MemoryDb.call]
    split <;> rfl
  readFile_found {db path content} found := by simp only [MemoryDb.call, found]
  readFile_missing {db path} missing := ⟨_, by simp only [MemoryDb.call, missing]; rfl⟩
  readFile_same db path := by
    simp only [MemoryDb.call]
    split <;> rfl
  readdir_found {db path} found :=
    ⟨db.names (locate path), by simp only [MemoryDb.call, found], List.nodup_dedup _,
      fun name => db.mem_names⟩
  readdir_missing {db path} missing := ⟨_, by simp only [MemoryDb.call, missing]; rfl⟩
  readdir_file {db path content} found := ⟨_, by simp only [MemoryDb.call, found]; rfl⟩
  readdir_same db path := by
    simp only [MemoryDb.call]
    split <;> rfl
  writeFile_put {db path data} parent inside free := by
    rw [MemoryDb.call, dif_pos ⟨parent, inside, free⟩]
    exact ⟨rfl, rfl⟩
  writeFile_done {db path data} done := by
    rw [MemoryDb.call] at done ⊢
    split
    · exact Function.update_self _ _ _
    next blocked =>
      rw [dif_neg blocked] at done
      cases done
  writeFile_orphan {db path data} orphan := by
    rw [MemoryDb.call, dif_neg (by simp [orphan])]
    exact ⟨⟨_, rfl⟩, rfl⟩
  mkdir_new {db path} parent missing := by
    have inside : locate path ≠ [] := by
      intro root
      rw [root, db.tree.root] at missing
      cases missing
    rw [MemoryDb.call, if_neg (by simp [missing]), dif_pos ⟨parent, inside, by simp [missing]⟩]
    exact ⟨rfl, rfl⟩
  mkdir_exists {db path} exists_ := by
    rw [MemoryDb.call, if_pos exists_]
    exact ⟨⟨_, rfl⟩, rfl⟩
  mkdir_orphan {db path} orphan := by
    have missing : db.tree.node (locate path) = none := by
      by_contra found
      have exists_ := Option.isSome_iff_ne_none.mpr found
      by_cases root : locate path = []
      · simp [root, db.tree.root] at orphan
      · rw [← List.dropLast_append_getLast root] at exists_
        rw [db.tree.closed _ _ exists_] at orphan
        cases orphan
    rw [MemoryDb.call, if_neg (by simp [missing]), dif_neg (by simp [orphan])]
    exact ⟨⟨_, rfl⟩, rfl⟩
  unlink_file {db path content} found := by
    rw [MemoryDb.call]
    split
    · exact ⟨rfl, rfl⟩
    next directory => rw [found] at directory; cases directory
    next missing => rw [found] at missing; cases missing
  unlink_missing {db path} missing := by
    rw [MemoryDb.call]
    split
    next file => rw [missing] at file; cases file
    next directory => rw [missing] at directory; cases directory
    next => exact ⟨⟨_, rfl⟩, rfl⟩
  rmdir_empty {db path} found inside leaf := by
    rw [MemoryDb.call, dif_pos ⟨found, inside, db.names_eq_nil.mpr leaf⟩]
    exact ⟨rfl, rfl⟩
  rename_move {db oldPath newPath} exists_ sourceInside inside parent apart _ := by
    have outside : ¬ locate oldPath <+: (locate newPath).dropLast := fun within =>
      apart (within.trans (List.dropLast_prefix _))
    rw [MemoryDb.call, if_pos exists_, dif_pos ⟨inside, sourceInside, parent, outside⟩]
    exact ⟨rfl, fun _ => rfl⟩
  rename_missing {db oldPath newPath} missing := by
    rw [MemoryDb.call, if_neg (by simp [missing])]
    exact ⟨⟨_, rfl⟩, rfl⟩
  rename_orphan {db oldPath newPath} exists_ orphan := by
    rw [MemoryDb.call, if_pos exists_, dif_neg (by simp [orphan])]
    exact ⟨⟨_, rfl⟩, rfl⟩

/-- `JSON` for one kind of metadata: the paths of the tabs. -/
def PgExplorer.plainBrowser : Browser where
  lsFiles := none
  stringifyMetaFile entries := (entries.filter (·.isTabs)).flatMap fun entry => entry.path ++ ['\n']
  parseMetaFile _ := none
  stringifyWorkspaces workspaces := workspaces.allNames.flatMap (· ++ ['\n'])

end Solpg.Client.Utils
