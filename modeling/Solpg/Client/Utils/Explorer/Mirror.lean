import Solpg.Client.Utils.Explorer.Loading
import Solpg.Client.Utils.Explorer.MemoryFs

/-!
# The explorer mirrors the store

The files of the state and the files of the workspace in the store are the same,
hidden files apart.
-/

namespace Solpg.Client.Utils

open Solpg.Std PgCommon

/-- The same files with the same content, each under the path of its names. -/
structure Mirrors (state : PgExplorer) (tree : Tree) (name : Text) : Prop where
  here : state.context.At name
  directory : tree.node [name] = some .directory
  keys : ∀ key content, state.files.content key = some content →
    ∃ rest, rest ≠ [] ∧ Visible rest ∧ key = itemPath (name :: rest)
  files : ∀ rest, rest ≠ [] → Visible rest →
    state.files.content (itemPath (name :: rest)) = tree.content (name :: rest)

variable {self : PgExplorer} {tree : Tree} {name key path : Text} {names rest : List Text}

/-- A key is below some names when it is the path of a place there. -/
theorem keyBelow_iff : KeyBelow names key ↔ names <+: locate key ∧ itemPath (locate key) = key := by
  constructor
  · rintro ⟨rest, areNames, rfl⟩
    rw [locate_itemPath areNames]
    exact ⟨List.prefix_append _ _, rfl⟩
  · rintro ⟨⟨rest, whole⟩, same⟩
    refine ⟨rest, ?_, ?_⟩
    · rw [whole]
      exact areNames_locate key
    · rw [whole, same]

instance (names : List Text) (key : Text) : Decidable (KeyBelow names key) :=
  decidable_of_iff _ keyBelow_iff.symm

theorem keyBelow_itemPath {other : List Text} (areNames : UnixPath.AreNames other) :
    KeyBelow names (itemPath other) ↔ names <+: other := by
  rw [keyBelow_iff, locate_itemPath areNames]
  simp

theorem Visible.cons_areNames (isName : UnixPath.IsName name) (visible : Visible rest) :
    UnixPath.AreNames (name :: rest) := by
  intro other member
  rcases List.mem_cons.mp member with rfl | later
  · exact isName
  · exact (visible other later).1

/-- A key with content is the path of a file in the store. -/
theorem Mirrors.file {content : Text} (mirrors : Mirrors self tree name)
    (found : self.files.content key = some content) : ∃ rest, rest ≠ [] ∧ Visible rest ∧
      key = itemPath (name :: rest) ∧ tree.node (name :: rest) = some (.file content) := by
  obtain ⟨rest, some_, visible, rfl⟩ := mirrors.keys key content found
  refine ⟨rest, some_, visible, rfl, ?_⟩
  rw [mirrors.files rest some_ visible] at found
  exact DirectoryTree.content_eq_some.mp found

/-- Nothing in the state says that a directory of the store is a file. -/
theorem Mirrors.content_of_directory (mirrors : Mirrors self tree name)
    (areNames : UnixPath.AreNames names) (inside : names ≠ []) (pathTo : PathTo names path)
    (directory : tree.node names = some .directory) : self.files.content path = none := by
  cases found : self.files.content path with
  | none => rfl
  | some content =>
      obtain ⟨rest, -, visible, same, file⟩ := mirrors.file found
      have place := locate_of_pathTo areNames inside pathTo
      rw [same, locate_itemPath (visible.cons_areNames mirrors.here.isName)] at place
      rw [place, directory] at file
      cases file

/-- In memory the mirror can be checked: each key and each path is looked at. -/
theorem Mirrors.of_memory {db : MemoryDb} (here : self.context.At name)
    (directory : db.tree.node [name] = some .directory)
    (keys : ∀ key ∈ self.files.keys, (self.files.content key).isSome = true →
      (locate key).head? = some name ∧ (locate key).tail ≠ [] ∧ Visible (locate key).tail ∧
        itemPath (locate key) = key ∧ (db.tree.content (locate key)).isSome = true)
    (paths : ∀ names ∈ db.paths, (db.tree.content names).isSome = true →
      self.files.content (itemPath names) = db.tree.content names) :
    Mirrors self db.tree name where
  here := here
  directory := directory
  keys key content found := by
    obtain ⟨head, some_, visible, same, -⟩ :=
      keys key (ExplorerFiles.mem_keys_of_content found) (by rw [found]; rfl)
    refine ⟨(locate key).tail, some_, visible, ?_⟩
    rw [List.cons_head?_tail head, same]
  files rest some_ visible := by
    have areNames := visible.cons_areNames here.isName
    cases file : db.tree.content (name :: rest) with
    | some content =>
        have exists_ : (db.tree.node (name :: rest)).isSome = true := by
          rw [DirectoryTree.content_eq_some.mp file]
          rfl
        rw [paths _ (db.complete _ exists_) (by rw [file]; rfl), file]
    | none =>
        cases found : self.files.content (itemPath (name :: rest)) with
        | none => rfl
        | some content =>
            obtain ⟨-, -, -, -, there⟩ :=
              keys _ (ExplorerFiles.mem_keys_of_content found) (by rw [found]; rfl)
            rw [locate_itemPath areNames, file] at there
            cases there

end Solpg.Client.Utils
