import Solpg.Client.Utils.Explorer.Effects
import Solpg.Client.Utils.Explorer.FsRules

/-!
# What is saved of a workspace

The explorer in a workspace, where its relative paths lead, and what saving the
metadata and the list of workspaces does to the store.
-/

namespace Solpg.Client.Utils

open Solpg.Std PgCommon

/-- The root path of a workspace of that name leads to the place. A name can have slashes in
it and one at its end. -/
def IsNameOf (name : Text) (place : List Text) : Prop :=
  name ≠ [] ∧ joinPaths slash (appendSlash name) = UnixPath.text place ++ slash

/-- The explorer is in a workspace whose directory has that place. -/
structure Context.In (context : Context) (place : List Text) : Prop where
  stored : context.isTemporary = false
  hasWorkspace : context.hasWorkspace = true
  current : ∃ name, context.workspaces.currentName = some name ∧ IsNameOf name place
  areNames : UnixPath.AreNames place
  inside : place ≠ []

/-- The explorer is in a workspace of that name. -/
structure Context.At (context : Context) (name : Text) : Prop where
  stored : context.isTemporary = false
  hasWorkspace : context.hasWorkspace = true
  current : context.workspaces.currentName = some name
  isName : UnixPath.IsName name

/-- Where a path leads from the folder of a workspace. -/
def pathFrom (place : List Text) (path : Text) : Text :=
  if path.startsWith slash then path else UnixPath.text place ++ slash ++ path

/-- A path in the folder of a workspace. -/
def pathIn (name path : Text) : Text :=
  if path.startsWith slash then path else UnixPath.text [name] ++ slash ++ path

/-- Where the metadata of a place is stored. -/
def metadataOf (place : List Text) : List Text :=
  place ++ [".workspace".toList, "metadata.json".toList]

/-- Where the metadata of a workspace is stored. -/
def metadataPlace (name : Text) : List Text := [name, ".workspace".toList, "metadata.json".toList]

variable {context : Context} {name path : Text} {place : List Text} {self : PgExplorer}

/-- A relative path has no slash to lose. -/
theorem withoutPreSlash_of_relative (relative : ¬ path.startsWith slash = true) :
    withoutPreSlash path = path := by
  cases path with
  | nil => rfl
  | cons first rest =>
      by_cases preSlash : first = '/'
      · subst preSlash
        exact absurd rfl relative
      · rw [withoutPreSlash]
        intro other same
        exact preSlash (List.head_eq_of_cons_eq same)

/-- A name without slashes is the name of a place of its own. -/
theorem isNameOf_of_isName (isName : UnixPath.IsName name) : IsNameOf name [name] := by
  obtain ⟨nonempty, noSlash, -⟩ := isName
  have ends : name.endsWith slash = false := by
    rw [Bool.eq_false_iff, Ne, endsWith_iff]
    exact fun suffix => noSlash (suffix.subset (List.mem_singleton_self _))
  refine ⟨nonempty, ?_⟩
  obtain ⟨first, rest, rfl⟩ := List.exists_cons_of_ne_nil nonempty
  have notFirst : first ≠ '/' := fun same => noSlash (same ▸ List.mem_cons_self)
  have kept : withoutPreSlash (first :: rest ++ slash) = first :: rest ++ slash := by
    rw [List.cons_append, withoutPreSlash]
    intro other same
    exact notFirst (List.head_eq_of_cons_eq same)
  have root : appendSlash slash = slash := rfl
  have folder : appendSlash (first :: rest) = first :: rest ++ slash := if_neg (by simp [ends])
  rw [joinPaths, root, folder, kept]
  simp [slash]

/-- The folder of the current workspace is the place of the context. -/
theorem Context.At.within (here : context.At name) : context.In [name] where
  stored := here.stored
  hasWorkspace := here.hasWorkspace
  current := ⟨name, here.current, isNameOf_of_isName here.isName⟩
  areNames other member := by
    rw [List.mem_singleton.mp member]
    exact here.isName
  inside := List.cons_ne_nil name []

/-- The path of the current workspace, from its place. -/
theorem requiredPath_of_in (here : self.context.In place) :
    self.getRequiredCurrentWorkspacePath = .ok (UnixPath.text place ++ slash) := by
  obtain ⟨name, current, nonempty, root⟩ := here.current
  have has : self.hasWorkspace = true := here.hasWorkspace
  have current : self.workspaces.currentName = some name := current
  obtain ⟨first, rest, rfl⟩ := List.exists_cons_of_ne_nil nonempty
  simp only [PgExplorer.getRequiredCurrentWorkspacePath, has, current, root]
  rfl

/-- The path of the current workspace, from its name. -/
theorem requiredPath_of_at (here : self.context.At name) :
    self.getRequiredCurrentWorkspacePath = .ok (UnixPath.text [name] ++ slash) :=
  requiredPath_of_in here.within

/-- Relative paths are joined to the place. -/
theorem convertToFullPath_of_in (here : self.context.In place) (path : Text) :
    self.convertToFullPath path = .ok (pathFrom place path) := by
  rw [PgExplorer.convertToFullPath, pathFrom]
  split
  · rfl
  next relative =>
    have stored : self.isTemporary = false := here.stored
    simp only [PgExplorer.getProjectRootPath, stored, Bool.false_eq_true, if_false,
      requiredPath_of_in here, Except.map, joinPaths, withoutPreSlash_of_relative relative,
      appendSlash_of_endsWith (endsWith_slash _)]

/-- Relative paths are joined to the workspace. -/
theorem convertToFullPath_of_at (here : self.context.At name) (path : Text) :
    self.convertToFullPath path = .ok (pathIn name path) :=
  convertToFullPath_of_in here.within path

/-- The path of the metadata from the place. -/
theorem pathFrom_metadata (place : List Text) :
    pathFrom place METADATA_PATH = UnixPath.text (metadataOf place) := by
  have relative : METADATA_PATH.startsWith slash = false := by decide
  rw [pathFrom, relative, if_neg (by simp)]
  have shape : METADATA_PATH = ".workspace".toList ++ slash ++ "metadata.json".toList := by decide
  simp [shape, metadataOf, slash]

/-- The metadata is at names. -/
theorem areNames_metadataOf (areNames : UnixPath.AreNames place) :
    UnixPath.AreNames (metadataOf place) := by
  refine UnixPath.areNames_append.mpr ⟨areNames, fun other member => ?_⟩
  simp only [List.mem_cons, List.not_mem_nil, or_false] at member
  obtain rfl | rfl := member
  · decide
  · decide

/-- The metadata of a workspace is at names. -/
theorem areNames_metadataPlace (isName : UnixPath.IsName name) :
    UnixPath.AreNames (metadataPlace name) := by
  have alone : UnixPath.AreNames [name] := by
    intro other member
    rwa [List.mem_singleton.mp member]
  exact areNames_metadataOf alone

variable {fs : LightningFs} {others : Interference} {cutOff : Prop} {disk : Disk fs} {count : Nat}
  {top : List Text}

/-- Where a path leads in the place. -/
theorem leadsTo_in (here : context.In place) (path : Text) :
    LeadsTo context path (pathFrom place path) := by
  rintro self rfl
  exact convertToFullPath_of_in here path

/-- Where a path leads in the workspace. -/
theorem leadsTo_at (here : context.At name) (path : Text) :
    LeadsTo context path (pathIn name path) :=
  leadsTo_in here.within path

/-- The metadata is a file of its folder. -/
theorem itemPath_metadata (place : List Text) :
    ItemPath (place ++ [".workspace".toList]) "metadata.json".toList
      (pathFrom place METADATA_PATH) := by
  refine .inl ((pathFrom_metadata place).trans ?_)
  simp [metadataOf]

/-- Saving the metadata leaves alone what is not below its folder. -/
theorem saveMeta_framed (browser : Browser) (here : self.context.At name)
    (tolerable : disk.Tolerable count) (above : top <+: metadataPlace name)
    (existing : ∀ place, place <+: [name, ".workspace".toList] → ¬ top <+: place →
      (disk.tree.node place).isSome = true) :
    (PgExplorer.saveMeta browser).Ensures (others.setting fs cutOff) self disk
      fun result self' disk' => others.Rel self self' ∧ Framed count top disk.tree disk' ∧
        match self.savedMeta with
        | .ok (some entries) => result = .ok () →
            disk'.tree.node (metadataPlace name) = some (.file (browser.stringifyMetaFile entries))
        | _ => disk'.tree = disk.tree := by
  have unchanged : Framed count top disk.tree disk := ⟨tolerable, fun _ _ => rfl⟩
  rw [PgExplorer.saveMeta, Async.ensures_bind]
  change either _ _ self.savedMeta self disk
  cases self.savedMeta with
  | error error => exact ⟨others.refl self, unchanged, rfl⟩
  | ok saved =>
      cases saved with
      | none => exact ⟨others.refl self, unchanged, rfl⟩
      | some entries =>
          refine (writeFile_framed tolerable (areNames_metadataPlace here.isName)
            (leadsTo_at here METADATA_PATH) (itemPath_metadata [name]) above existing self rfl).mono ?_
          rintro result self' disk' ⟨moved, framed, done⟩
          exact ⟨moved, framed, done⟩

/-- The list of workspaces is kept apart from them. -/
theorem saveWorkspaces_framed (browser : Browser) (tolerable : disk.Tolerable count) :
    (PgExplorer.saveWorkspaces browser).Ensures (others.setting fs cutOff) self disk
      fun _ self' disk' => others.Rel self self' ∧
        Framed count [".config".toList] disk.tree disk' := by
  have unchanged : Framed count [".config".toList] disk.tree disk := ⟨tolerable, fun _ _ => rfl⟩
  have config : ItemPath [".config".toList] "workspaces.json".toList WORKSPACES_CONFIG_PATH :=
    .inl (by decide)
  rw [PgExplorer.saveWorkspaces, Async.ensures_bind, Async.ensures_get, either_ok]
  split
  · refine (writeFile_framed tolerable (by decide) (leadsTo_full config.startsWith_slash) config
      (List.prefix_append _ _) ?_ self rfl).mono ?_
    · intro place within outside
      have root : place = [] := by
        rcases List.prefix_cons_iff.mp within with root | ⟨rest, rfl, -⟩
        · exact root
        · exact absurd (List.cons_prefix_cons.mpr ⟨rfl, List.nil_prefix⟩) outside
      rw [root, disk.tree.root]
      rfl
    · rintro result self' disk' ⟨moved, framed, -⟩
      exact ⟨moved, framed⟩
  · exact ⟨others.refl self, unchanged⟩

/-! ## Programs that change the state in one step -/

namespace PgExplorer

/-- `saveMeta` leaves the explorer alone. -/
theorem quiet_saveMeta (browser : Browser) : Quiet (saveMeta browser) := by
  refine (quiet_sync _).bind fun saved => ?_
  cases saved
  · exact quiet_pure _
  · exact quiet_writeFile _ _ _

/-- Go on in the same state after a program that leaves it alone. -/
theorem ensures_quiet_bind {α : Type} {first : PgM α} {next : α → PgM Unit}
    {Inv : PgExplorer → Prop} (quiet : Quiet first) (holds : Inv self)
    (rest : ∀ value (disk : Disk fs), (next value).Ensures (Interference.nobody.setting fs True) self
      disk fun _ self' _ => Inv self') :
    (first >>= next).Ensures (Interference.nobody.setting fs True) self disk
      fun _ self' _ => Inv self' := by
  refine (quiet fs self.context disk self rfl).bind ?_ ?_
  · rintro value _ disk' ⟨rfl, -⟩
    exact rest value disk'
  · rintro error _ disk' ⟨rfl, -⟩
    exact holds

/-- What holds of the explorer still holds after a program that leaves it alone. -/
theorem ensures_quiet {program : PgM Unit} {Inv : PgExplorer → Prop} (quiet : Quiet program)
    (holds : Inv self) : program.Ensures (Interference.nobody.setting fs True) self disk
      fun _ self' _ => Inv self' := by
  refine (quiet fs self.context disk self rfl).mono ?_
  rintro result _ disk' ⟨rfl, -⟩
  exact holds

/-- A program that leaves the explorer alone does so where it runs. -/
theorem quiet_unlessTemporary {program : PgM Unit} (quiet : Quiet program) :
    Quiet (unlessTemporary program) := by
  intro fs context disk self here
  rw [unlessTemporary, Async.ensures_bind, Async.ensures_get, either_ok]
  exact (quiet_pure ()).ite quiet fs context disk self here

/-- `removeItem` leaves the explorer alone until its files are gone. -/
theorem quiet_removeItem (fuel : Nat) (fullPath : Text) : Quiet (removeItem fuel fullPath) := by
  refine (quiet_getMetadata _).bind fun metadata => ?_
  cases metadata
  · exact quiet_removeFile _
  · exact quiet_removeDir _ _

/-- A change of the state after which only the metadata is saved. -/
theorem ensures_modify_saveMeta {f : PgExplorer → PgExplorer} {Inv : PgExplorer → Prop}
    (holds : Inv (f self)) : (do modify f; saveMeta browser : PgM Unit).Ensures
      (Interference.nobody.setting fs True) self disk fun _ self' _ => Inv self' := by
  rw [Async.ensures_bind, Async.ensures_modify, either_ok]
  exact ensures_quiet (quiet_saveMeta browser) holds

end PgExplorer
end Solpg.Client.Utils
