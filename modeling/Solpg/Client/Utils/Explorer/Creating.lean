import Solpg.Client.Utils.Explorer.Entering
import Solpg.Client.Utils.Explorer.Workspaces

/-!
# The files of a new workspace

Writing the files of a new workspace loses nothing that the store has and leaves alone the
folders that the explorer keeps for itself.
-/

namespace Solpg.Client.Utils

open Solpg.Std PgCommon PgExplorer

variable {fs : LightningFs} {cutOff : Prop} {disk : Disk fs} {self : PgExplorer}
  {place other parent target : List Text} {name : Text} {old new : Tree} {files : TupleFiles}
  {depth : Nat}

/-- Where a file of the workspace goes. -/
def targetOf (place : List Text) (path : Text) : List Text := locate (pathFrom place path)

/-- No file is in the way of the files of a new workspace, and none of them in the way of
another one. -/
structure NewFiles (tree : Tree) (place : List Text) (files : TupleFiles) : Prop where
  inside : ∀ file ∈ files, ∃ rest, rest ≠ [] ∧ UnixPath.AreNames rest ∧
    ".workspace".toList ∉ rest ∧ pathFrom place file.1 = UnixPath.text (place ++ rest)
  passable : ∀ file ∈ files, Passable tree (targetOf place file.1).dropLast
  free : ∀ file ∈ files, tree.node (targetOf place file.1) ≠ some .directory
  apart : ∀ first ∈ files, ∀ second ∈ files, targetOf place first.1 <+: targetOf place second.1 →
    targetOf place first.1 = targetOf place second.1

/-- Everything in the old tree is still there, and the folders of the explorer are as they
were. -/
structure Adds (old new : Tree) : Prop where
  directories : ∀ path, old.node path = some .directory → new.node path = some .directory
  files : ∀ path, (old.content path).isSome = true → (new.content path).isSome = true
  reserved : ∀ path, ".workspace".toList ∈ path ∨ [".config".toList] <+: path →
    new.node path = old.node path

namespace Adds

theorem refl (tree : Tree) : Adds tree tree := ⟨fun _ => id, fun _ => id, fun _ _ => rfl⟩

theorem trans {middle : Tree} (first : Adds old middle) (second : Adds middle new) :
    Adds old new where
  directories path found := second.directories path (first.directories path found)
  files path found := second.files path (first.files path found)
  reserved path kept := (second.reserved path kept).trans (first.reserved path kept)

theorem sparesFiles (adds : Adds old new) (place : List Text) : SparesFiles place old new where
  directory := adds.directories place
  files rest _ := adds.files (place ++ rest)

theorem sparesMetadata (adds : Adds old new) (place : List Text) : SparesMetadata place old new :=
  fun _ => adds.reserved _ (.inl (by simp))

theorem writableConfig (adds : Adds old new) (config : WritableConfig old) : WritableConfig new where
  directory := new.root
  noFile := by
    have folder := adds.reserved [".config".toList] (.inr List.prefix_rfl)
    change new.content [".config".toList] = none
    rw [DirectoryTree.content, folder]
    exact config.noFile
  free := by
    have file := adds.reserved [".config".toList, "workspaces.json".toList]
      (.inr (List.prefix_append _ _))
    change new.node [".config".toList, "workspaces.json".toList] ≠ some .directory
    rw [file]
    exact config.free

end Adds

section Written

variable {data : Text}

/-- What a file that is written does to the tree. -/
theorem adds_of_written (free : old.node (parent ++ [name]) ≠ some .directory)
    (notMetadata : ".workspace".toList ∉ parent ++ [name])
    (notConfig : ¬ [".config".toList] <+: parent ++ [name])
    (written : new.node = Function.update (DirectoryTree.grow old.node parent) (parent ++ [name])
      (some (.file data))) : Adds old new where
  directories path found := by
    have different : path ≠ parent ++ [name] := by
      rintro rfl
      exact free found
    rw [written, Function.update_of_ne different, DirectoryTree.grow_eq_directory]
    exact .inl found
  files path found := by
    obtain ⟨content, found⟩ := Option.isSome_iff_exists.mp found
    by_cases here : path = parent ++ [name]
    · rw [DirectoryTree.content, written, here, Function.update_self]
      rfl
    · have still : new.node path = some (.file content) := by
        rw [written, Function.update_of_ne here, DirectoryTree.grow_eq_file]
        exact DirectoryTree.content_eq_some.mp found
      rw [DirectoryTree.content_eq_some.mpr still]
      rfl
  reserved path kept := by
    have apart : ¬ path <+: parent ++ [name] := by
      intro within
      obtain metadata | config := kept
      · exact notMetadata (within.subset metadata)
      · exact notConfig (config.trans within)
    have different : path ≠ parent ++ [name] := by
      rintro rfl
      exact apart List.prefix_rfl
    rw [written, Function.update_of_ne different, DirectoryTree.grow, if_neg]
    exact fun both => apart (both.2.trans (List.prefix_append _ _))

/-- The way to another file is as free as before. -/
theorem passable_of_written (passable : Passable old target.dropLast)
    (apart : parent ++ [name] <+: target → parent ++ [name] = target) (inside : target ≠ [])
    (written : new.node = Function.update (DirectoryTree.grow old.node parent) (parent ++ [name])
      (some (.file data))) : Passable new target.dropLast := by
  intro path within
  have different : path ≠ parent ++ [name] := by
    rintro rfl
    have same := apart (within.trans (List.dropLast_prefix target))
    have shorter := within.length_le
    rw [same, List.length_dropLast] at shorter
    have := List.length_pos_of_ne_nil inside
    omega
  refine Option.eq_none_iff_forall_ne_some.mpr fun content found => ?_
  rw [DirectoryTree.content_eq_some, written, Function.update_of_ne different,
    DirectoryTree.grow_eq_file, ← DirectoryTree.content_eq_some, passable path within] at found
  cases found

theorem free_of_written (free : old.node target ≠ some .directory)
    (apart : target <+: parent ++ [name] → target = parent ++ [name])
    (written : new.node = Function.update (DirectoryTree.grow old.node parent) (parent ++ [name])
      (some (.file data))) : new.node target ≠ some .directory := by
  by_cases here : target = parent ++ [name]
  · rw [written, here, Function.update_self]
    simp
  · rw [written, Function.update_of_ne here, Ne, DirectoryTree.grow_eq_directory, not_or]
    exact ⟨free, fun both => here (apart (both.2.trans (List.prefix_append _ _)))⟩

theorem shallow_of_written (shallow : ∀ path, (old.node path).isSome = true → path.length < depth)
    (short : (parent ++ [name]).length < depth)
    (written : new.node = Function.update (DirectoryTree.grow old.node parent) (parent ++ [name])
      (some (.file data))) : ∀ path, (new.node path).isSome = true → path.length < depth := by
  intro path exists_
  by_cases here : path = parent ++ [name]
  · rwa [here]
  · rw [written, Function.update_of_ne here, DirectoryTree.grow] at exists_
    split at exists_
    · rename_i missing
      exact (missing.2.trans (List.prefix_append _ _)).length_le.trans_lt short
    · exact shallow path exists_

end Written

/-- A file of the workspace has a name below its directory. -/
theorem NewFiles.exists_target (newFiles : NewFiles old place files)
    (areNames : UnixPath.AreNames place) {file : Text × Text} (member : file ∈ files) :
    ∃ front last, UnixPath.AreNames (place ++ front ++ [last]) ∧
      ".workspace".toList ∉ front ++ [last] ∧
      pathFrom place file.1 = UnixPath.text (place ++ front ++ [last]) ∧
      targetOf place file.1 = place ++ front ++ [last] := by
  obtain ⟨names, some_, areRest, notMetadata, full⟩ := newFiles.inside file member
  obtain ⟨front, last, rfl⟩ := (List.eq_nil_or_concat' names).resolve_left some_
  rw [← List.append_assoc] at full
  have areWhole : UnixPath.AreNames (place ++ front ++ [last]) := by
    rw [List.append_assoc]
    exact UnixPath.areNames_append.mpr ⟨areNames, areRest⟩
  refine ⟨front, last, areWhole, notMetadata, full, ?_⟩
  rw [targetOf, full]
  exact UnixPath.location_text areWhole [] (by simp)

/-- Each of the files is written, and with the first of them the directory of the workspace is
there. -/
theorem writeFiles_adds (here : self.context.In place) (unreserved : Unreserved place)
    (newFiles : NewFiles disk.tree place files) (sound : disk.Tolerable 0)
    (shallow : ∀ path, (disk.tree.node path).isSome = true → path.length < depth)
    (deep : ∀ file ∈ files, (targetOf place file.1).length < depth) :
    (writeFiles files).Ensures (Interference.nobody.setting fs cutOff) self disk
      fun result self' disk' => result = .ok () ∧ self' = self ∧ disk'.Tolerable 0 ∧
        Adds disk.tree disk'.tree ∧
        (∀ path, (disk'.tree.node path).isSome = true → path.length < depth) ∧
        (files ≠ [] → disk'.tree.node place = some .directory) := by
  refine Async.Ensures.forM (fun items self' disk' => self' = self ∧ disk'.Tolerable 0 ∧
    (∀ item ∈ items, item ∈ files) ∧ NewFiles disk'.tree place items ∧ Adds disk.tree disk'.tree ∧
    (∀ path, (disk'.tree.node path).isSome = true → path.length < depth) ∧
    (items ≠ files → disk'.tree.node place = some .directory)) ?_ ?_ ?_
  · exact ⟨rfl, sound, fun _ => id, newFiles, Adds.refl _, shallow, fun differ => absurd rfl differ⟩
  · rintro ⟨path, content⟩ rest _ disk₁ ⟨rfl, sound₁, members, newFiles₁, adds₁, shallow₁, -⟩
    obtain ⟨front, last, areWhole, notMetadata, full, target⟩ :=
      newFiles₁.exists_target here.areNames List.mem_cons_self
    have passable := newFiles₁.passable _ List.mem_cons_self
    have free := newFiles₁.free _ List.mem_cons_self
    have short := deep _ (members _ List.mem_cons_self)
    simp only [target, List.dropLast_concat] at passable free short
    refine (writeFile_acts sound₁ areWhole (leadsTo_in here path) (.inl full) passable free _
      rfl).mono ?_
    rintro (error | done) _ disk₂ ⟨rfl, outcome⟩
    · obtain ⟨⟨fewer, less, -⟩, -⟩ := outcome
      omega
    · obtain ⟨sound₂, written⟩ := outcome
      have later := fun item (member : item ∈ rest) => List.mem_cons_of_mem (path, content) member
      have adds₂ : Adds disk₁.tree disk₂.tree := by
        refine adds_of_written free ?_ ?_ written
        · rw [List.append_assoc, List.mem_append, not_or]
          exact ⟨unreserved.notMetadata, notMetadata⟩
        · rw [List.append_assoc]
          exact unreserved.not_below_config _
      refine ⟨rfl, sound₂, fun item member => members item (later item member), ?_,
        adds₁.trans adds₂, shallow_of_written shallow₁ short written, fun _ => ?_⟩
      · refine ⟨fun item member => newFiles₁.inside item (later item member), ?_, ?_,
          fun first inRest second inRest' =>
            newFiles₁.apart first (later first inRest) second (later second inRest')⟩
        · intro item member
          have apart := newFiles₁.apart _ List.mem_cons_self item (later item member)
          rw [target] at apart
          refine passable_of_written (newFiles₁.passable item (later item member)) apart ?_ written
          obtain ⟨front', last', -, -, -, targetItem⟩ :=
            newFiles₁.exists_target here.areNames (later item member)
          rw [targetItem]
          simp
        · intro item member
          have apart := newFiles₁.apart item (later item member) _ List.mem_cons_self
          rw [target] at apart
          exact free_of_written (newFiles₁.free item (later item member)) apart written
      · have missing : place ≠ place ++ front ++ [last] := by simp
        rw [written, Function.update_of_ne missing, DirectoryTree.grow_eq_directory]
        exact (passable.directory_or_none (List.prefix_append _ _)).imp_right fun missing =>
          ⟨missing, List.prefix_append _ _⟩
  · rintro _ disk' ⟨rfl, left, -, -, adds, shallow', directory⟩
    exact ⟨rfl, rfl, left, adds, shallow', fun some_ => directory some_.symm⟩

end Solpg.Client.Utils
