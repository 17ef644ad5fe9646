import Solpg.Client.Utils.Explorer.Loading

/-!
# Writing into a folder of the explorer's own

The metadata of a workspace and the list of workspaces are each a file in a folder that is made
when it is missing. Writing them changes nothing outside of that folder.
-/

namespace Solpg.Client.Utils

open Solpg.Std PgCommon PgExplorer

variable {fs : LightningFs} {others : Interference} {cutOff : Prop} {disk : Disk fs} {count : Nat}
  {context : Context} {self : PgExplorer} {browser : Browser} {place : List Text}
  {folder file path full data : Text}

/-- The file can be written into the folder, which may be missing. -/
structure Writable (tree : Tree) (place : List Text) (folder file : Text) : Prop where
  directory : tree.node place = some .directory
  noFile : tree.content (place ++ [folder]) = none
  free : tree.node (place ++ [folder] ++ [file]) ≠ some .directory

/-- What exists in the new tree is old or on the way to a place. -/
def GrownTo (target : List Text) (old new : Tree) : Prop :=
  ∀ other, (new.node other).isSome = true → (old.node other).isSome = true ∨ other <+: target

namespace Writable

variable {old new : Tree} {part other : List Text}

theorem passable (writable : Writable old place folder file) : Passable old (place ++ [folder]) := by
  intro other within
  obtain rfl | above := List.prefix_concat_iff.mp within
  · exact writable.noFile
  · have exists_ : (old.node place).isSome = true := by rw [writable.directory]; rfl
    have directory : old.node other = some .directory := by
      by_cases here : other = place
      · rw [here, writable.directory]
      · exact old.node_of_prefix above here exists_
    simp [DirectoryTree.content, directory]

/-- Only the folder itself can be missing on the way to it. -/
theorem grow (writable : Writable old place folder file) (within : part <+: place ++ [folder])
    (apart : ¬ place ++ [folder] <+: other) :
    DirectoryTree.grow old.node part other = old.node other := by
  rw [DirectoryTree.grow, if_neg]
  rintro ⟨missing, above⟩
  obtain rfl | higher := List.prefix_concat_iff.mp (above.trans within)
  · exact apart List.prefix_rfl
  · have exists_ : (old.node place).isSome = true := by rw [writable.directory]; rfl
    by_cases here : other = place
    · rw [here, writable.directory] at missing
      cases missing
    · rw [old.node_of_prefix higher here exists_] at missing
      cases missing

theorem directory_of_sameOutside (writable : Writable old place folder file)
    (outside : SameOutside (place ++ [folder]) old new) : new.node place = some .directory := by
  rw [outside place fun within => absurd within.length_le (by simp)]
  exact writable.directory

/-- The folder is made, perhaps. -/
theorem grown (writable : Writable old place folder file) (within : part <+: place ++ [folder])
    (grown : new.node = DirectoryTree.grow old.node part) :
    Writable new place folder file ∧ SameOutside (place ++ [folder]) old new := by
  have outside : SameOutside (place ++ [folder]) old new := by
    intro other apart
    rw [grown, writable.grow within apart]
  refine ⟨⟨writable.directory_of_sameOutside outside, ?_, ?_⟩, outside⟩
  · rw [content_of_node grown]
    exact writable.noFile
  · rw [grown, Ne, DirectoryTree.grow_eq_directory, not_or]
    refine ⟨writable.free, fun both => ?_⟩
    exact absurd (both.2.trans within).length_le (by simp)

/-- The file is written. -/
theorem written (writable : Writable old place folder file)
    (written : new.node = Function.update (DirectoryTree.grow old.node (place ++ [folder]))
      (place ++ [folder] ++ [file]) (some (.file data))) :
    Writable new place folder file ∧ SameOutside (place ++ [folder]) old new ∧
      GrownTo (place ++ [folder] ++ [file]) old new ∧
      new.node (place ++ [folder] ++ [file]) = some (.file data) := by
  have outside : SameOutside (place ++ [folder]) old new := by
    intro other apart
    have different : other ≠ place ++ [folder] ++ [file] := by
      rintro rfl
      exact apart (List.prefix_append _ _)
    rw [written, Function.update_of_ne different, writable.grow List.prefix_rfl apart]
  refine ⟨⟨writable.directory_of_sameOutside outside, ?_, ?_⟩, outside, ?_, ?_⟩
  · have different : place ++ [folder] ≠ place ++ [folder] ++ [file] := by simp
    refine Option.eq_none_iff_forall_ne_some.mpr fun content found => ?_
    rw [DirectoryTree.content_eq_some, written, Function.update_of_ne different,
      DirectoryTree.grow_eq_file, ← DirectoryTree.content_eq_some, writable.noFile] at found
    cases found
  · rw [written, Function.update_self]
    simp
  · intro other exists_
    rw [written] at exists_
    by_cases here : other = place ++ [folder] ++ [file]
    · exact .inr (here ▸ List.prefix_rfl)
    · rw [Function.update_of_ne here, DirectoryTree.grow] at exists_
      split at exists_
      · rename_i missing
        exact .inr (missing.2.trans (List.prefix_append _ _))
      · exact .inl exists_
  · rw [written, Function.update_self]

end Writable

/-- The file is there afterwards, unless the store fails. -/
theorem writeFile_writes (tolerable : disk.Tolerable count)
    (areNames : UnixPath.AreNames (place ++ [folder] ++ [file])) (leads : LeadsTo context path full)
    (itemPath : ItemPath (place ++ [folder]) file full)
    (writable : Writable disk.tree place folder file) :
    Acts others cutOff context (PgFs.writeFile path data true) disk fun result disk' =>
      Writable disk'.tree place folder file ∧
        SameOutside (place ++ [folder]) disk.tree disk'.tree ∧
        match result with
        | .ok _ => disk'.Tolerable count ∧
            GrownTo (place ++ [folder] ++ [file]) disk.tree disk'.tree ∧
            disk'.tree.node (place ++ [folder] ++ [file]) = some (.file data)
        | .error _ => ∃ fewer < count, disk'.Tolerable fewer := by
  refine (writeFile_acts tolerable areNames leads itemPath writable.passable writable.free).mono ?_
  rintro (error | done) disk' outcome
  · obtain ⟨left, part, within, grown⟩ := outcome
    obtain ⟨writable', outside⟩ := writable.grown within grown
    exact ⟨writable', outside, left⟩
  · obtain ⟨left, written⟩ := outcome
    obtain ⟨writable', outside, reached, there⟩ := writable.written written
    exact ⟨writable', outside, left, reached, there⟩

/-- The metadata can be written below the directory of the workspace. -/
abbrev WritableMetaAt (tree : Tree) (place : List Text) : Prop :=
  Writable tree place ".workspace".toList "metadata.json".toList

/-- The list of workspaces can be written. -/
abbrev WritableConfig (tree : Tree) : Prop :=
  Writable tree [] ".config".toList "workspaces.json".toList

theorem metadataOf_eq (place : List Text) :
    place ++ [".workspace".toList] ++ ["metadata.json".toList] = metadataOf place := by
  simp [metadataOf]

/-- `saveMeta` writes the metadata that it gathers. -/
theorem saveMeta_writes (here : self.context.In place) (tolerable : disk.Tolerable count)
    (writable : WritableMetaAt disk.tree place) :
    (saveMeta browser).Ensures (others.setting fs cutOff) self disk fun result self' disk' =>
      others.Rel self self' ∧ WritableMetaAt disk'.tree place ∧
        SameOutside (place ++ [".workspace".toList]) disk.tree disk'.tree ∧
        match self.savedMeta with
        | .error error => result = .error error ∧ disk' = disk
        | .ok none => result = .ok () ∧ disk' = disk
        | .ok (some entries) =>
            match result with
            | .ok _ => disk'.Tolerable count ∧ GrownTo (metadataOf place) disk.tree disk'.tree ∧
                disk'.tree.node (metadataOf place) =
                  some (.file (browser.stringifyMetaFile entries))
            | .error _ => ∃ fewer < count, disk'.Tolerable fewer := by
  rw [saveMeta, Async.ensures_bind]
  change either _ _ self.savedMeta self disk
  cases known : self.savedMeta with
  | error error => exact ⟨others.refl self, writable, fun _ _ => rfl, rfl, rfl⟩
  | ok saved =>
      cases saved with
      | none => exact ⟨others.refl self, writable, fun _ _ => rfl, rfl, rfl⟩
      | some entries =>
          have areNames := areNames_metadataOf here.areNames
          rw [← metadataOf_eq] at areNames
          refine (writeFile_writes tolerable areNames (leadsTo_in here METADATA_PATH)
            (itemPath_metadata place) writable self rfl).mono ?_
          rintro (error | done) self' disk' ⟨moved, writable', outside, outcome⟩
          · exact ⟨moved, writable', outside, outcome⟩
          · rw [metadataOf_eq] at outcome
            exact ⟨moved, writable', outside, outcome⟩

/-- `saveWorkspaces` writes the list of workspaces. -/
theorem saveWorkspaces_writes (tolerable : disk.Tolerable 0) (writable : WritableConfig disk.tree) :
    (saveWorkspaces browser).Ensures (Interference.nobody.setting fs cutOff) self disk
      fun result self' disk' => result = .ok () ∧ self' = self ∧ disk'.Tolerable 0 ∧
        WritableConfig disk'.tree ∧ SameOutside [".config".toList] disk.tree disk'.tree ∧
        GrownTo [".config".toList, "workspaces.json".toList] disk.tree disk'.tree := by
  have config : ItemPath ([] ++ [".config".toList]) "workspaces.json".toList
      WORKSPACES_CONFIG_PATH := .inl (by decide)
  rw [saveWorkspaces, Async.ensures_bind, Async.ensures_get, either_ok]
  split
  · refine (writeFile_writes tolerable (by decide) (leadsTo_full config.startsWith_slash) config
      writable self rfl).mono ?_
    rintro (error | done) self' disk' ⟨rfl, writable', outside, outcome⟩
    · obtain ⟨fewer, less, -⟩ := outcome
      omega
    · obtain ⟨left, grown, -⟩ := outcome
      exact ⟨rfl, rfl, left, writable', outside, grown⟩
  · exact ⟨rfl, rfl, tolerable, writable, fun _ _ => rfl, fun _ => .inl⟩

end Solpg.Client.Utils
