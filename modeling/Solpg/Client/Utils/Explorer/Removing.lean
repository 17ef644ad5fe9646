import Solpg.Client.Utils.Explorer.FsRules

/-!
# Removing a directory

`removeDir` of a path with a slash at its end removes the directory and all that
is below it. Without the slash it looks for the entries next to the directory.
-/

namespace Solpg.Client.Utils

open Solpg.Std

variable {fs : LightningFs} {others : Interference} {cutOff : Prop} {context : Context}
  {disk : Disk fs} {names : List Text} {path : Text}

/-- The rule for a loop over a list in a program that leaves the state alone. -/
theorem Acts.forM {α : Type} {body : α → PgM Unit} {items : List α}
    {outcome : Except JsError Unit → Disk fs → Prop} (Inv : List α → Disk fs → Prop)
    (start : Inv items disk)
    (turn : ∀ item rest disk, Inv (item :: rest) disk →
      Acts others cutOff context (body item) disk fun result disk' =>
        match result with
        | .ok _ => Inv rest disk'
        | .error error => outcome (.error error) disk')
    (finish : ∀ disk, Inv [] disk → outcome (.ok ()) disk) :
    Acts others cutOff context (items.forM body) disk outcome := by
  induction items generalizing disk with
  | nil => exact acts_pure (finish disk start)
  | cons item rest ih =>
      exact Acts.bind _ (turn item rest disk start) (fun _ disk' holds => ih holds)
        fun _ _ failed => failed

/-- A program succeeds with a result on a store that does not fail. -/
abbrev Succeeds {α : Type} (done : α → Tree → Prop) : Except JsError α → Disk fs → Prop :=
  Outcome 0 done fun _ => False

/-- On a store that does not fail a program succeeds. -/
theorem Acts.succeeds {α : Type} {program : PgM α} {done : α → Tree → Prop} {failed : Tree → Prop}
    (acts : Acts others cutOff context program disk (Outcome 0 done failed)) :
    Acts others cutOff context program disk (Succeeds done) := by
  refine acts.mono ?_
  rintro (error | value) disk' outcome
  · obtain ⟨⟨fewer, less, -⟩, -⟩ := outcome
    omega
  · exact outcome

/-- An error is no success. -/
theorem not_succeeds {α : Type} {done : α → Tree → Prop} {error : JsError} {disk : Disk fs} :
    ¬ Succeeds done (.error error) disk := fun failed => failed.2

/-- A file is cut off. -/
theorem removeFile_acts (sound : disk.Tolerable 0) (full : path.startsWith slash = true)
    {content : Text} (found : disk.tree.node (locate path) = some (.file content)) :
    Acts others cutOff context (PgFs.removeFile path) disk (Succeeds fun _ tree =>
      tree.node = DirectoryTree.cut disk.tree.node (locate path)) := by
  obtain ⟨answer, removed⟩ := fs.unlink_file found
  have leaf := DirectoryTree.update_none_eq_cut (DirectoryTree.leaf_of_file found)
  exact acts_sync_bind (leadsTo_full full)
    (acts_call _ (fun _ => True) sound ⟨_, answer, removed.trans leaf⟩ trivial).succeeds

/-- An empty directory is cut off. -/
theorem rmdir_acts (sound : disk.Tolerable 0) (inside : locate path ≠ [])
    (directory : disk.tree.node (locate path) = some .directory)
    (empty : ∀ name, disk.tree.node (locate path ++ [name]) = none) :
    Acts others cutOff context (PgFs.request (.rmdir path)) disk (Succeeds fun _ tree =>
      tree.node = DirectoryTree.cut disk.tree.node (locate path)) := by
  obtain ⟨answer, removed⟩ := fs.rmdir_empty directory inside empty
  have leaf := DirectoryTree.update_none_eq_cut empty
  exact (acts_call _ (fun _ => True) sound ⟨_, answer, removed.trans leaf⟩ trivial).succeeds

/-- The entries of a directory as `readdir` gives them. -/
structure EntriesOf (tree : Tree) (names dir : List Text) : Prop where
  distinct : dir.Nodup
  members : ∀ name, name ∈ dir ↔ (tree.node (names ++ [name])).isSome = true

/-- A directory without entries has nothing below it. -/
theorem EntriesOf.empty {tree : Tree} (entries : EntriesOf tree names []) (name : Text) :
    tree.node (names ++ [name]) = none := by
  by_contra found
  simpa using (entries.members name).mpr (Option.isSome_iff_ne_none.mpr found)

/-- The tree when some entries of a directory are removed. -/
structure CutEntries (old : Tree) (names : List Text) (removed : Text → Prop) (new : Tree) : Prop where
  kept : ∀ place, (∀ name, removed name → ¬ names ++ [name] <+: place) →
    new.node place = old.node place
  gone : ∀ name rest, removed name → new.node (names ++ name :: rest) = none

/-- What is below an entry has its name. -/
theorem concat_prefix_iff {name other : Text} {rest : List Text} :
    names ++ [name] <+: names ++ other :: rest ↔ name = other := by
  rw [List.prefix_append_right_inj, List.cons_prefix_cons]
  simp

/-- A directory is not below its entries. -/
theorem not_concat_prefix (names : List Text) (name : Text) : ¬ names ++ [name] <+: names :=
  fun within => absurd within.length_le (by simp)

/-- One more entry is cut off. -/
theorem CutEntries.next {old middle new : Tree} {removed : Text → Prop} {name : Text}
    (before : CutEntries old names removed middle)
    (cut : new.node = DirectoryTree.cut middle.node (names ++ [name])) :
    CutEntries old names (fun other => other = name ∨ removed other) new where
  kept place outside := by
    rw [cut, DirectoryTree.cut, if_neg (outside name (.inl rfl))]
    exact before.kept place fun other was => outside other (.inr was)
  gone other rest either := by
    rw [cut, DirectoryTree.cut]
    split
    next => rfl
    next apart =>
      refine before.gone other rest (either.resolve_left fun same => apart ?_)
      exact concat_prefix_iff.mpr same.symm

/-- The removed entries may be described otherwise. -/
theorem CutEntries.mono {old new : Tree} {removed fewer : Text → Prop}
    (cut : CutEntries old names removed new) (same : ∀ name, fewer name ↔ removed name) :
    CutEntries old names fewer new where
  kept place outside := cut.kept place fun name was => outside name ((same name).mpr was)
  gone name rest was := cut.gone name rest ((same name).mp was)

/-- Nothing is left in a directory once all its entries are removed. -/
theorem CutEntries.emptied {old new : Tree} {dir : List Text}
    (cut : CutEntries old names (· ∈ dir) new) (entries : EntriesOf old names dir) (name : Text) :
    new.node (names ++ [name]) = none := by
  by_cases member : name ∈ dir
  · exact cut.gone name [] member
  · have missing : old.node (names ++ [name]) = none := by
      by_contra found
      exact member ((entries.members name).mpr (Option.isSome_iff_ne_none.mpr found))
    rw [cut.kept _ ?_, missing]
    intro other was within
    exact member (concat_prefix_iff.mp within ▸ was)

/-- A directory is cut off with its entries or without them. -/
theorem CutEntries.cut_eq {old new : Tree} {removed : Text → Prop}
    (cut : CutEntries old names removed new) :
    DirectoryTree.cut new.node names = DirectoryTree.cut old.node names := by
  funext other
  simp only [DirectoryTree.cut]
  split
  next => rfl
  next outside =>
    refine cut.kept other fun name _ within => outside ?_
    exact (List.prefix_append _ _).trans within

/-- The loop of `recursivelyRmdir` over `dir` with `rest` still to remove. -/
structure Removing (old : Tree) (names dir rest : List Text) (disk : Disk fs) : Prop where
  sound : disk.Tolerable 0
  distinct : rest.Nodup
  within : ∀ name ∈ rest, name ∈ dir
  cut : CutEntries old names (fun name => name ∈ dir ∧ name ∉ rest) disk.tree

section Removing

variable {old : Tree} {dir rest : List Text} {child : Text}

/-- What is below the next entry is still there. -/
theorem Removing.untouched (removing : Removing old names dir (child :: rest) disk)
    (below : List Text) : disk.tree.node (names ++ child :: below) = old.node (names ++ child :: below) := by
  refine removing.cut.kept _ fun name was inChild => was.2 ?_
  rw [concat_prefix_iff.mp inChild]
  exact List.mem_cons_self

/-- The next entry is removed. -/
theorem Removing.next {disk' : Disk fs} (removing : Removing old names dir (child :: rest) disk)
    (sound : disk'.Tolerable 0)
    (cut : disk'.tree.node = DirectoryTree.cut disk.tree.node (names ++ [child])) :
    Removing old names dir rest disk' := by
  obtain ⟨first, distinct⟩ := List.nodup_cons.mp removing.distinct
  have member := removing.within child List.mem_cons_self
  refine ⟨sound, distinct, fun name later => removing.within name (List.mem_cons_of_mem _ later),
    (removing.cut.next cut).mono fun name => ?_⟩
  by_cases here : name = child
  · simp [here, member, first]
  · simp [here]

end Removing

/-- A turn of the loop of `recursivelyRmdir`: a file goes at once, a directory by recursion. -/
theorem removeChild_acts {fuel : Nat} {node : Node Text} (sound : disk.Tolerable 0)
    (full : path.startsWith slash = true) (place : locate path = names) (inside : names ≠ [])
    (found : disk.tree.node names = some node)
    (removes : ∀ (disk' : Disk fs) dir, disk'.Tolerable 0 → disk'.tree = disk.tree →
      node = .directory → EntriesOf disk'.tree names dir →
      Acts others cutOff context (PgFs.recursivelyRmdir fuel dir (path ++ slash)) disk'
        (Succeeds fun _ tree => tree.node = DirectoryTree.cut disk'.tree.node names)) :
    Acts others cutOff context (do
      let metadata ← PgFs.getMetadata path
      match metadata with
      | .directory => do
          let childDir ← PgFs.readDir path
          if !childDir.isEmpty then PgFs.recursivelyRmdir fuel childDir (path ++ slash)
          else PgFs.request (.rmdir path)
      | .file => PgFs.removeFile path) disk
      (Succeeds fun _ tree => tree.node = DirectoryTree.cut disk.tree.node names) := by
  refine Acts.bind _ (getMetadata_acts sound full (by rw [place]; exact found)).succeeds
    ?_ fun _ _ failed => (not_succeeds failed).elim
  rintro metadata disk₁ ⟨sound₁, rfl, tree₁⟩
  cases node with
  | file content =>
      have unlinks := @removeFile_acts fs others cutOff context disk₁ path sound₁ full
        content (by rw [place, tree₁]; exact found)
      rw [place, tree₁] at unlinks
      exact unlinks
  | directory =>
      refine Acts.bind _ (readDir_acts sound₁ full (by rw [place, tree₁]; exact found)).succeeds
        ?_ fun _ _ failed => (not_succeeds failed).elim
      rintro childDir disk₂ ⟨sound₂, tree₂, distinct, members⟩
      have tree : disk₂.tree = disk.tree := tree₂.trans tree₁
      rw [place, tree₁, ← tree] at members
      have entries : EntriesOf disk₂.tree names childDir := ⟨distinct, members⟩
      by_cases empty : childDir = []
      · subst empty
        have removesHere := @rmdir_acts fs others cutOff context disk₂ path sound₂
          (by rw [place]; exact inside) (by rw [place, tree]; exact found)
          (by rw [place]; exact entries.empty)
        rw [place, tree] at removesHere
        exact removesHere
      · have notEmpty : (!childDir.isEmpty) = true := by simpa using empty
        simp only [notEmpty]
        have below := removes disk₂ childDir sound₂ tree rfl entries
        rw [tree] at below
        exact below

/-- The last step of `recursivelyRmdir`: the directory is read again, and is empty. -/
theorem removeEmptied_acts (sound : disk.Tolerable 0) (full : path.startsWith slash = true)
    (inside : locate path ≠ []) (directory : disk.tree.node (locate path) = some .directory)
    (empty : ∀ name, disk.tree.node (locate path ++ [name]) = none) :
    Acts others cutOff context (do
      let dir ← PgFs.readDir path
      if dir.isEmpty then PgFs.request (.rmdir path)) disk
      (Succeeds fun _ tree => tree.node = DirectoryTree.cut disk.tree.node (locate path)) := by
  refine Acts.bind _ (readDir_acts sound full directory).succeeds
    ?_ fun _ _ failed => (not_succeeds failed).elim
  rintro dir disk₁ ⟨sound₁, tree, -, members⟩
  have nothing : dir = [] := by
    rw [List.eq_nil_iff_forall_not_mem]
    intro name member
    have found := (members name).mp member
    rw [empty] at found
    cases found
  subst nothing
  have removes := @rmdir_acts fs others cutOff context disk₁ path sound₁ inside
    (by rw [tree]; exact directory) (by rw [tree]; exact empty)
  rw [tree] at removes
  exact removes

/-- A directory is removed with all that is below it. -/
theorem recursivelyRmdir_acts {fuel : Nat} {dir : List Text} (sound : disk.Tolerable 0)
    (areNames : UnixPath.AreNames names) (inside : names ≠ [])
    (directory : disk.tree.node names = some .directory) (entries : EntriesOf disk.tree names dir)
    (deep : ∀ rest, (disk.tree.node (names ++ rest)).isSome = true → rest.length < fuel) :
    Acts others cutOff context
      (PgFs.recursivelyRmdir fuel dir (UnixPath.text names ++ slash)) disk (Succeeds fun _ tree =>
        tree.node = DirectoryTree.cut disk.tree.node names) := by
  induction fuel generalizing names dir disk with
  | zero =>
      have shallow := deep [] (by rw [List.append_nil, directory]; rfl)
      omega
  | succ fuel ih =>
      have place : locate (UnixPath.text names ++ slash) = names :=
        locate_of_pathTo areNames inside (.inr rfl)
      by_cases empty : dir = []
      · subst empty
        have removes := @rmdir_acts fs others cutOff context disk (UnixPath.text names ++ slash) sound
          (by rw [place]; exact inside) (by rw [place]; exact directory)
          (by rw [place]; exact entries.empty)
        rw [place] at removes
        exact removes
      · have nonempty : dir.isEmpty = false := by simpa using empty
        simp only [PgFs.recursivelyRmdir, nonempty, Bool.false_eq_true]
        refine Acts.bind (fun result disk' => result = .ok () ∧ Removing disk.tree names dir [] disk')
          ?_ ?_ ?_
        · refine Acts.forM (Removing disk.tree names dir) ⟨sound, entries.distinct,
            fun _ member => member, fun _ _ => rfl, fun _ _ was => absurd was.1 was.2⟩ ?_
            fun _ removing => ⟨rfl, removing⟩
          intro child rest disk₁ removing
          have exists_ := (entries.members child).mp (removing.within child List.mem_cons_self)
          have areChild : UnixPath.AreNames (names ++ [child]) := fs.named exists_
          have insideChild : names ++ [child] ≠ [] := by simp
          obtain ⟨node, found⟩ := Option.isSome_iff_exists.mp exists_
          have found₁ : disk₁.tree.node (names ++ [child]) = some node :=
            (removing.untouched []).trans found
          have shape := text_slash_concat names child
          refine (removeChild_acts removing.sound (shape ▸ text_startsWith_slash insideChild)
            (shape ▸ locate_of_pathTo areChild insideChild (.inl rfl)) insideChild found₁ ?_).mono ?_
          · rintro disk₂ childDir sound₂ tree rfl entriesChild
            rw [shape]
            refine ih sound₂ areChild insideChild (tree ▸ found₁) entriesChild fun below exists_ => ?_
            have whole : names ++ [child] ++ below = names ++ child :: below := by simp
            rw [tree, whole, removing.untouched] at exists_
            have short := deep (child :: below) exists_
            simpa using short
          · rintro (error | _) disk₂ outcome
            · exact (not_succeeds outcome).elim
            · exact removing.next outcome.1 outcome.2
        · rintro _ disk₁ ⟨-, removing⟩
          have cut : CutEntries disk.tree names (· ∈ dir) disk₁.tree :=
            removing.cut.mono fun name => by simp
          have directory₁ : disk₁.tree.node names = some .directory := by
            rw [cut.kept names fun name _ => not_concat_prefix names name]
            exact directory
          have removes := @removeEmptied_acts fs others cutOff context disk₁
            (UnixPath.text names ++ slash) removing.sound (PathTo.startsWith_slash (.inr rfl) inside)
            (by rw [place]; exact inside) (by rw [place]; exact directory₁)
            (by rw [place]; exact cut.emptied entries)
          rw [place, cut.cut_eq] at removes
          exact removes
        · rintro error disk' ⟨failed, -⟩
          cases failed

/-- The removal of a directory by its path. -/
theorem removeDir_acts {fuel : Nat} (sound : disk.Tolerable 0) (areNames : UnixPath.AreNames names)
    (inside : names ≠ []) (directory : disk.tree.node names = some .directory)
    (deep : ∀ rest, (disk.tree.node (names ++ rest)).isSome = true → rest.length < fuel)
    (pathTo : path = UnixPath.text names ++ slash ∨
      PathTo names path ∧ ∀ name, disk.tree.node (names ++ [name]) = none) :
    Acts others cutOff context (PgFs.removeDir fuel path) disk (Succeeds fun _ tree =>
      tree.node = DirectoryTree.cut disk.tree.node names) := by
  have leads : PathTo names path := pathTo.elim .inr And.left
  have full := leads.startsWith_slash inside
  have place := locate_of_pathTo areNames inside leads
  refine acts_sync_bind (leadsTo_full full) ?_
  refine Acts.bind _ (readDir_acts sound full (by rw [place]; exact directory)).succeeds
    ?_ fun _ _ failed => (not_succeeds failed).elim
  rintro dir disk₁ ⟨sound₁, tree, distinct, members⟩
  rw [place] at members
  rw [← tree] at directory deep members pathTo ⊢
  obtain rfl | ⟨-, empty⟩ := pathTo
  · exact recursivelyRmdir_acts sound₁ areNames inside directory ⟨distinct, members⟩ deep
  · have nothing : dir = [] := by
      rw [List.eq_nil_iff_forall_not_mem]
      intro name member
      have found := (members name).mp member
      rw [empty] at found
      cases found
    subst nothing
    cases fuel with
    | zero =>
        have shallow := deep [] (by rw [List.append_nil, directory]; rfl)
        omega
    | succ fuel =>
        have removes := @rmdir_acts fs others cutOff context disk₁ path sound₁
          (by rw [place]; exact inside) (by rw [place]; exact directory) (by rw [place]; exact empty)
        rw [place] at removes
        exact removes

/-! ## What is not removed -/

/-- What is the same outside a place is so outside what is above it. -/
theorem SameOutside.below {old new : Tree} {top : List Text} (same : SameOutside names old new)
    (within : top <+: names) : SameOutside top old new :=
  fun place outside => same place fun below => outside (within.trans below)

/-- A frame may be wider. -/
theorem Framed.below {tree : Tree} {top : List Text} (framed : Framed 0 names tree disk)
    (within : top <+: names) : Framed 0 top tree disk := ⟨framed.1, framed.2.below within⟩

/-- Two framed changes are framed. -/
theorem Framed.trans {tree : Tree} {disk' : Disk fs} (before : Framed 0 names tree disk)
    (after : Framed 0 names disk.tree disk') : Framed 0 names tree disk' :=
  ⟨after.1, before.2.trans after.2⟩

/-- Whatever there is at a path, `readDir` gives names. -/
theorem readDir_names (sound : disk.Tolerable 0) (full : path.startsWith slash = true) :
    Acts others cutOff context (PgFs.readDir path) disk fun result disk' =>
      disk'.Tolerable 0 ∧ disk'.tree = disk.tree ∧
        ∀ dir, result = .ok dir → ∀ name ∈ dir, UnixPath.IsName name := by
  refine acts_sync_bind (leadsTo_full full) (acts_request ?_)
  obtain ⟨answer, tree, left⟩ | ⟨-, -, fewer, less, -⟩ := sound.serve (.readdir path)
  · refine ⟨left, tree.trans (fs.readdir_same _ _), fun dir done name member => ?_⟩
    rw [answer] at done
    cases found : disk.tree.node (locate path) with
    | none =>
        obtain ⟨message, failed⟩ := fs.readdir_missing found
        rw [failed] at done
        cases done
    | some node =>
        cases node with
        | file content =>
            obtain ⟨message, failed⟩ := fs.readdir_file found
            rw [failed] at done
            cases done
        | directory =>
            obtain ⟨names, listed, -, members⟩ := fs.readdir_found found
            rw [listed] at done
            cases done
            exact fs.named ((members name).mp member) name (by simp)
  · omega

/-- A turn of the loop of `recursivelyRmdir`. -/
theorem removeChild_framed {fuel : Nat} (names : List Text) (sound : disk.Tolerable 0)
    (full : path.startsWith slash = true) (place : locate path = names)
    (removes : ∀ (disk : Disk fs) dir, disk.Tolerable 0 → (∀ name ∈ dir, UnixPath.IsName name) →
      Acts others True context (PgFs.recursivelyRmdir fuel dir (path ++ slash)) disk
        fun _ => Framed 0 names disk.tree) :
    Acts others True context (do
      let metadata ← PgFs.getMetadata path
      match metadata with
      | .directory => do
          let childDir ← PgFs.readDir path
          if !childDir.isEmpty then PgFs.recursivelyRmdir fuel childDir (path ++ slash)
          else PgFs.request (.rmdir path)
      | .file => PgFs.removeFile path) disk fun _ => Framed 0 names disk.tree := by
  have here : ∀ target ∈ [locate path], names <+: target := by
    intro target member
    rw [List.mem_singleton.mp member, place]
  refine Acts.bind (fun _ => Framed 0 names disk.tree) ?_ ?_ fun _ _ framed => framed
  · exact acts_sync_bind (leadsTo_full full) (acts_framed sound here)
  rintro metadata disk₁ framed₁
  cases metadata with
  | file =>
      have unlinks : Acts others True context (PgFs.request (.unlink path)) disk₁
          fun _ => Framed 0 names disk₁.tree := acts_framed framed₁.1 here
      exact acts_sync_bind (leadsTo_full full) (unlinks.mono fun _ _ => framed₁.trans)
  | directory =>
      refine Acts.bind _ (readDir_names framed₁.1 full) ?_ ?_
      · rintro childDir disk₂ ⟨sound₂, tree, areChildren⟩
        have framed₂ : Framed 0 names disk.tree disk₂ := ⟨sound₂, tree ▸ framed₁.2⟩
        by_cases empty : childDir = []
        · subst empty
          have removesHere : Acts others True context (PgFs.request (.rmdir path)) disk₂
              fun _ => Framed 0 names disk₂.tree := acts_framed sound₂ here
          exact removesHere.mono fun _ _ => framed₂.trans
        · have notEmpty : (!childDir.isEmpty) = true := by simpa using empty
          simp only [notEmpty]
          exact (removes disk₂ childDir sound₂ (areChildren childDir rfl)).mono
            fun _ _ => framed₂.trans
      · rintro error disk₂ ⟨sound₂, tree, -⟩
        exact ⟨sound₂, tree ▸ framed₁.2⟩

/-- With a slash at the end nothing outside the directory is touched. -/
theorem recursivelyRmdir_framed {fuel : Nat} {dir : List Text} (sound : disk.Tolerable 0)
    (areNames : UnixPath.AreNames names) (inside : names ≠ [])
    (areEntries : ∀ name ∈ dir, UnixPath.IsName name) :
    Acts others True context (PgFs.recursivelyRmdir fuel dir (UnixPath.text names ++ slash)) disk
      fun _ => Framed 0 names disk.tree := by
  induction fuel generalizing names dir disk with
  | zero => exact fun _ _ => trivial
  | succ fuel ih =>
      have place : locate (UnixPath.text names ++ slash) = names :=
        locate_of_pathTo areNames inside (.inr rfl)
      have full : (UnixPath.text names ++ slash).startsWith slash = true :=
        PathTo.startsWith_slash (.inr rfl) inside
      have here : ∀ target ∈ [locate (UnixPath.text names ++ slash)], names <+: target := by
        intro target member
        rw [List.mem_singleton.mp member, place]
      by_cases empty : dir = []
      · subst empty
        exact acts_framed sound here
      · have nonempty : dir.isEmpty = false := by simpa using empty
        simp only [PgFs.recursivelyRmdir, nonempty, Bool.false_eq_true]
        refine Acts.bind (fun _ => Framed 0 names disk.tree) ?_ ?_ fun _ _ framed => framed
        · refine Acts.forM (fun rest disk' => Framed 0 names disk.tree disk' ∧
            ∀ name ∈ rest, UnixPath.IsName name) ⟨⟨sound, fun _ _ => rfl⟩, areEntries⟩ ?_ ?_
          · rintro child rest disk₁ ⟨framed₁, areRest⟩
            have areChild : UnixPath.AreNames (names ++ [child]) := by
              refine UnixPath.areNames_append.mpr ⟨areNames, fun name member => ?_⟩
              rw [List.mem_singleton.mp member]
              exact areRest child List.mem_cons_self
            have inChild : names ++ [child] ≠ [] := by simp
            have shape := text_slash_concat names child
            refine (removeChild_framed (names ++ [child]) framed₁.1
              (shape ▸ text_startsWith_slash inChild)
              (shape ▸ locate_of_pathTo areChild inChild (.inl rfl)) ?_).mono ?_
            · intro disk' dir sound' areDir
              rw [shape]
              exact ih sound' areChild inChild areDir
            rintro (error | _) disk₂ framed₂
            · exact framed₁.trans (framed₂.below (List.prefix_append _ _))
            · exact ⟨framed₁.trans (framed₂.below (List.prefix_append _ _)),
                fun name later => areRest name (List.mem_cons_of_mem _ later)⟩
          · exact fun _ holds => holds.1
        · rintro _ disk₁ framed₁
          refine Acts.bind _ (readDir_names framed₁.1 full) ?_ ?_
          · rintro dir' disk₂ ⟨sound₂, tree, -⟩
            have framed₂ : Framed 0 names disk.tree disk₂ := ⟨sound₂, tree ▸ framed₁.2⟩
            by_cases empty' : dir' = []
            · subst empty'
              have removes : Acts others True context
                  (PgFs.request (.rmdir (UnixPath.text names ++ slash))) disk₂
                  fun _ => Framed 0 names disk₂.tree := acts_framed sound₂ here
              exact removes.mono fun _ _ => framed₂.trans
            · have notEmpty : dir'.isEmpty = false := by simpa using empty'
              simp only [notEmpty]
              exact acts_pure framed₂
          · rintro error disk₂ ⟨sound₂, tree, -⟩
            exact ⟨sound₂, tree ▸ framed₁.2⟩

/-- Without a slash at the end, `removeDir` of a directory with entries keeps
all of it: each entry is looked for next to the directory. -/
theorem removeDir_misses {fuel : Nat} {parent : List Text} {last entry : Text}
    (sound : disk.Tolerable 0) (areNames : UnixPath.AreNames (parent ++ [last]))
    (directory : disk.tree.node (parent ++ [last]) = some .directory)
    (exists_ : (disk.tree.node (parent ++ [last] ++ [entry])).isSome = true) :
    Acts others True context (PgFs.removeDir fuel (UnixPath.text (parent ++ [last]))) disk
      fun _ disk' => disk'.Tolerable 0 ∧ ∀ below, disk'.tree.node (parent ++ [last] ++ below) =
        disk.tree.node (parent ++ [last] ++ below) := by
  have inside : parent ++ [last] ≠ [] := by simp
  have full := text_startsWith_slash inside
  have place : locate (UnixPath.text (parent ++ [last])) = parent ++ [last] :=
    locate_of_pathTo areNames inside (.inl rfl)
  refine acts_sync_bind (leadsTo_full full) ?_
  refine Acts.bind _ (readDir_acts sound full (by rw [place]; exact directory)).succeeds
    ?_ fun _ _ failed => (not_succeeds failed).elim
  rintro dir disk₁ ⟨sound₁, tree, -, members⟩
  rw [place] at members
  have member := (members entry).mpr exists_
  cases fuel with
  | zero => exact fun _ _ => trivial
  | succ fuel =>
      have nonempty : dir.isEmpty = false := by
        rw [List.isEmpty_eq_false_iff]
        exact List.ne_nil_of_mem member
      simp only [PgFs.recursivelyRmdir, nonempty, Bool.false_eq_true]
      let Kept (disk' : Disk fs) : Prop := ∀ below, disk'.tree.node (parent ++ [last] ++ below) =
        disk.tree.node (parent ++ [last] ++ below)
      refine Acts.bind (fun _ disk' => disk'.Tolerable 0 ∧ Kept disk') ?_ ?_ fun _ _ kept => kept
      · refine Acts.forM (fun rest disk' => (disk'.Tolerable 0 ∧ Kept disk') ∧ ∀ name ∈ rest, name ∈ dir)
          ⟨⟨sound₁, fun _ => by rw [tree]⟩, fun _ member => member⟩ ?_ fun _ holds => holds.1
        rintro child rest disk₂ ⟨⟨sound₂, kept⟩, within⟩
        have isChild : UnixPath.IsName child :=
          fs.named ((members child).mp (within child List.mem_cons_self)) child (by simp)
        obtain ⟨first, others', childShape⟩ := List.exists_cons_of_ne_nil isChild.1
        have lastName := areNames.last
        -- The path that is looked for is that of another entry of the parent.
        have shape : UnixPath.text (parent ++ [last]) ++ child =
            UnixPath.text (parent ++ [last ++ child]) := by simp
        have areOther : UnixPath.AreNames (parent ++ [last ++ child]) := by
          refine UnixPath.areNames_append.mpr ⟨areNames.parent, fun name single => ?_⟩
          obtain ⟨firstLast, restLast, lastShape⟩ := List.exists_cons_of_ne_nil lastName.1
          rw [List.mem_singleton.mp single]
          refine ⟨by simp [childShape], ?_, ?_, ?_⟩
          · rw [List.mem_append, not_or]
            exact ⟨lastName.2.1, isChild.2.1⟩
          · intro dot
            have short := congrArg List.length dot
            simp [lastShape, childShape] at short
          · intro dots
            rw [lastShape, childShape, UnixPath.dotDot, List.cons_append, List.cons.injEq] at dots
            cases restLast with
            | nil =>
                refine lastName.2.2.1 ?_
                rw [lastShape, dots.1]
            | cons second restLast =>
                have short := congrArg List.length dots.2
                simp at short
        have apart : ∀ below, ¬ parent ++ [last ++ child] <+: parent ++ [last] ++ below := by
          intro below within
          rw [List.append_assoc, List.prefix_append_right_inj, List.singleton_append,
            List.cons_prefix_cons] at within
          exact isChild.1 (List.append_right_eq_self.mp within.1)
        have inOther : parent ++ [last ++ child] ≠ [] := by simp
        refine (removeChild_framed (parent ++ [last ++ child]) sound₂
          (shape ▸ text_startsWith_slash inOther)
          (shape ▸ locate_of_pathTo areOther inOther (.inl rfl)) ?_).mono ?_
        · intro disk' dir sound' areDir
          rw [shape]
          exact recursivelyRmdir_framed sound' areOther inOther areDir
        have still : ∀ {disk₃ : Disk fs}, Framed 0 (parent ++ [last ++ child]) disk₂.tree disk₃ →
            disk₃.Tolerable 0 ∧ Kept disk₃ := by
          rintro disk₃ ⟨sound₃, same⟩
          exact ⟨sound₃, fun below => (same _ (apart below)).trans (kept below)⟩
        rintro (error | _) disk₃ framed
        · exact still framed
        · exact ⟨still framed, fun name later => within name (List.mem_cons_of_mem _ later)⟩
      · rintro _ disk₂ ⟨sound₂, kept⟩
        have directory₂ : disk₂.tree.node (parent ++ [last]) = some .directory := by
          have same := kept []
          rw [List.append_nil] at same
          exact same.trans directory
        refine Acts.bind _ (readDir_acts sound₂ full (by rw [place]; exact directory₂)).succeeds
          ?_ fun _ _ failed => (not_succeeds failed).elim
        rintro dir' disk₃ ⟨sound₃, tree₃, -, members'⟩
        rw [place] at members'
        have there : entry ∈ dir' := (members' entry).mpr ((kept [entry]).symm ▸ exists_)
        have notEmpty : dir'.isEmpty = false := by
          rw [List.isEmpty_eq_false_iff]
          exact List.ne_nil_of_mem there
        simp only [notEmpty]
        exact acts_pure ⟨sound₃, fun below => by rw [tree₃]; exact kept below⟩

end Solpg.Client.Utils
