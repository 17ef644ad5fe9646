import Solpg.Client.Utils.Explorer.TabRuns
import Solpg.Client.Utils.Explorer.Writing

/-!
# The explorer as a map of files

What a user does to the files of a workspace, seen as updates of a map from
paths to contents. `FileRun` runs calls on such a map when some of them may
fail from outside; the state and the store of the explorer both follow it.
-/

namespace Solpg.Client.Utils

open Solpg.Std PgExplorer

/-- How a call ends that is to turn `before` into `after`, by the faults that may
still come. -/
inductive CallEnds {α : Type} (possible : Prop) (before after : α) :
    Nat → Except JsError Unit → Nat → α → Prop
  | returned (count : Nat) : possible → CallEnds possible before after count (.ok ()) count after
  | refused (count : Nat) (error : JsError) : ¬ possible →
      CallEnds possible before after count (.error error) count before
  | failed {count fewer : Nat} (error : JsError) : fewer < count →
      CallEnds possible before after count (.error error) fewer before
  | failedLate {count fewer : Nat} (error : JsError) : possible → fewer < count →
      CallEnds possible before after count (.error error) fewer after

/-- The contents of the files, by their paths. -/
abbrev FileMap := Text → Option Text

namespace ExplorerCall

/-- The call saves or deletes one of the files. -/
def Concerns (paths : List Text) : ExplorerCall → Prop
  | .createItem path _ opts => path ∈ paths ∧ opts.override = true
  | .deleteItem _ path => path ∈ paths
  | _ => False

/-- What a call is to do to the files. -/
def effect : ExplorerCall → FileMap → FileMap
  | .createItem path content _, files => Function.update files path (some content)
  | .deleteItem _ path, files => Function.update files path none
  | _, files => files

/-- Only what is there can be deleted. -/
def Possible : ExplorerCall → FileMap → Prop
  | .deleteItem _ path, files => (files path).isSome = true
  | _, _ => True

end ExplorerCall

/-- Calls one after another on a map, with their results. -/
inductive FileRun : Nat → List ExplorerCall → List (Except JsError Unit) → FileMap → FileMap → Prop
  | nil (count : Nat) (files : FileMap) : FileRun count [] [] files files
  | cons {count left : Nat} {call : ExplorerCall} {rest : List ExplorerCall}
      {result : Except JsError Unit} {results : List (Except JsError Unit)}
      {files next final : FileMap} :
      CallEnds (call.Possible files) files (call.effect files) count result left next →
      FileRun left rest results next final →
      FileRun count (call :: rest) (result :: results) files final

/-! ## Runs without faults -/

section Sound

variable {calls : List ExplorerCall} {results : List (Except JsError Unit)} {files final : FileMap}

/-- A call that is not possible has no effect. -/
theorem ExplorerCall.effect_of_not_possible {call : ExplorerCall} (impossible : ¬ call.Possible files) :
    call.effect files = files := by
  cases call with
  | deleteItem fuel path =>
      have missing : files path = none := by simpa [Possible] using impossible
      rw [effect, ← missing, Function.update_eq_self]
  | _ => exact absurd trivial impossible

/-- Without faults the last map is that of the calls, and those fail that are not
possible. -/
theorem FileRun.sound (run : FileRun 0 calls results files final) :
    final = calls.foldl (fun files call => call.effect files) files := by
  generalize none_ : (0 : Nat) = count at run
  induction run with
  | nil => rfl
  | cons ends run ih =>
      subst none_
      cases ends with
      | returned => exact ih rfl
      | refused _ impossible =>
          rw [List.foldl_cons, ExplorerCall.effect_of_not_possible impossible]
          exact ih rfl
      | failed _ less => omega
      | failedLate _ _ less => omega

end Sound

variable {fs : LightningFs} {others : Interference} {disk : Disk fs} {count : Nat}
  {self : PgExplorer} {name path : Text} {paths : List Text} {browser : Browser}

/-! ## The two views of the map -/

/-- Each path has a file of its own, and no path continues another one. -/
structure Separate (name : Text) (paths : List Text) : Prop extends FilePaths name paths where
  place : ∀ path ∈ paths, ∀ other ∈ paths, placeIn name path = placeIn name other → path = other
  key : ∀ path ∈ paths, ∀ other ∈ paths,
    (pathIn name other).startsWith (pathIn name path) = true → path = other

/-- The state shows the files of the map and the store has them. -/
structure Holds (name : Text) (paths : List Text) (files : FileMap)
    (views : Views Text (List Text) Text) : Prop where
  shown : ∀ path ∈ paths, views.shown (pathIn name path) = files path
  stored : ∀ path ∈ paths, views.stored (placeIn name path) = files path

/-- What belongs to none of the paths is as before. -/
structure Elsewhere (name : Text) (paths : List Text) (before after : Views Text (List Text) Text) :
    Prop where
  shown : ∀ key, (∀ path ∈ paths, key.startsWith (pathIn name path) = false) →
    after.shown key = before.shown key
  stored : ∀ place, (∀ path ∈ paths, placeIn name path ≠ place) →
    after.stored place = before.stored place

namespace Elsewhere

variable {first second third : Views Text (List Text) Text}

/-- Nothing changes elsewhere. -/
theorem refl (views : Views Text (List Text) Text) : Elsewhere name paths views views :=
  ⟨fun _ _ => rfl, fun _ _ => rfl⟩

/-- Two changes that leave the rest alone. -/
theorem trans (before : Elsewhere name paths first second)
    (after : Elsewhere name paths second third) : Elsewhere name paths first third where
  shown key apart := (after.shown key apart).trans (before.shown key apart)
  stored place apart := (after.stored place apart).trans (before.stored place apart)

/-- A write leaves the rest alone. -/
theorem write (member : path ∈ paths) (content : Text) :
    Elsewhere name paths first (first.write (pathIn name path) (placeIn name path) content) where
  shown key apart := by
    rw [Views.shown_write, if_neg]
    rintro rfl
    have apart := apart path member
    rw [startsWith_refl] at apart
    cases apart
  stored place apart := by rw [Views.stored_write, if_neg (Ne.symm (apart path member))]

/-- A removal leaves the rest alone. -/
theorem remove (member : path ∈ paths) : Elsewhere name paths first
    (first.remove (fun path key => key.startsWith path) (pathIn name path) (placeIn name path)) where
  shown key apart := by
    rw [Views.shown_remove, if_neg]
    simp [apart path member]
  stored place apart := by rw [Views.stored_remove, if_neg (Ne.symm (apart path member))]

end Elsewhere

namespace Holds

variable {files : FileMap} {views : Views Text (List Text) Text}

/-- A write is followed by the files. -/
theorem write (holds : Holds name paths files views) (separate : Separate name paths)
    (member : path ∈ paths) (content : Text) :
    Holds name paths (Function.update files path (some content))
      (views.write (pathIn name path) (placeIn name path) content) where
  shown other among := by
    by_cases same : other = path
    · rw [same, Views.shown_write, if_pos rfl, Function.update_self]
    · rw [Views.shown_write, if_neg, Function.update_of_ne same, holds.shown other among]
      intro keys
      exact same (separate.key other among path member (keys ▸ startsWith_refl _))
  stored other among := by
    by_cases same : other = path
    · rw [same, Views.stored_write, if_pos rfl, Function.update_self]
    · rw [Views.stored_write, if_neg, Function.update_of_ne same, holds.stored other among]
      exact fun places => same (separate.place other among path member places)

/-- A removal is followed by the files. -/
theorem remove (holds : Holds name paths files views) (separate : Separate name paths)
    (member : path ∈ paths) : Holds name paths (Function.update files path none)
      (views.remove (fun path key => key.startsWith path) (pathIn name path)
        (placeIn name path)) where
  shown other among := by
    by_cases same : other = path
    · rw [same, Views.shown_remove, if_pos (startsWith_refl _), Function.update_self]
    · rw [Views.shown_remove, if_neg, Function.update_of_ne same, holds.shown other among]
      exact fun continues => same (separate.key path member other among continues).symm
  stored other among := by
    by_cases same : other = path
    · rw [same, Views.stored_remove, if_pos rfl, Function.update_self]
    · rw [Views.stored_remove, if_neg, Function.update_of_ne same, holds.stored other among]
      exact fun places => same (separate.place other among path member places)

end Holds

/-! ## Calls -/

/-- What is known between the calls. -/
structure Tracks (name : Text) (paths : List Text) (count : Nat) (files : FileMap)
    (state : PgExplorer) (disk : Disk fs) : Prop where
  ready : Ready name paths state disk.tree
  saves : SavesMeta state
  tolerable : disk.Tolerable count
  holds : Holds name paths files (viewsOf name state disk.tree)

/-- How a call ends, on the map and in what it leaves behind. -/
def EndsOnMap (name : Text) (paths : List Text) (count : Nat) (call : ExplorerCall)
    (files : FileMap) (self : PgExplorer) (disk : Disk fs) (result : Except JsError Unit)
    (self' : PgExplorer) (disk' : Disk fs) : Prop :=
  ∃ left next, CallEnds (call.Possible files) files (call.effect files) count result left next ∧
    Tracks name paths left next self' disk' ∧
    Elsewhere name paths (viewsOf name self disk.tree) (viewsOf name self' disk'.tree)

section Calls

variable {files : FileMap} {cutOff : Prop}

/-- `createItem` is followed by the files. -/
theorem createItem_follows {content : Text} {opts : CreateItemOptions} (tabsOnly : TabsOnly others)
    (separate : Separate name paths) (follows : Tracks name paths count files self disk)
    (member : path ∈ paths) (override : opts.override = true) :
    (createItem browser path content opts).Ensures (others.setting fs cutOff) self disk
      (EndsOnMap name paths count (.createItem path content opts) files self disk) := by
  have written := follows.holds.write separate member content
  have elsewhere : Elsewhere name paths (viewsOf name self disk.tree)
      ((viewsOf name self disk.tree).write (pathIn name path) (placeIn name path) content) :=
    .write member content
  refine (createItem_writes tabsOnly separate.toFilePaths follows.ready member override
    follows.tolerable).mono ?_
  intro result self' disk' ended
  cases result with
  | ok _ =>
      obtain ⟨left, saves, ready, views⟩ := ended
      rw [← views] at written elsewhere
      exact ⟨count, _, .returned _ trivial, ⟨ready, saves, left, written⟩, elsewhere⟩
  | error error =>
      obtain ⟨⟨fewer, less, left⟩, saves, ready, views | views⟩ := ended follows.saves
      · refine ⟨fewer, _, .failed _ less, ⟨ready, saves, left, ?_⟩, ?_⟩
        · rw [views]
          exact follows.holds
        · rw [views]
          exact .refl _
      · rw [← views] at written elsewhere
        exact ⟨fewer, _, .failedLate _ trivial less, ⟨ready, saves, left, written⟩, elsewhere⟩

/-- `deleteItem` is followed by the files. -/
theorem deleteItem_follows {fuel : Nat} (tabsOnly : TabsOnly others)
    (separate : Separate name paths) (follows : Tracks name paths count files self disk)
    (member : path ∈ paths) :
    (deleteItem browser fuel path).Ensures (others.setting fs cutOff) self disk
      (EndsOnMap name paths count (.deleteItem fuel path) files self disk) := by
  have removed := follows.holds.remove separate member
  have elsewhere : Elsewhere name paths (viewsOf name self disk.tree)
      ((viewsOf name self disk.tree).remove (fun path key => key.startsWith path) (pathIn name path)
        (placeIn name path)) :=
    .remove member
  have stored := follows.holds.stored path member
  refine (deleteItem_ends tabsOnly separate.toFilePaths follows.ready member
    follows.tolerable).mono ?_
  intro result self' disk' ended
  rw [stored] at ended
  cases result with
  | ok _ =>
      obtain ⟨there, left, saves, ready, views⟩ := ended
      rw [← views] at removed elsewhere
      exact ⟨count, _, .returned _ there, ⟨ready, saves, left, removed⟩, elsewhere⟩
  | error error =>
      obtain ⟨saves, ready, ⟨views, ends⟩ | ⟨there, ⟨fewer, less, left⟩, views⟩⟩ :=
        ended follows.saves
      · have holds : Holds name paths files (viewsOf name self' disk'.tree) := views ▸ follows.holds
        have same : Elsewhere name paths (viewsOf name self disk.tree)
            (viewsOf name self' disk'.tree) := views ▸ .refl _
        obtain ⟨missing, left⟩ | ⟨fewer, less, left⟩ := ends
        · refine ⟨count, files, .refused _ _ ?_, ⟨ready, saves, left, holds⟩, same⟩
          simp [ExplorerCall.Possible, missing]
        · exact ⟨fewer, files, .failed _ less, ⟨ready, saves, left, holds⟩, same⟩
      · rw [← views] at removed elsewhere
        exact ⟨fewer, _, .failedLate _ there less, ⟨ready, saves, left, removed⟩, elsewhere⟩

/-- Every call is followed by the files. -/
theorem program_follows {call : ExplorerCall} (tabsOnly : TabsOnly others)
    (separate : Separate name paths) (follows : Tracks name paths count files self disk)
    (concerns : call.Concerns paths) :
    (program browser call).Ensures (others.setting fs cutOff) self disk
      (EndsOnMap name paths count call files self disk) := by
  cases call with
  | createItem path content opts =>
      exact createItem_follows tabsOnly separate follows concerns.1 concerns.2
  | deleteItem fuel path => exact deleteItem_follows tabsOnly separate follows concerns
  | _ => exact concerns.elim

end Calls

/-! ## Runs -/

/-- The calls one after another, each to its end, with their results. -/
def performAll (browser : Browser) : List ExplorerCall → PgM (List (Except JsError Unit))
  | [] => pure []
  | call :: rest => do
      let result ← (program browser call).attempt
      let results ← performAll browser rest
      pure (result :: results)

/-- All calls are followed by the files. -/
theorem performAll_run {calls : List ExplorerCall} {files : FileMap} {cutOff : Prop}
    (tabsOnly : TabsOnly others) (separate : Separate name paths)
    (follows : Tracks name paths count files self disk)
    (concern : ∀ call ∈ calls, call.Concerns paths) :
    (performAll browser calls).Ensures (others.setting fs cutOff) self disk
      fun result self' disk' => ∃ results left final, result = .ok results ∧
        FileRun count calls results files final ∧
        Tracks name paths left final self' disk' ∧
        Elsewhere name paths (viewsOf name self disk.tree) (viewsOf name self' disk'.tree) := by
  induction calls generalizing count files self disk with
  | nil => exact ⟨[], count, files, rfl, .nil count files, follows, .refl _⟩
  | cons call rest ih =>
      obtain ⟨concerns, later⟩ := List.forall_mem_cons.mp concern
      rw [performAll, Async.ensures_bind, Async.ensures_attempt]
      refine (program_follows tabsOnly separate follows concerns).mono ?_
      rintro result state disk₁ ⟨left, next, ends, follows₁, elsewhere₁⟩
      rw [either_ok]
      refine Async.Ensures.bind (ih follows₁ later) ?_ ?_
      · rintro results final disk₂ ⟨_, fewer, last, done, run, follows₂, elsewhere⟩
        cases done
        exact ⟨result :: results, fewer, last, rfl, .cons ends run, follows₂,
          elsewhere₁.trans elsewhere⟩
      · rintro error final disk₂ ⟨results, fewer, last, failed, -⟩
        cases failed

/-- Whatever files are saved and deleted, while tabs are opened and closed and the
store fails now and then: afterwards state and store hold the same files, those of
a map on which every call that returned was made and every call that failed was
made or not. Without faults this is the map that the calls say. -/
theorem performAll_follows {calls : List ExplorerCall} {files : FileMap} (tabsOnly : TabsOnly others)
    (separate : Separate name paths) (follows : Tracks name paths count files self disk)
    (concern : ∀ call ∈ calls, call.Concerns paths) :
    (performAll browser calls).Ensures (others.setting fs False) self disk
      fun result self' disk' => ∃ results final, result = .ok results ∧
        FileRun count calls results files final ∧
        (count = 0 → final = calls.foldl (fun files call => call.effect files) files) ∧
        Holds name paths final (viewsOf name self' disk'.tree) ∧
        Elsewhere name paths (viewsOf name self disk.tree) (viewsOf name self' disk'.tree) := by
  refine (performAll_run tabsOnly separate follows concern).mono ?_
  rintro result self' disk' ⟨results, left, final, returned, run, follows', elsewhere⟩
  refine ⟨results, final, returned, run, ?_, follows'.holds, elsewhere⟩
  rintro rfl
  exact run.sound

/-- A file of the folder `src` of the workspace `w`. -/
def sourcePath (last : String) : Text := "src/".toList ++ last.toList

/-- A source file is a file of the workspace. -/
theorem filePath_sourcePath (last : String)
    (full : pathIn "w".toList (sourcePath last) =
      UnixPath.text (["w".toList, "src".toList] ++ [last.toList]))
    (rough : UnixPath.Rough (["w".toList, "src".toList] ++ [last.toList]))
    (isFile : getItemTypeFromName last.toList = .file)
    (valid : isItemNameValid last.toList = true) :
    FilePath "w".toList (sourcePath last) ["w".toList, "src".toList] last.toList where
  relative := rfl
  full := full
  rough := rough
  isFile := isFile
  valid := valid
  apart := by
    rintro ⟨rest, whole⟩
    exact absurd (List.cons.inj (List.cons.inj whole).2).1 (by decide)
  inside := by decide

/-- A store that fails once. -/
def failingDisk : Disk memoryFs where
  db := emptyWorkspace.2.db
  faults := [none, none, some id]

/-- Two files are saved and the first is deleted. -/
def saveTwice : List ExplorerCall :=
  [.createItem (sourcePath "a.rs") ['1'] ⟨false, true, none⟩,
    .createItem (sourcePath "b.rs") ['2'] ⟨false, true, none⟩,
    .deleteItem 0 (sourcePath "a.rs")]

/-- Two saves on a store that fails once, run. -/
theorem saveTwice_follows :
    (performAll plainBrowser saveTwice).Ensures (Interference.nobody.setting memoryFs False)
      emptyWorkspace.1 failingDisk
      fun result self' disk' => ∃ results final, result = .ok results ∧
        FileRun 1 saveTwice results (fun _ => none) final ∧
        (1 = 0 → final = saveTwice.foldl (fun files call => call.effect files) fun _ => none) ∧
        Holds "w".toList [sourcePath "a.rs", sourcePath "b.rs"] final
          (viewsOf "w".toList self' disk'.tree) ∧
        Elsewhere "w".toList [sourcePath "a.rs", sourcePath "b.rs"]
          (viewsOf "w".toList emptyWorkspace.1 failingDisk.tree)
          (viewsOf "w".toList self' disk'.tree) := by
  have isFile : ∀ path ∈ [sourcePath "a.rs", sourcePath "b.rs"], ∃ parent last,
      FilePath "w".toList path parent last := by
    rw [List.forall_mem_cons, List.forall_mem_singleton]
    exact ⟨⟨_, _, filePath_sourcePath "a.rs" (by decide) (by decide) (by decide) (by decide)⟩,
      ⟨_, _, filePath_sourcePath "b.rs" (by decide) (by decide) (by decide) (by decide)⟩⟩
  have separate : Separate "w".toList [sourcePath "a.rs", sourcePath "b.rs"] :=
    ⟨⟨isFile, by decide⟩, by decide, by decide⟩
  have ready : Ready "w".toList [sourcePath "a.rs", sourcePath "b.rs"] emptyWorkspace.1
      failingDisk.tree :=
    ⟨⟨rfl, rfl, rfl, by decide⟩, ⟨by decide +kernel, by decide +kernel, by decide +kernel⟩,
      by decide +kernel, by decide +kernel, by decide +kernel⟩
  have tolerable : failingDisk.Tolerable 1 := by
    refine ⟨by decide, fun interrupted member db => ?_⟩
    have same : interrupted = id := by simpa [failingDisk] using member
    rw [same, id]
  refine performAll_follows tabsOnly_nobody separate
    ⟨ready, ⟨none, rfl⟩, tolerable, by decide +kernel, by decide +kernel⟩ ?_
  intro call member
  simp only [saveTwice, List.mem_cons, List.not_mem_nil, or_false] at member
  rcases member with rfl | rfl | rfl
  · exact ⟨by decide, rfl⟩
  · exact ⟨by decide, rfl⟩
  · exact (by decide : sourcePath "a.rs" ∈ [sourcePath "a.rs", sourcePath "b.rs"])

end Solpg.Client.Utils
