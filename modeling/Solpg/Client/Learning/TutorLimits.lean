import Solpg.Client.Learning.UndoPatch
import Solpg.Server.Routes.Learning.Request
import Mathlib.Data.Finset.Card

/-!
# The limits of the client and of the server

The request that `streamTutor` builds from the files of the explorer, and when
the server still accepts it after a patch. The client checks each patch alone and
counts the code units of its files. The server checks the whole workspace and
counts bytes, also those of the paths.
-/

namespace Solpg.Client.Learning

open Solpg.Std Solpg.Client.Utils PgCommon PgExplorer PgM
open Solpg.Server.Routes.Learning

/-! ## The request -/

/-- The property `content` of a file. A key can hold `undefined`. -/
def contentAt (self : PgExplorer) (path : Text) : Except JsError (Option (Text × Text)) :=
  match self.files.item path with
  | none => .error (.ofMessage "Cannot read properties of undefined (reading 'content')")
  | some item => .ok (item.content.map fun content => (path, content))

/-- `PgExplorer.getAllFiles`. -/
def getAllFiles (self : PgExplorer) : Except JsError (List (Text × Text)) :=
  (self.files.keys.mapM (contentAt self)).map List.reduceOption

/-- The body of `flatMap` in `streamTutor`. -/
def learnerFile (self : PgExplorer) (file : Text × Text) : Except JsError (Option WorkspaceFile) :=
  (self.getRelativePath file.1).map fun relativePath =>
    if validRoot relativePath then some ⟨relativePath, file.2⟩ else none

/-- The files of the workspace that the tutor is sent. -/
def learnerFiles (self : PgExplorer) : Except JsError (List WorkspaceFile) := do
  let files ← getAllFiles self
  let learner ← files.mapM (learnerFile self)
  return learner.reduceOption

/-- The parameters of `streamTutor` that are sent, and the `runtime` that it gathers. -/
structure StreamTutorParams where
  message : Text
  previousResponseId : Option Text
  lessonId : Text
  toolOutputs : Option (List ToolOutput)
  runtime : Json

/-- The current file, if there is one. An empty path counts as none. -/
def currentFileOf (self : PgExplorer) : Except JsError (Option Text) :=
  match self.currentFilePath with
  | none | some [] => .ok none
  | some path => (self.getRelativePath path).map some

/-- The body of the request of `streamTutor`. -/
def tutorRequest (params : StreamTutorParams) (self : PgExplorer) : Except JsError AiRequest := do
  let workspace ← learnerFiles self
  let currentFile ← currentFileOf self
  return {
    message := params.message
    previousResponseId := params.previousResponseId
    workspace := workspace
    currentFile := currentFile
    selection := none
    lessonId := some params.lessonId
    runtime := some params.runtime
    toolOutputs := params.toolOutputs }

/-! ## What the server checks of the workspace -/

/-- The number of files and each file. -/
def AcceptedWorkspace (workspace : List WorkspaceFile) : Prop :=
  workspace.length ≤ maxWorkspaceFiles ∧ ∀ file ∈ workspace, invalidWorkspaceFile file = false

/-- The files of a patch that no later file of it overwrites. -/
def finalFiles : List PatchFile → List PatchFile
  | [] => []
  | file :: rest =>
      if file.path ∈ rest.map (·.path) then finalFiles rest else file :: finalFiles rest

/-- There is no file at the path yet. -/
def isNew (self : PgExplorer) (file : PatchFile) : Bool :=
  match self.getFileContent file.path with
  | .ok none => true
  | _ => false

/-- The number of files is checked with those that the patch adds, and its paths
and contents are counted in bytes. -/
structure WithinLimits (explorer : PgExplorer) (workspace : List WorkspaceFile)
    (patch : WorkspacePatch) : Prop where
  files : workspace.length + ((finalFiles patch.files).filter (isNew explorer)).length ≤
    maxWorkspaceFiles
  paths : ∀ file ∈ finalFiles patch.files, Text.utf8Length file.path ≤ 256
  contents : ∀ file ∈ finalFiles patch.files, Text.utf8Length file.content ≤ maxFileContentBytes

section Requests

variable {render : Json → Text} {params : StreamTutorParams} {request other : AiRequest}
  {self : PgExplorer}

/-- Requests that differ in the workspace only differ in what is checked of it. -/
theorem validateAiRequest_iff (accepted : validateAiRequest render request = .ok ())
    (same : other = { request with workspace := other.workspace, currentFile := other.currentFile }) :
    validateAiRequest render other = .ok () ↔ AcceptedWorkspace other.workspace := by
  rw [same, validateAiRequest_eq_ok]
  have before := validateAiRequest_eq_ok.mp accepted
  constructor
  · exact fun after => ⟨after.files, after.workspace⟩
  · rintro ⟨files, workspace⟩
    exact ⟨before.asks, before.message, before.selection, before.previous, before.lesson,
      before.outputs, files, workspace⟩

/-- The server's checks of a file, apart from its path's shape, are its limits. -/
theorem invalidWorkspaceFile_iff {file : WorkspaceFile} : invalidWorkspaceFile file = false ↔
    SafePath file.path ∧ Text.utf8Length file.path ≤ 256 ∧
      Text.utf8Length file.content ≤ maxFileContentBytes := by
  simp only [invalidWorkspaceFile, Bool.or_eq_false_iff, Bool.not_eq_false', decide_eq_false_iff_not,
    not_lt]
  constructor
  · rintro ⟨⟨⟨⟨root, noDotDot⟩, noDoubleSlash⟩, path⟩, content⟩
    exact ⟨⟨root, noDotDot, noDoubleSlash⟩, path, content⟩
  · rintro ⟨⟨root, noDotDot, noDoubleSlash⟩, path, content⟩
    exact ⟨⟨⟨⟨root, noDotDot⟩, noDoubleSlash⟩, path⟩, content⟩

/-- An accepted request has an accepted workspace. -/
theorem acceptedWorkspace_of_ok (accepted : validateAiRequest render request = .ok ()) :
    AcceptedWorkspace request.workspace :=
  (validateAiRequest_iff accepted rfl).mp accepted

end Requests

/-! ## The files of a patch -/

/-- The last versions have the paths of all versions. -/
theorem mem_paths_finalFiles {files : List PatchFile} {path : Text} :
    path ∈ (finalFiles files).map (·.path) ↔ path ∈ files.map (·.path) := by
  induction files with
  | nil => rfl
  | cons file rest ih =>
      rw [finalFiles]
      split
      next again =>
        rw [ih, List.map_cons, List.mem_cons]
        exact ⟨.inr, fun either => either.elim (fun same => same ▸ again) id⟩
      next => rw [List.map_cons, List.mem_cons, ih, List.map_cons, List.mem_cons]

/-- Every path has one last version. -/
theorem finalFiles_nodup (files : List PatchFile) : ((finalFiles files).map (·.path)).Nodup := by
  induction files with
  | nil => exact List.nodup_nil
  | cons file rest ih =>
      rw [finalFiles]
      split
      next => exact ih
      next last =>
        rw [List.map_cons, List.nodup_cons, mem_paths_finalFiles]
        exact ⟨last, ih⟩

/-- The contents after the files of a patch are written below a root. -/
def writtenBelow (root : Text) (files : List PatchFile) (contents : Text → Option Text) :
    Text → Option Text :=
  files.foldl (fun contents file =>
    Function.update contents (root ++ file.path) (some file.content)) contents

section Written

variable {root key : Text} {files : List PatchFile} {contents : Text → Option Text}

/-- Other paths keep their content. -/
theorem writtenBelow_other (elsewhere : ∀ file ∈ files, root ++ file.path ≠ key) :
    writtenBelow root files contents key = contents key := by
  induction files generalizing contents with
  | nil => rfl
  | cons file rest ih =>
      refine (ih fun other member => elsewhere other (List.mem_cons_of_mem file member)).trans ?_
      exact Function.update_of_ne (Ne.symm (elsewhere file List.mem_cons_self)) _ _

/-- A path has the content of its last version. -/
theorem writtenBelow_final {file : PatchFile} (final : file ∈ finalFiles files) :
    writtenBelow root files contents (root ++ file.path) = some file.content := by
  induction files generalizing contents with
  | nil => cases final
  | cons first rest ih =>
      rw [finalFiles] at final
      split at final
      next => exact ih final
      next last =>
        obtain rfl | later := List.mem_cons.mp final
        · have once : ∀ other ∈ rest, root ++ other.path ≠ root ++ file.path :=
            fun other member same =>
              last (List.mem_map.mpr ⟨other, member, List.append_cancel_left same⟩)
          exact (writtenBelow_other once).trans (Function.update_self _ _ _)
        · exact ih later

end Written

/-! ## Relative paths -/

/-- Where the paths of learner files lead, and how paths are shown to the tutor. -/
structure Rooted (explorer : PgExplorer) (root : Text) (relative : Text → Text) : Prop where
  full : ∀ path, validRoot path = true → explorer.convertToFullPath path = .ok (root ++ path)
  shown : ∀ key, explorer.getRelativePath key = .ok (relative key)
  relative_full : ∀ path, relative (root ++ path) = path

section Roots

variable {self state : PgExplorer} {root path full : Text} {relative : Text → Text}

/-- A valid path is relative. -/
theorem startsWith_of_validRoot (valid : validRoot path = true) :
    path.startsWith slash = false ∧ withoutPreSlash path = path := by
  rw [validRoot, Bool.or_eq_true, startsWith_iff, startsWith_iff] at valid
  obtain ⟨tail, rfl⟩ | ⟨tail, rfl⟩ := valid <;> exact ⟨rfl, rfl⟩

/-- What is rooted depends on the context alone. -/
theorem Rooted.of_context (rooted : Rooted self root relative)
    (same : state.context = self.context) : Rooted state root relative := by
  rw [PgExplorer.context, PgExplorer.context, Context.mk.injEq] at same
  obtain ⟨-, temporary, has, workspaces⟩ := same
  have required : state.getRequiredCurrentWorkspacePath = self.getRequiredCurrentWorkspacePath := by
    simp only [getRequiredCurrentWorkspacePath, has, workspaces]
  refine ⟨fun path valid => ?_, fun key => ?_, rooted.relative_full⟩
  · rw [← rooted.full path valid]
    simp only [convertToFullPath, getProjectRootPath, temporary, required]
  · rw [← rooted.shown key]
    simp only [getRelativePath, temporary, required]

/-- The path of a workspace ends with a slash. -/
theorem endsWith_joinPaths (name : Text) :
    (joinPaths slash (appendSlash name)).endsWith slash = true := by
  have ends := endsWith_appendSlash name
  rw [endsWith_iff] at ends ⊢
  obtain ⟨front, shape⟩ := ends
  rw [joinPaths, ← shape]
  cases front with
  | nil => exact ⟨[], rfl⟩
  | cons first rest =>
      by_cases preSlash : first = '/'
      · subst preSlash
        exact ⟨slash ++ rest, rfl⟩
      · have kept : withoutPreSlash (first :: rest ++ slash) = first :: rest ++ slash := by
          rw [List.cons_append, withoutPreSlash]
          intro other same
          exact preSlash (List.head_eq_of_cons_eq same)
        have root : appendSlash slash = slash := rfl
        rw [kept, root]
        exact ⟨slash ++ first :: rest, by simp⟩

/-- A path that can be made full is made so from the root of the project. -/
theorem exists_rooted (valid : validRoot path = true)
    (known : self.convertToFullPath path = .ok full) :
    ∃ root relative, Rooted self root relative := by
  have fullOf : ∀ base, self.getProjectRootPath = .ok base → base.endsWith slash = true →
      ∀ path, validRoot path = true → self.convertToFullPath path = .ok (base ++ path) := by
    intro base isRoot ends path valid
    obtain ⟨relative, kept⟩ := startsWith_of_validRoot valid
    rw [convertToFullPath, relative, isRoot, if_neg (by simp)]
    simp only [Except.map, joinPaths, kept, appendSlash_of_endsWith ends]
  by_cases temporary : self.isTemporary = true
  · have isRoot : self.getProjectRootPath = .ok slash := by
      rw [getProjectRootPath, if_pos temporary]
    refine ⟨slash, fun key => key.drop 1, fullOf slash isRoot rfl, fun key => ?_, fun _ => rfl⟩
    rw [getRelativePath, if_pos temporary]
  · have same : self.getProjectRootPath = self.getRequiredCurrentWorkspacePath := by
      rw [getProjectRootPath, if_neg temporary]
    rw [convertToFullPath, (startsWith_of_validRoot valid).1, if_neg (by simp), same] at known
    cases required : self.getRequiredCurrentWorkspacePath with
    | error error => simp [required, Except.map] at known
    | ok base =>
        have joined : ∃ name, base = joinPaths slash (appendSlash name) := by
          rw [getRequiredCurrentWorkspacePath] at required
          split at required
          · cases required
          · split at required
            · cases required
            · cases required
            · exact ⟨_, (Except.ok.inj required).symm⟩
        obtain ⟨name, rfl⟩ := joined
        obtain ⟨first, rest, nonempty⟩ : ∃ first rest,
            joinPaths slash (appendSlash name) = first :: rest := ⟨_, _, rfl⟩
        have ends := endsWith_joinPaths name
        refine ⟨_, fun key => key.replace (joinPaths slash (appendSlash name)) [],
          fullOf _ (same.trans required) ends, fun key => ?_, fun path => ?_⟩
        · rw [getRelativePath, if_neg temporary, required]
          rfl
        · rw [nonempty]
          exact Text.replace_append path

end Roots

/-! ## The files that are sent -/

/-- The file that is sent for a key. -/
def listed (relative : Text → Text) (files : ExplorerFiles) (key : Text) : Option WorkspaceFile :=
  (files.content key).bind fun content =>
    if validRoot (relative key) then some ⟨relative key, content⟩ else none

section Listing

variable {self state : PgExplorer} {root : Text} {relative : Text → Text}
  {files : ExplorerFiles} {workspace : List WorkspaceFile}

/-- Every key holds an item. -/
def HasItems (files : ExplorerFiles) : Prop := ∀ key ∈ files.keys, (files.item key).isSome = true

/-- Where the files can be read, they have items. -/
theorem hasItems_of_learnerFiles (sent : learnerFiles self = .ok workspace) :
    HasItems self.files := by
  have all : ∃ files, self.files.keys.mapM (contentAt self) = .ok files := by
    cases gathered : self.files.keys.mapM (contentAt self) with
    | ok files => exact ⟨files, rfl⟩
    | error error =>
        rw [learnerFiles, getAllFiles, gathered] at sent
        cases sent
  intro key member
  obtain ⟨found, here⟩ := Outcome.exists_mapM_ok.mp all key member
  rw [contentAt] at here
  cases item : self.files.item key with
  | none => simp [item] at here
  | some _ => rfl

/-- The files that are sent are those with content and a valid path. -/
theorem learnerFiles_eq (rooted : Rooted self root relative) (items : HasItems self.files) :
    learnerFiles self = .ok (self.files.keys.filterMap (listed relative self.files)) := by
  have gathered : self.files.keys.mapM (contentAt self) = .ok (self.files.keys.map fun key =>
      (self.files.content key).map fun content => (key, content)) := by
    refine Outcome.mapM_ok fun key member => ?_
    obtain ⟨item, found⟩ := Option.isSome_iff_exists.mp (items key member)
    simp only [contentAt, ExplorerFiles.content, found, Option.bind_some]
  have each : ∀ entries : List (Text × Text), entries.mapM (learnerFile self) =
      .ok (entries.map fun entry => if validRoot (relative entry.1) then
        some ⟨relative entry.1, entry.2⟩ else none) := by
    intro entries
    refine Outcome.mapM_ok fun entry _ => ?_
    rw [learnerFile, rooted.shown]
    rfl
  rw [learnerFiles, getAllFiles, gathered]
  change ((List.reduceOption _).mapM (learnerFile self)).bind _ = _
  rw [each]
  change Except.ok _ = _
  congr 1
  have reduced {α : Type} (options : List (Option α)) :
      options.reduceOption = options.filterMap id := rfl
  simp only [reduced, List.filterMap_map, List.map_filterMap, List.filterMap_filterMap]
  refine List.filterMap_congr fun key _ => ?_
  rw [Function.comp_apply, listed]
  cases self.files.content key <;> rfl

/-- The files that are sent, by the content of the files. -/
theorem mem_sent_iff {file : WorkspaceFile} :
    file ∈ files.keys.filterMap (listed relative files) ↔ ∃ key,
      files.content key = some file.content ∧ relative key = file.path ∧
        validRoot file.path = true := by
  rw [List.mem_filterMap]
  constructor
  · rintro ⟨key, -, shown⟩
    obtain ⟨content, found, valid⟩ := Option.bind_eq_some_iff.mp shown
    split at valid
    next root =>
      cases valid
      exact ⟨key, found, rfl, root⟩
    next => cases valid
  · rintro ⟨key, found, same, valid⟩
    refine ⟨key, ExplorerFiles.mem_keys_of_content found, ?_⟩
    rw [listed, found, Option.bind_some, same, if_pos valid]

/-- The keys that a file is sent for. -/
def sentKeys (relative : Text → Text) (files : ExplorerFiles) : Finset Text :=
  files.keys.toFinset.filter fun key => (listed relative files key).isSome = true

/-- Which keys are sent. -/
theorem mem_sentKeys {key : Text} : key ∈ sentKeys relative files ↔
    (files.content key).isSome = true ∧ validRoot (relative key) = true := by
  have shown : (listed relative files key).isSome = true ↔
      (files.content key).isSome = true ∧ validRoot (relative key) = true := by
    rw [listed]
    cases files.content key with
    | none => simp
    | some content =>
        by_cases valid : validRoot (relative key) = true <;> simp [valid]
  rw [sentKeys, Finset.mem_filter, shown, List.mem_toFinset]
  refine ⟨And.right, fun both => ⟨?_, both⟩⟩
  obtain ⟨content, found⟩ := Option.isSome_iff_exists.mp both.1
  exact ExplorerFiles.mem_keys_of_content found

/-- As many files are sent as there are such keys. -/
theorem length_sent : (files.keys.filterMap (listed relative files)).length =
    (sentKeys relative files).card := by
  rw [List.length_filterMap_eq_countP, List.countP_eq_length_filter, sentKeys,
    ← List.toFinset_card_of_nodup (files.nodup_keys.filter _), List.toFinset_filter]

end Listing

/-! ## A patched workspace -/

section Patched

variable {self state : PgExplorer} {root : Text} {relative : Text → Text} {patch : WorkspacePatch}

/-- The patch has been written to the files of the state. -/
structure Patched (before : PgExplorer) (root : Text) (relative : Text → Text)
    (patch : WorkspacePatch) (after : PgExplorer) : Prop where
  before_ : Rooted before root relative
  after_ : Rooted after root relative
  safe : ∀ file ∈ patch.files, SafePath file.path
  items : HasItems after.files
  content : ∀ key, after.files.content key =
    writtenBelow root patch.files before.files.content key

/-- The last version of a file has a safe path. -/
theorem Patched.safe_final (patched : Patched self root relative patch state) {file : PatchFile}
    (final : file ∈ finalFiles patch.files) : SafePath file.path := by
  have path := mem_paths_finalFiles.mp (List.mem_map_of_mem final)
  obtain ⟨other, member, same⟩ := List.mem_map.mp path
  rw [← same]
  exact patched.safe other member

/-- What is written at a key, or that the key is left alone. -/
theorem Patched.content_cases (patched : Patched self root relative patch state) (key : Text) :
    (∃ file ∈ finalFiles patch.files, root ++ file.path = key ∧
      state.files.content key = some file.content) ∨
    ((∀ file ∈ finalFiles patch.files, root ++ file.path ≠ key) ∧
      state.files.content key = self.files.content key) := by
  by_cases written : ∃ file ∈ finalFiles patch.files, root ++ file.path = key
  · obtain ⟨file, final, rfl⟩ := written
    exact .inl ⟨file, final, rfl, (patched.content _).trans (writtenBelow_final final)⟩
  · push Not at written
    refine .inr ⟨written, (patched.content key).trans (writtenBelow_other fun file member same => ?_)⟩
    have path := mem_paths_finalFiles.mpr (List.mem_map_of_mem member)
    obtain ⟨final, among, samePath⟩ := List.mem_map.mp path
    exact written final among (samePath ▸ same)

/-- A file is new when its key has no content. -/
theorem isNew_iff (rooted : Rooted self root relative) {file : PatchFile}
    (valid : validRoot file.path = true) :
    isNew self file = true ↔ self.files.content (root ++ file.path) = none := by
  rw [isNew, getFileContent, getFile, rooted.full _ valid]
  simp only [Except.map, ExplorerFiles.content]
  cases self.files.item (root ++ file.path) with
  | none => simp
  | some item => cases content : item.content <;> simp [content]

/-- The patch adds exactly its new files. -/
theorem Patched.card_sentKeys (patched : Patched self root relative patch state) :
    (sentKeys relative state.files).card = (sentKeys relative self.files).card +
      ((finalFiles patch.files).filter (isNew self)).length := by
  let written := ((finalFiles patch.files).filter (isNew self)).map fun file => root ++ file.path
  have distinct : written.Nodup := by
    have paths : (((finalFiles patch.files).filter (isNew self)).map (·.path)).Nodup :=
      (finalFiles_nodup patch.files).sublist (List.filter_sublist.map _)
    have joined := paths.map (List.append_right_injective root)
    rwa [List.map_map] at joined
  have union : sentKeys relative state.files = sentKeys relative self.files ∪ written.toFinset := by
    ext key
    rw [Finset.mem_union, mem_sentKeys, mem_sentKeys, List.mem_toFinset, List.mem_map]
    obtain ⟨file, final, rfl, content⟩ | ⟨elsewhere, content⟩ := patched.content_cases key
    · have valid := (patched.safe_final final).root
      rw [content, patched.before_.relative_full]
      refine ⟨fun _ => ?_, fun _ => ⟨rfl, valid⟩⟩
      cases found : self.files.content (root ++ file.path) with
      | some before => exact .inl ⟨rfl, valid⟩
      | none =>
          have new := (isNew_iff patched.before_ valid).mpr found
          exact .inr ⟨file, List.mem_filter.mpr ⟨final, new⟩, rfl⟩
    · rw [content]
      refine ⟨.inl, fun either => either.resolve_right ?_⟩
      rintro ⟨file, new, same⟩
      exact elsewhere file (List.mem_filter.mp new).1 same
  have disjoint : Disjoint (sentKeys relative self.files) written.toFinset := by
    rw [Finset.disjoint_right]
    intro key member sent
    obtain ⟨file, new, rfl⟩ := List.mem_map.mp (List.mem_toFinset.mp member)
    obtain ⟨final, isNew⟩ := List.mem_filter.mp new
    have missing := (isNew_iff patched.before_ (patched.safe_final final).root).mp isNew
    simp [mem_sentKeys, missing] at sent
  rw [union, Finset.card_union_of_disjoint disjoint, List.toFinset_card_of_nodup distinct,
    List.length_map]

/-- The server accepts the files of a patched workspace exactly within its limits. -/
theorem Patched.accepted_iff (patched : Patched self root relative patch state)
    (before : AcceptedWorkspace (self.files.keys.filterMap (listed relative self.files))) :
    AcceptedWorkspace (state.files.keys.filterMap (listed relative state.files)) ↔
      WithinLimits self (self.files.keys.filterMap (listed relative self.files)) patch := by
  have number : (state.files.keys.filterMap (listed relative state.files)).length =
      (self.files.keys.filterMap (listed relative self.files)).length +
        ((finalFiles patch.files).filter (isNew self)).length := by
    rw [length_sent, length_sent, patched.card_sentKeys]
  constructor
  · rintro ⟨count, valid⟩
    have each : ∀ file ∈ finalFiles patch.files, Text.utf8Length file.path ≤ 256 ∧
        Text.utf8Length file.content ≤ maxFileContentBytes := by
      intro file final
      have sent : (⟨file.path, file.content⟩ : WorkspaceFile) ∈
          state.files.keys.filterMap (listed relative state.files) :=
        mem_sent_iff.mpr ⟨root ++ file.path, (patched.content _).trans (writtenBelow_final final),
          patched.after_.relative_full _, (patched.safe_final final).root⟩
      exact (invalidWorkspaceFile_iff.mp (valid _ sent)).2
    exact ⟨number ▸ count, fun file final => (each file final).1, fun file final => (each file final).2⟩
  · intro within
    refine ⟨number ▸ within.files, fun file sent => ?_⟩
    obtain ⟨key, found, same, valid⟩ := mem_sent_iff.mp sent
    obtain ⟨written, final, rfl, content⟩ | ⟨-, content⟩ := patched.content_cases key
    · rw [content, Option.some.injEq] at found
      rw [patched.after_.relative_full] at same
      rw [invalidWorkspaceFile_iff, ← same, ← found]
      exact ⟨patched.safe_final final, within.paths written final, within.contents written final⟩
    · -- A file that the patch leaves alone was sent before.
      exact before.2 file (mem_sent_iff.mpr ⟨key, content ▸ found, same, valid⟩)

end Patched

/-! ## Applying a patch -/

section Applying

variable {fs : LightningFs} {disk : Disk fs} {self : PgExplorer} {browser : Browser}
  {root path fullPath data : Text} {relative : Text → Text}

/-- An item is stored at a key, and nothing else of the files changes. -/
def Stores (before : PgExplorer) (key : Text) (after : PgExplorer) : Prop :=
  after.context = before.context ∧ ∃ item, after.files = before.files.set key (some item)

/-- An item that is stored is there. -/
theorem storeItem_stores :
    (storeItem fullPath data overrideOptions).Ensures (Interference.nobody.setting fs True) self disk
      fun result state _ => result = .ok () → Stores self fullPath state := by
  rw [storeItem, Async.ensures_bind, Async.ensures_get, either_ok]
  cases getItemTypeFromPath fullPath with
  | file =>
      refine Async.Ensures.bind (quiet_unlessTemporary (quiet_writeFile fullPath data true) fs
        self.context disk self rfl) ?_ fun _ _ _ _ failed => by cases failed
      rintro _ state disk' ⟨rfl, -⟩
      rw [Async.ensures_modify]
      exact fun _ => ⟨createdFile_context _ _ _ _ _, _, createdFile_files _ _ _⟩
  | folder =>
      refine Async.Ensures.bind (quiet_unlessTemporary (quiet_createDir fullPath false) fs
        self.context disk self rfl) ?_ fun _ _ _ _ failed => by cases failed
      rintro _ state disk' ⟨rfl, -⟩
      rw [Async.ensures_modify, assignFile, if_pos rfl]
      exact fun _ => ⟨rfl, _, setFiles_files _ _⟩

/-- An item that is created is there. -/
theorem createItem_stores (known : self.convertToFullPath path = .ok fullPath) :
    (createItem browser path data overrideOptions).Ensures (Interference.nobody.setting fs True) self
      disk fun result state _ => result = .ok () → Stores self fullPath state := by
  rw [createItem, Async.ensures_bind, ensures_sync, known, either_ok, Async.ensures_bind,
    ensures_sync]
  cases self.checkCreate fullPath overrideOptions with
  | error error => exact fun failed => by cases failed
  | ok _ =>
      rw [either_ok]
      refine Async.Ensures.bind storeItem_stores ?_ fun _ _ _ _ failed => by cases failed
      rintro _ state disk' stores
      obtain ⟨context, item, files⟩ := stores rfl
      rw [Async.ensures_bind, Async.ensures_modify, either_ok]
      refine (quiet_saveMeta browser fs _ disk' _ rfl).mono ?_
      rintro result final _ ⟨rfl, -⟩
      exact fun _ => ⟨context, item, by rw [dispatch_files, files]⟩

/-- What has been applied has the content of the patch, or the check fails. -/
theorem applyFile_stores {file : PatchFile} (rooted : Rooted self root relative)
    (valid : validRoot file.path = true) :
    (applyFile browser file).Ensures (Interference.nobody.setting fs True) self disk
      fun result state _ => result = .ok () → Stores self (root ++ file.path) state ∧
        state.files.content (root ++ file.path) = some file.content := by
  rw [applyFile]
  refine Async.Ensures.bind (createItem_stores (rooted.full _ valid)) ?_ fun _ _ _ _ failed => by cases failed
  rintro _ state disk₁ stores
  have stored := stores rfl
  have shown : state.getFileContent file.path =
      .ok (state.files.content (root ++ file.path)) := by
    rw [getFileContent, getFile, (rooted.of_context stored.1).full _ valid]
    simp only [Except.map, ExplorerFiles.content]
    cases state.files.item (root ++ file.path) <;> rfl
  rw [Async.ensures_bind, ensures_sync, shown, either_ok]
  refine Async.Ensures.bind (quiet_readPersisted _ fs _ disk₁ state rfl) ?_ fun _ _ _ _ failed => by cases failed
  rintro persisted _ disk₂ ⟨rfl, -⟩
  rw [ensures_sync]
  intro saved
  refine ⟨stored, ?_⟩
  by_contra different
  rw [checkSaved, if_pos (.inl different)] at saved
  cases saved

/-- The loop of `applyPatch`, by induction on the files that are left. -/
theorem applyFiles_patched {files : List PatchFile} (rooted : Rooted self root relative)
    (valid : ∀ file ∈ files, validRoot file.path = true) :
    (files.forM (applyFile browser)).Ensures (Interference.nobody.setting fs True) self disk
      fun result state _ => result = .ok () → state.context = self.context ∧
        (HasItems self.files → HasItems state.files) ∧
        ∀ key, state.files.content key = writtenBelow root files self.files.content key := by
  induction files generalizing self disk with
  | nil => exact fun _ => ⟨rfl, id, fun _ => rfl⟩
  | cons file rest ih =>
      refine Async.Ensures.bind (applyFile_stores rooted (valid file List.mem_cons_self)) ?_
        fun _ _ _ _ failed => by cases failed
      rintro _ state disk₁ applied
      obtain ⟨⟨context, item, files⟩, content⟩ := applied rfl
      refine (ih (rooted.of_context context)
        fun other member => valid other (List.mem_cons_of_mem file member)).mono ?_
      rintro result final _ later done
      obtain ⟨sameContext, items, contents⟩ := later done
      have written : state.files.content =
          Function.update self.files.content (root ++ file.path) (some file.content) := by
        funext key
        by_cases here : key = root ++ file.path
        · rw [here, content, Function.update_self]
        · rw [files, ExplorerFiles.content_set, if_neg here, Function.update_of_ne here]
      refine ⟨sameContext.trans context, fun before => items ?_, fun key => ?_⟩
      · intro key member
        rw [files, OrderedMap.mem_keys_set] at member
        rw [files, ExplorerFiles.item_set]
        split
        next => rfl
        next other => exact before key (member.resolve_left other)
      · rw [contents, written]
        rfl

/-- A patch that has been applied is written to the files of the state. -/
theorem applyPatch_patched {fuel : Nat} {value : Json} {patch : WorkspacePatch}
    (accepted : validateWorkspacePatch value = .ok patch) (items : HasItems self.files) :
    (applyPatch browser fuel patch).Ensures (Interference.nobody.setting fs True) self disk
      fun result state _ => ∀ previous, result = .ok (some previous) →
        ∃ root relative, Patched self root relative patch state := by
  obtain ⟨some_, safe⟩ := validateWorkspacePatch_ok accepted
  obtain ⟨first, rest, files⟩ := List.exists_cons_of_ne_nil some_
  rw [applyPatch, Async.ensures_bind, ensures_sync]
  cases gathered : previousFiles patch.files self with
  | error error => exact fun _ failed => by cases failed
  | ok previous =>
      have known : ∃ full, self.convertToFullPath first.path = .ok full := by
        obtain ⟨undo, found⟩ := Outcome.exists_mapM_ok.mp ⟨previous, gathered⟩ first (by simp [files])
        cases made : self.convertToFullPath first.path with
        | ok full => exact ⟨full, rfl⟩
        | error error => simp [getFileContent, getFile, made, Except.map] at found
      obtain ⟨full, made⟩ := known
      obtain ⟨root, relative, rooted⟩ := exists_rooted (safe first (by simp [files])).root made
      rw [either_ok, Async.ensures_tryCatch, applyFiles]
      refine Async.Ensures.bind (applyFiles_patched rooted fun file member => (safe file member).root)
        ?_ fun _ _ _ _ => restoreFiles_none
      rintro _ state disk' applied _ -
      obtain ⟨context, stays, content⟩ := applied rfl
      exact ⟨root, relative, rooted, rooted.of_context context, safe, stays items, content⟩

end Applying

/-! ## The limits -/

/-- The request of the tutor is made from the rooted files. -/
theorem tutorRequest_rooted (params : StreamTutorParams) {self : PgExplorer} {root : Text}
    {relative : Text → Text} (rooted : Rooted self root relative) (items : HasItems self.files) :
    ∃ currentFile, tutorRequest params self = .ok {
      message := params.message
      previousResponseId := params.previousResponseId
      workspace := self.files.keys.filterMap (listed relative self.files)
      currentFile := currentFile
      selection := none
      lessonId := some params.lessonId
      runtime := some params.runtime
      toolOutputs := params.toolOutputs } := by
  have current : ∃ currentFile, currentFileOf self = .ok currentFile := by
    simp only [currentFileOf, rooted.shown]
    split <;> exact ⟨_, rfl⟩
  obtain ⟨currentFile, found⟩ := current
  refine ⟨currentFile, ?_⟩
  rw [tutorRequest, learnerFiles_eq rooted items, found]
  rfl

/-- When a patch that the client accepts has been applied to a workspace that the
server accepts, the server accepts the next request exactly within its limits. -/
theorem patchedRequest_ok_iff {fs : LightningFs} {disk after : Disk fs} {self state : PgExplorer}
    {browser : Browser} {fuel : Nat} {render : Json → Text} {params : StreamTutorParams}
    {request : AiRequest} {value : Json} {patch : WorkspacePatch} {previous : List UndoFile}
    (builds : tutorRequest params self = .ok request)
    (passes : validateAiRequest render request = .ok ())
    (accepted : validateWorkspacePatch value = .ok patch)
    (applied : (applyPatch browser fuel patch).run Disk.serve self disk =
      some (.ok (some previous), state, after)) :
    ∃ patched, tutorRequest params state = .ok patched ∧
      (validateAiRequest render patched = .ok () ↔ WithinLimits self request.workspace patch) := by
  have items : HasItems self.files := by
    cases sent : learnerFiles self with
    | ok workspace => exact hasItems_of_learnerFiles sent
    | error error =>
        rw [tutorRequest, sent] at builds
        cases builds
  obtain ⟨root, relative, patched⟩ :=
    (applyPatch_patched accepted items).of_run applied previous rfl
  obtain ⟨current, before⟩ := tutorRequest_rooted params patched.before_ items
  obtain ⟨currentAfter, built⟩ := tutorRequest_rooted params patched.after_ patched.items
  obtain rfl := Except.ok.inj (builds.symm.trans before)
  refine ⟨_, built, ?_⟩
  rw [validateAiRequest_iff passes rfl]
  exact patched.accepted_iff (acceptedWorkspace_of_ok passes)

/-- A question without anything else. -/
def plainParams : StreamTutorParams where
  message := "Why?".toList
  previousResponseId := none
  lessonId := "hello-solana".toList
  toolOutputs := none
  runtime := .null

/-- A request with a path that continues another one. -/
def siblingRequest : AiRequest where
  message := "Why?".toList
  previousResponseId := none
  workspace := [⟨"src/a.rs".toList, ['a']⟩, ⟨"src/a.rs.bak".toList, ['b']⟩,
    ⟨"src/lib/c.rs".toList, ['c']⟩]
  currentFile := some "src/a.rs".toList
  selection := none
  lessonId := some "hello-solana".toList
  runtime := some .null
  toolOutputs := none

/-- A small new file is within the limits. -/
theorem patchedRequest_ok_of_new_file : ∃ state after patched,
    (applyPatch plainBrowser 0 (oneFilePatch "src/new.rs" "n")).run Disk.serve siblingWorkspace
      siblingDisk = some (.ok (some [⟨"src/new.rs".toList, none⟩]), state, after) ∧
    tutorRequest plainParams state = .ok patched ∧
    validateAiRequest (fun _ => []) patched = .ok () := by
  have done : ((applyPatch plainBrowser 0 (oneFilePatch "src/new.rs" "n")).run Disk.serve
      siblingWorkspace siblingDisk).map (·.1) =
        some (.ok (some [⟨"src/new.rs".toList, none⟩])) := by decide +kernel
  obtain ⟨⟨result, state, after⟩, ran, rfl⟩ := Option.map_eq_some_iff.mp done
  have builds : tutorRequest plainParams siblingWorkspace = .ok siblingRequest := by rfl
  have passes : validateAiRequest (fun _ => []) siblingRequest = .ok () := by decide +kernel
  have accepted : validateWorkspacePatch (.object [("files".toList, .array [.object
      [("path".toList, .string "src/new.rs".toList), ("content".toList, .string "n".toList)]])]) =
        .ok (oneFilePatch "src/new.rs" "n") := by rfl
  obtain ⟨patched, built, iff_⟩ := patchedRequest_ok_iff builds passes accepted ran
  refine ⟨state, after, patched, ran, built, iff_.mpr ⟨?_, ?_, ?_⟩⟩ <;> decide +kernel

/-- A file whose path is longer than the server accepts. -/
def longPath : Text := "src/".toList ++ List.replicate 250 'a' ++ ".rs".toList

/-- A patch with a path as long as the limit. -/
def longPathPatch : WorkspacePatch :=
  { oneFilePatch "src/new.rs" "n" with files := [⟨longPath, ['n']⟩] }

/-- The client sets no limit to a path. -/
theorem patchedRequest_not_always_ok : ¬ ∀ (fs : LightningFs) (disk after : Disk fs)
    (self state : PgExplorer) (browser : Browser) (fuel : Nat) (render : Json → Text)
    (params : StreamTutorParams) (request : AiRequest) (value : Json) (patch : WorkspacePatch)
    (previous : List UndoFile),
    tutorRequest params self = .ok request → validateAiRequest render request = .ok () →
    validateWorkspacePatch value = .ok patch →
    (applyPatch browser fuel patch).run Disk.serve self disk =
      some (.ok (some previous), state, after) →
    ∃ patched, tutorRequest params state = .ok patched ∧
      validateAiRequest render patched = .ok () := by
  intro all
  have done : ((applyPatch plainBrowser 0 longPathPatch).run Disk.serve
      siblingWorkspace siblingDisk).map (·.1) =
        some (.ok (some [⟨longPath, none⟩])) := by decide +kernel
  obtain ⟨⟨result, state, after⟩, ran, rfl⟩ := Option.map_eq_some_iff.mp done
  have passes : validateAiRequest (fun _ => []) siblingRequest = .ok () := by decide +kernel
  have accepted : validateWorkspacePatch (.object [("files".toList, .array [.object
      [("path".toList, .string longPath), ("content".toList, .string "n".toList)]])]) =
        .ok longPathPatch := by decide +kernel
  obtain ⟨patched, built, ok⟩ := all _ _ _ _ _ _ _ _ plainParams _ _ _ _ rfl passes accepted ran
  have refused : ((applyPatch plainBrowser 0 longPathPatch).run Disk.serve
      siblingWorkspace siblingDisk).map (fun outcome => (tutorRequest plainParams outcome.2.1).map
        (validateAiRequest fun _ => [])) =
          some (.ok (.error "Workspace file exceeds tutor limits".toList)) := by decide +kernel
  rw [ran, Option.map_some, built, Option.some.injEq] at refused
  rw [Except.map, ok] at refused
  cases refused

end Solpg.Client.Learning
