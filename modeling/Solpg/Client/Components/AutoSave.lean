import Solpg.Client.Components.MonacoWorkspace

/-!
# The auto save

The timer knows neither the file nor the text of the edit that has started it. The text
gets into its file when the editor shows the current file while it is edited, and the
file stays the current one until the timer expires.
-/

namespace Solpg.Client.Components

open Solpg.Std Solpg.Client.Utils PgCommon

/-- A path that its URI has too. -/
def Monaco.Plain {Uri : Type} (monaco : Monaco Uri) (path : Text) : Prop :=
  monaco.path (monaco.parse path) = path

namespace MonacoWorkspace

variable {Uri : Type} [DecidableEq Uri]

section

variable (monaco : Monaco Uri) (workspace : MonacoWorkspace Uri)

/-- The model of a path, if there is one, has the content of the file, if there is one. -/
def Agrees (path : Text) : Prop :=
  ∀ uri text content, workspace.models.get uri = some text → monaco.path uri = path →
    workspace.explorer.files.content path = some content → content = text

/-- No auto save is pending, and the files are as their models. -/
def Settled : Prop := workspace.timer = false → ∀ path, workspace.Agrees monaco path

/-- The auto save stores the text of the editor under the path of the editor's model. -/
def OwnText : EditorLabel → Prop
  | .autoSave => ∀ path target,
      workspace.explorer.currentFilePath.filter (!·.isEmpty) = some path →
      workspace.explorer.convertToFullPath path = .ok target →
      ∃ uri, workspace.editorModel = some uri ∧ monaco.path uri = target
  | _ => True

/-- Over the whole run nothing is lost, and every event finds the editor showing its own text. -/
def NoLostEdits (labels : List EditorLabel) : Prop :=
  (machine monaco).Throughout (Settled monaco) workspace labels ∧
    (machine monaco).Meets (fun state label => (next monaco state label).isSome →
      state.OwnText monaco label) workspace labels

/-- The editor shows the model of the current file. -/
def ShowsCurrent (path : Text) : Prop :=
  workspace.explorer.currentFilePath = some path ∧ path.startsWith slash = true ∧
    monaco.Plain path ∧ workspace.editorModel = some (monaco.parse path)

/-- The steps that leave the auto save to its file. -/
def Waits : EditorLabel → Prop
  | .edit _ => ∃ path, workspace.ShowsCurrent monaco path
  | .openFile path => ∀ full, workspace.explorer.convertToFullPath path = .ok full →
      monaco.Plain full ∧
        (workspace.timer = true → workspace.explorer.currentFilePath = some full)
  | .closeFile path => (∀ tab ∈ workspace.explorer.tabs, monaco.Plain tab) ∧
      (workspace.timer = true → ∀ full, workspace.explorer.convertToFullPath path = .ok full →
        workspace.explorer.tabs.Nodup ∧ ∃ index closed,
          workspace.explorer.explorer.currentIndex = some index ∧
            workspace.explorer.tabs[closed]? = some full ∧ index < closed)
  | .renamed oldPath newPath _ =>
      (∀ path ∈ workspace.explorer.tabs ++ workspace.explorer.renameTargets oldPath newPath,
        monaco.Plain path) ∧
      (workspace.timer = true → ∀ path, workspace.explorer.currentFilePath = some path →
        path.startsWith oldPath = false) ∧
      (∀ uri ∈ workspace.models.keys,
        monaco.path uri ∈ workspace.explorer.renameTargets oldPath newPath →
          (monaco.path uri).startsWith oldPath = true)
  | .autoSave => True

/-- Each model is that of the path that its URI has. -/
def Keyed : Prop := ∀ uri ∈ workspace.models.keys, monaco.parse (monaco.path uri) = uri

/-- The text of the current file is being edited, the other files are as their models. -/
structure Editing (path : Text) : Prop where
  shows_ : workspace.ShowsCurrent monaco path
  model : monaco.parse path ∈ workspace.models.keys
  others : ∀ other, other ≠ path → workspace.Agrees monaco other

/-- The auto save is pending only while the current file is being edited. -/
structure Followed : Prop where
  keyed : workspace.Keyed monaco
  settled : workspace.Settled monaco
  pending : workspace.timer = true → ∃ path, workspace.Editing monaco path

end

variable {monaco : Monaco Uri} {workspace : MonacoWorkspace Uri} {path : Text} {uri : Uri}

/-! ## What the listeners do -/

omit [DecidableEq Uri] in
/-- A found model has the path that was looked for. -/
theorem findModel_eq_some (found : workspace.findModel monaco path = some uri) :
    uri ∈ workspace.models.keys ∧ monaco.path uri = path :=
  ⟨List.mem_of_find?_eq_some found, by simpa using List.find?_some found⟩

omit [DecidableEq Uri] in
/-- In a keyed workspace a path has one model at most. -/
theorem Keyed.eq_parse (keyed : workspace.Keyed monaco) (member : uri ∈ workspace.models.keys)
    (is : monaco.path uri = path) : uri = monaco.parse path := by
  rw [← is]
  exact (keyed uri member).symm

omit [DecidableEq Uri] in
/-- A model that was created for a plain path is found by it. -/
theorem findModel_of_mem (keyed : workspace.Keyed monaco) (plain : monaco.Plain path)
    (member : monaco.parse path ∈ workspace.models.keys) :
    workspace.findModel monaco path = some (monaco.parse path) := by
  obtain ⟨uri, found⟩ : ∃ uri, workspace.findModel monaco path = some uri := by
    rw [← Option.isSome_iff_exists, findModel, List.find?_isSome]
    exact ⟨_, member, decide_eq_true plain⟩
  obtain ⟨there, is⟩ := findModel_eq_some found
  rw [found, keyed.eq_parse there is]

/-- The models that are not disposed of keep their text. -/
theorem get_disposeModels (gone : Uri → Text → Bool) (uri : Uri) :
    (workspace.disposeModels gone).models.get uri =
      (workspace.models.get uri).filter fun text => !gone uri text :=
  OrderedMap.get_filter _ _ _

/-- What listeners may do: models go, or are made from their files. -/
structure Listened (monaco : Monaco Uri) (before after : MonacoWorkspace Uri) : Prop where
  explorer : after.explorer = before.explorer
  timer : after.timer = before.timer
  model : ∀ uri text, after.models.get uri = some text → before.models.get uri = some text ∨
    monaco.parse (monaco.path uri) = uri ∧
      ∀ content, before.explorer.files.content (monaco.path uri) = some content → content = text

/-- Without events nothing changes. -/
theorem Listened.rfl : Listened monaco workspace workspace :=
  ⟨Eq.refl _, Eq.refl _, fun _ _ => .inl⟩

/-- Two runs of listeners follow one another. -/
theorem Listened.trans {first second third : MonacoWorkspace Uri}
    (before : Listened monaco first second) (after : Listened monaco second third) :
    Listened monaco first third := by
  refine ⟨after.explorer.trans before.explorer, after.timer.trans before.timer, ?_⟩
  intro uri text here
  rcases after.model uri text here with there | made
  · exact before.model uri text there
  · right
    rwa [before.explorer] at made

/-- The listeners keep the models keyed by their paths. -/
theorem Listened.keyed {after : MonacoWorkspace Uri} (listened : Listened monaco workspace after)
    (keyed : workspace.Keyed monaco) : after.Keyed monaco := by
  intro uri member
  obtain ⟨text, here⟩ := Option.isSome_iff_exists.mp (OrderedMap.mem_keys_iff.mp member)
  rcases listened.model uri text here with there | ⟨is, -⟩
  · exact keyed uri (OrderedMap.mem_keys_iff.mpr (by rw [there]; rfl))
  · exact is

/-- The listeners keep a model that agrees with its file. -/
theorem Listened.agrees {after : MonacoWorkspace Uri} (listened : Listened monaco workspace after)
    (agrees : workspace.Agrees monaco path) : after.Agrees monaco path := by
  intro uri text content here is held
  rw [listened.explorer] at held
  rcases listened.model uri text here with there | ⟨-, made⟩
  · exact agrees uri text content there is held
  · exact made content (is ▸ held)

/-- Disposing of models is one thing that listeners do. -/
theorem disposeModels_listened (gone : Uri → Text → Bool) :
    Listened monaco workspace (workspace.disposeModels gone) := by
  refine ⟨rfl, rfl, fun uri text here => .inl ?_⟩
  rw [get_disposeModels] at here
  exact (Option.filter_eq_some_iff.mp here).1

/-- Showing a file is one thing that listeners do. -/
theorem setModel_listened {curFile : FullFile} (plain : monaco.Plain curFile.path)
    (content : workspace.explorer.files.content curFile.path = curFile.content) :
    Listened monaco workspace (workspace.setModel monaco curFile) := by
  rw [setModel]
  split
  · exact ⟨rfl, rfl, fun _ _ => .inl⟩
  · simp only []
    split
    · exact Listened.rfl
    · refine ⟨rfl, rfl, fun uri text here => ?_⟩
      rw [OrderedMap.get_set] at here
      split at here
      next is =>
        right
        subst is
        have same : monaco.path (monaco.parse curFile.path) = curFile.path := plain
        rw [same]
        refine ⟨rfl, fun held is => ?_⟩
        rw [content] at is
        simpa [is] using here
      next => exact .inl here

/-- Listening to a truthful event keeps to what listeners do. -/
theorem listen_listened {event : ExplorerEvent}
    (truthful : event.Truthful workspace.explorer.files monaco.Plain) :
    Listened monaco workspace (workspace.listen monaco event) := by
  cases event with
  | openFile file =>
      cases file with
      | none => exact Listened.rfl
      | some curFile =>
          obtain ⟨content, plain⟩ := truthful curFile rfl
          rw [listen, switchFile]
          split
          · exact (disposeModels_listened _).trans (setModel_listened plain content)
          · exact setModel_listened plain content
  | renameItem => exact disposeModels_listened _
  | deleteItem => exact disposeModels_listened _
  | changeFileContent => exact truthful.elim
  | createItem | closeFile | setTabs | switchWorkspace => exact Listened.rfl

/-- Listening to several truthful events keeps to what listeners do. -/
theorem foldl_listened (events : List ExplorerEvent) (truthful : ∀ event ∈ events,
    event.Truthful workspace.explorer.files monaco.Plain) :
    Listened monaco workspace (events.foldl (listen monaco) workspace) := by
  induction events generalizing workspace with
  | nil => exact Listened.rfl
  | cons event rest ih =>
      have first := listen_listened (truthful event (List.mem_cons_self ..))
      refine first.trans (ih fun other member => ?_)
      rw [first.explorer]
      exact truthful other (List.mem_cons_of_mem _ member)

/-- Hearing all that an explorer operation dispatched keeps to what listeners do. -/
theorem run_listened {explorer : PgExplorer} (holds : explorer.EventsHold monaco.Plain) :
    Listened monaco { workspace with explorer := explorer } (workspace.run monaco explorer) :=
  foldl_listened _ holds

/-! ## The steps -/

/-- After the listeners an idle workspace follows the explorer again. -/
theorem Listened.followed {after : MonacoWorkspace Uri} (listened : Listened monaco workspace after)
    (keyed : workspace.Keyed monaco) (idle : workspace.timer = false)
    (agrees : ∀ path, workspace.Agrees monaco path) : after.Followed monaco where
  keyed := listened.keyed keyed
  settled _ path := listened.agrees (agrees path)
  pending started := by simp [listened.timer, idle] at started

/-- A model agrees with its file in every explorer of the same files. -/
theorem Agrees.withExplorer {explorer : PgExplorer} (agrees : workspace.Agrees monaco path)
    (files : explorer.files = workspace.explorer.files) :
    ({ workspace with explorer := explorer } : MonacoWorkspace Uri).Agrees monaco path := by
  intro uri text content here is held
  exact agrees uri text content here is (files ▸ held)

/-- The workspace follows every explorer of the same files and the same current file. -/
theorem Followed.withExplorer {explorer : PgExplorer} (followed : workspace.Followed monaco)
    (files : explorer.files = workspace.explorer.files)
    (current : explorer.currentFilePath = workspace.explorer.currentFilePath) :
    ({ workspace with explorer := explorer } : MonacoWorkspace Uri).Followed monaco where
  keyed := followed.keyed
  settled idle path := (followed.settled idle path).withExplorer files
  pending started := by
    obtain ⟨path, shows_, model, others⟩ := followed.pending started
    exact ⟨path, ⟨current.trans shows_.1, shows_.2⟩, model, fun other apart =>
      (others other apart).withExplorer files⟩

/-- An edit of the shown file is followed, with the timer running. -/
theorem Followed.edit (followed : workspace.Followed monaco)
    (shows_ : workspace.ShowsCurrent monaco path) (text : Text) :
    (workspace.setValue (monaco.parse path) text).Followed monaco where
  keyed := by
    intro uri member
    rcases OrderedMap.mem_keys_set.mp member with rfl | before
    · exact congrArg monaco.parse shows_.2.2.1
    · exact followed.keyed uri before
  settled idle := by simp [setValue, shows_.2.2.2] at idle
  pending _ := by
    refine ⟨path, shows_, OrderedMap.mem_keys_set.mpr (.inl rfl), fun other apart => ?_⟩
    have before : workspace.Agrees monaco other := by
      cases pending : workspace.timer with
      | false => exact followed.settled pending other
      | true =>
          obtain ⟨edited, editing⟩ := followed.pending pending
          obtain rfl := Option.some.inj (editing.shows_.1.symm.trans shows_.1)
          exact editing.others other apart
    intro uri held content here is there
    refine before uri held content ?_ is there
    rwa [setValue, OrderedMap.get_set_of_ne] at here
    rintro rfl
    exact apart (is.symm.trans shows_.2.2.1)

/-- A method of a path, after the path is made full. -/
theorem call_of_path (monaco : Monaco Uri) (workspace : MonacoWorkspace Uri)
    (method : PgExplorer → Text → PgExplorer) (path : Text) :
    (∃ full, workspace.explorer.convertToFullPath path = .ok full ∧
      workspace.call monaco (fun explorer => (explorer.convertToFullPath path).map (method explorer)) =
        workspace.run monaco (method (quiet workspace.explorer) full)) ∨
    workspace.call monaco (fun explorer => (explorer.convertToFullPath path).map (method explorer)) =
      workspace := by
  have same : (quiet workspace.explorer).convertToFullPath path =
      workspace.explorer.convertToFullPath path := rfl
  simp only [call, same]
  cases workspace.explorer.convertToFullPath path with
  | error => exact .inr rfl
  | ok full => exact .inl ⟨full, rfl, rfl⟩

/-- A quiet explorer has dispatched nothing. -/
theorem eventsHold_quiet (explorer : PgExplorer) (allowed : Text → Prop) :
    (quiet explorer).EventsHold allowed := nofun

/-- Opening a file is followed once the timer has fired. -/
theorem Followed.openFile (followed : workspace.Followed monaco)
    (waits : workspace.Waits monaco (.openFile path)) :
    (workspace.call monaco (·.openFile path)).Followed monaco := by
  obtain ⟨full, converted, same⟩ | same := call_of_path monaco workspace PgExplorer.openFileAt path
  · obtain ⟨plain, waits⟩ := waits full converted
    refine same ▸ ?_
    cases pending : workspace.timer with
    | false =>
        have holds : ((quiet workspace.explorer).openFileAt full).EventsHold monaco.Plain :=
          (eventsHold_quiet _ _).openFileAt plain
        refine (run_listened holds).followed followed.keyed pending fun other => ?_
        exact (followed.settled pending other).withExplorer (PgExplorer.openFileAt_files _ _)
    | true =>
        -- It is the current file already.
        have nothing : (quiet workspace.explorer).openFileAt full = quiet workspace.explorer :=
          if_pos (waits pending)
        rw [nothing]
        exact followed.withExplorer rfl rfl
  · exact Eq.substr (p := Followed monaco) same followed

/-- Closing a file is followed once the timer has fired. -/
theorem Followed.closeFile (followed : workspace.Followed monaco)
    (waits : workspace.Waits monaco (.closeFile path)) :
    (workspace.call monaco (·.closeFile path)).Followed monaco := by
  obtain ⟨plain, waits⟩ := waits
  obtain ⟨full, converted, same⟩ | same := call_of_path monaco workspace PgExplorer.closeFileAt path
  · refine same ▸ ?_
    cases pending : workspace.timer with
    | false =>
        have holds : ((quiet workspace.explorer).closeFileAt full).EventsHold monaco.Plain :=
          (eventsHold_quiet _ _).closeFileAt plain full
        refine (run_listened holds).followed followed.keyed pending fun other => ?_
        exact (followed.settled pending other).withExplorer (PgExplorer.closeFileAt_files _ _)
    | true =>
        obtain ⟨distinct, index, closed, here, found, behind⟩ := waits pending full converted
        have kept : ((quiet workspace.explorer).closeFileAt full).currentFilePath =
            workspace.explorer.currentFilePath ∧
              ((quiet workspace.explorer).closeFileAt full).dispatched = [.closeFile] :=
          PgExplorer.closeFileAt_behind distinct here found behind
        have unheard : workspace.run monaco ((quiet workspace.explorer).closeFileAt full) =
            { workspace with explorer := (quiet workspace.explorer).closeFileAt full } := by
          rw [run, kept.2]
          rfl
        rw [unheard]
        exact followed.withExplorer (PgExplorer.closeFileAt_files _ _) kept.1
  · exact Eq.substr (p := Followed monaco) same followed

/-! ### The rename -/

/-- The models left are those that were not to go. -/
theorem mem_keys_disposeModels {gone : Uri → Text → Bool} :
    uri ∈ (workspace.disposeModels gone).models.keys ↔
      ∃ text, workspace.models.get uri = some text ∧ gone uri text = false := by
  rw [OrderedMap.mem_keys_iff, get_disposeModels, Option.isSome_iff_exists]
  simp [Option.filter_eq_some_iff]

/-- The listener shows the model of a file that has one. -/
theorem switchFile_of_mem {curFile : FullFile} (keyed : workspace.Keyed monaco)
    (plain : monaco.Plain curFile.path)
    (member : monaco.parse curFile.path ∈ workspace.models.keys) :
    (workspace.switchFile monaco (some curFile)).editorModel = some (monaco.parse curFile.path) ∧
      monaco.parse curFile.path ∈ (workspace.switchFile monaco (some curFile)).models.keys := by
  have shown : ∀ rest : MonacoWorkspace Uri, rest.Keyed monaco →
      monaco.parse curFile.path ∈ rest.models.keys →
      (rest.setModel monaco curFile).editorModel = some (monaco.parse curFile.path) ∧
        monaco.parse curFile.path ∈ (rest.setModel monaco curFile).models.keys := by
    intro rest keyed member
    rw [setModel, findModel_of_mem keyed plain member]
    exact ⟨rfl, member⟩
  rw [switchFile]
  split
  · refine shown _ ((disposeModels_listened _).keyed keyed) (mem_keys_disposeModels.mpr ?_)
    obtain ⟨text, here⟩ := Option.isSome_iff_exists.mp (OrderedMap.mem_keys_iff.mp member)
    have same : monaco.path (monaco.parse curFile.path) = curFile.path := plain
    exact ⟨text, here, by simp [disposesScript, same]⟩
  · exact shown _ keyed member

/-- The explorer has renamed, and has not told it yet. -/
def unheardRename (workspace : MonacoWorkspace Uri) (oldPath newPath : Text) (override : Bool) :
    MonacoWorkspace Uri :=
  { workspace with explorer := (quiet workspace.explorer).renamedItem oldPath newPath override }

/-- The listener has opened the current file after the rename. -/
def openedRename (monaco : Monaco Uri) (workspace : MonacoWorkspace Uri) (oldPath newPath : Text)
    (override : Bool) : MonacoWorkspace Uri :=
  let unheard := workspace.unheardRename oldPath newPath override
  unheard.switchFile monaco unheard.explorer.getCurrentFile

section Rename

variable {oldPath newPath : Text} {override : Bool}

/-- A rename is heard after the explorer has done it. -/
theorem call_renamedItem (monaco : Monaco Uri) (workspace : MonacoWorkspace Uri)
    (oldPath newPath : Text) (override : Bool) :
    (workspace.call monaco fun explorer => .ok (explorer.renamedItem oldPath newPath override)) =
      (workspace.openedRename monaco oldPath newPath override).disposeModelsFromPath monaco oldPath := by
  rw [call]
  change workspace.run monaco ((quiet workspace.explorer).renamedItem oldPath newPath override) = _
  rw [run, PgExplorer.renamedItem_dispatched]
  cases override with
  | true => rfl
  | false => rfl

/-- The listeners follow a rename. -/
theorem openedRename_listened (waits : workspace.Waits monaco (.renamed oldPath newPath override)) :
    Listened monaco (workspace.unheardRename oldPath newPath override)
      (workspace.openedRename monaco oldPath newPath override) := by
  refine listen_listened (PgExplorer.truthful_getCurrentFile fun path current => waits.1 path ?_)
  have known : path ∈ (quiet workspace.explorer).tabs ∨
      path ∈ (quiet workspace.explorer).renameTargets oldPath newPath :=
    PgExplorer.mem_tabs_renamedItem (PgExplorer.mem_tabs_of_current current)
  exact List.mem_append.mpr known

/-- A path below the old one has no model any more. Another one has the content that it had
before, as there is no model of a path that a file gets. -/
theorem Agrees.renamed (agrees : workspace.Agrees monaco path)
    (waits : workspace.Waits monaco (.renamed oldPath newPath override)) :
    ((workspace.openedRename monaco oldPath newPath override).disposeModelsFromPath monaco
      oldPath).Agrees monaco path := by
  cases below : path.startsWith oldPath with
  | true =>
      intro uri text content here is
      rw [disposeModelsFromPath, get_disposeModels, is, below] at here
      simp at here
  | false =>
      refine (disposeModels_listened _).agrees ((openedRename_listened waits).agrees ?_)
      intro uri text content here is held
      have notTarget : path ∉ workspace.explorer.renameTargets oldPath newPath := by
        intro target
        have member : uri ∈ workspace.models.keys :=
          OrderedMap.mem_keys_iff.mpr (Option.isSome_of_eq_some here)
        have gone := waits.2.2 uri member (is ▸ target)
        simp [is, below] at gone
      have kept : ((quiet workspace.explorer).renamedItem oldPath newPath override).files.content
          path = workspace.explorer.files.content path ∨
          ((quiet workspace.explorer).renamedItem oldPath newPath override).files.content path =
            none := PgExplorer.content_renamedItem below notTarget
      refine agrees uri text content here is ?_
      rcases kept with same | nothing
      · exact same.symm.trans held
      · cases nothing.symm.trans held

/-- The file that is being edited keeps its model, and the editor shows it. -/
theorem Editing.renamed (editing : workspace.Editing monaco path) (keyed : workspace.Keyed monaco)
    (waits : workspace.Waits monaco (.renamed oldPath newPath override))
    (pending : workspace.timer = true) :
    ((workspace.openedRename monaco oldPath newPath override).disposeModelsFromPath monaco
      oldPath).Editing monaco path := by
  obtain ⟨current, full, plain, shown⟩ := editing.shows_
  have notBelow : path.startsWith oldPath = false := waits.2.1 pending path current
  have listened := openedRename_listened waits
  have stays : (workspace.unheardRename oldPath newPath override).explorer.currentFilePath =
      some path := PgExplorer.currentFilePath_renamedItem notBelow current
  have opened : (workspace.openedRename monaco oldPath newPath override).editorModel =
      some (monaco.parse path) ∧
        monaco.parse path ∈ (workspace.openedRename monaco oldPath newPath override).models.keys := by
    rw [openedRename, PgExplorer.getCurrentFile, stays, Option.bind_some]
    cases (workspace.unheardRename oldPath newPath override).explorer.files.item path with
    | none => exact ⟨shown, editing.model⟩
    | some item =>
        rw [Option.map_some]
        refine switchFile_of_mem ?_ ?_ ?_
        · exact keyed
        · exact plain
        · exact editing.model
  have same : monaco.path (monaco.parse path) = path := plain
  have model : monaco.parse path ∈ ((workspace.openedRename monaco oldPath newPath
      override).disposeModelsFromPath monaco oldPath).models.keys := by
    obtain ⟨text, here⟩ := Option.isSome_iff_exists.mp (OrderedMap.mem_keys_iff.mp opened.2)
    exact mem_keys_disposeModels.mpr ⟨text, here, by rw [same, notBelow]⟩
  refine ⟨⟨?_, full, plain, ?_⟩, model, fun other apart => (editing.others other apart).renamed waits⟩
  · exact (congrArg PgExplorer.currentFilePath listened.explorer).trans stays
  · exact Option.filter_eq_some_iff.mpr ⟨opened.1, OrderedMap.has_iff.mpr model⟩

/-- A rename is followed once the timer has fired. -/
theorem Followed.renamed (followed : workspace.Followed monaco)
    (waits : workspace.Waits monaco (.renamed oldPath newPath override)) :
    (workspace.call monaco fun explorer =>
      .ok (explorer.renamedItem oldPath newPath override)).Followed monaco := by
  rw [call_renamedItem]
  have listened : Listened monaco (workspace.unheardRename oldPath newPath override)
      ((workspace.openedRename monaco oldPath newPath override).disposeModelsFromPath monaco
        oldPath) := (openedRename_listened waits).trans (disposeModels_listened _)
  refine ⟨listened.keyed followed.keyed, fun idle path => ?_, fun pending => ?_⟩
  · exact (followed.settled (listened.timer.symm.trans idle) path).renamed waits
  · have before : workspace.timer = true := listened.timer.symm.trans pending
    obtain ⟨path, editing⟩ := followed.pending before
    exact ⟨path, editing.renamed followed.keyed waits before⟩

end Rename

/-! ### The expiry of the timer -/

/-- A saved file has its new content and all others their old one. -/
theorem content_saveFileToStateAt (self : PgExplorer) (path content other : Text) :
    (self.saveFileToStateAt path content).files.content other =
      if other = path ∧ (self.files.item path).isSome then some content
      else self.files.content other := by
  rw [PgExplorer.saveFileToStateAt]
  cases here : self.files.item path with
  | none => simp
  | some file =>
      simp only []
      split
      next same =>
        split
        next at_ => rw [at_.1, ExplorerFiles.content, here, Option.bind_some, same]
        next => rfl
      next =>
        simp only [PgExplorer.dispatch_files, PgExplorer.setFiles_files, ExplorerFiles.content_set]
        simp

/-- The shown text is that of the edited file's model. -/
theorem Editing.getValue (editing : workspace.Editing monaco path) :
    workspace.models.get (monaco.parse path) = some workspace.getValue := by
  obtain ⟨text, here⟩ := Option.isSome_iff_exists.mp (OrderedMap.mem_keys_iff.mp editing.model)
  rw [MonacoWorkspace.getValue, editing.shows_.2.2.2, Option.bind_some, here]
  rfl

/-- The edited file is the explorer's current file. -/
theorem Editing.currentFilePath (editing : workspace.Editing monaco path) :
    workspace.explorer.currentFilePath.filter (!·.isEmpty) = some path := by
  rw [editing.shows_.1]
  have full := editing.shows_.2.1
  cases path with
  | nil => exact absurd full (by decide)
  | cons => rfl

/-- A change to the text that is shown already changes nothing. -/
theorem changeFileContent_same {uri : Uri} {content : Text}
    (found : workspace.findModel monaco path = some uri)
    (same : workspace.models.get uri = some content) :
    workspace.changeFileContent monaco path content = workspace := by
  rw [changeFileContent, found]
  exact if_pos same

/-- The text of the model is stored, and the model has it already when it hears of it. -/
theorem Editing.autoSave (editing : workspace.Editing monaco path)
    (keyed : workspace.Keyed monaco) :
    ({ workspace with timer := false } : MonacoWorkspace Uri).autoSave monaco =
      { workspace with
        timer := false
        explorer := (quiet workspace.explorer).saveFileToStateAt path workspace.getValue } := by
  have full : (quiet workspace.explorer).convertToFullPath path = .ok path := if_pos editing.shows_.2.1
  have found : workspace.findModel monaco path = some (monaco.parse path) :=
    findModel_of_mem keyed editing.shows_.2.2.1 editing.model
  rw [MonacoWorkspace.autoSave]
  simp only [editing.currentFilePath, call, PgExplorer.saveFileToState, full, Except.map]
  change ({ workspace with timer := false } : MonacoWorkspace Uri).run monaco
    ((quiet workspace.explorer).saveFileToStateAt path workspace.getValue) = _
  rw [run, PgExplorer.saveFileToStateAt]
  split
  · rfl
  · split
    · rfl
    · exact changeFileContent_same found editing.getValue

/-- The autosave of an edited file is followed. -/
theorem Editing.saved (editing : workspace.Editing monaco path) (keyed : workspace.Keyed monaco) :
    (({ workspace with timer := false } : MonacoWorkspace Uri).autoSave monaco).Followed monaco := by
  rw [editing.autoSave keyed]
  refine ⟨keyed, fun _ other uri text content here is held => ?_, fun pending => by cases pending⟩
  rw [content_saveFileToStateAt] at held
  by_cases same : other = path
  · subst same
    have parsed := keyed.eq_parse (OrderedMap.mem_keys_iff.mpr (Option.isSome_of_eq_some here)) is
    subst parsed
    have value := Option.some.inj (here.symm.trans editing.getValue)
    split at held
    next => exact (Option.some.inj held).symm.trans value.symm
    next missing =>
      have nothing : (quiet workspace.explorer).files.item other = none := by simpa using missing
      rw [ExplorerFiles.content, nothing] at held
      cases held
  · rw [if_neg fun both => same both.1] at held
    exact editing.others other same uri text content here is held

/-- One event that waits for the timer keeps the workspace following. -/
theorem followed_step {label : EditorLabel} {after : MonacoWorkspace Uri}
    (followed : workspace.Followed monaco) (waits : workspace.Waits monaco label)
    (stepped : next monaco workspace label = some after) : after.Followed monaco := by
  cases label with
  | edit text =>
      obtain ⟨path, shows_⟩ := waits
      rw [next, shows_.2.2.2, Option.map_some] at stepped
      exact Option.some.inj stepped ▸ followed.edit shows_ text
  | openFile path => exact Option.some.inj stepped ▸ followed.openFile waits
  | closeFile path => exact Option.some.inj stepped ▸ followed.closeFile waits
  | renamed oldPath newPath override => exact Option.some.inj stepped ▸ followed.renamed waits
  | autoSave =>
      rw [next] at stepped
      split at stepped
      next pending =>
        obtain ⟨path, editing⟩ := followed.pending pending
        exact Option.some.inj stepped ▸ editing.saved followed.keyed
      next => exact absurd stepped nofun

/-- A mounted editor follows the explorer. -/
theorem followed_mount {explorer : PgExplorer}
    (plain : ∀ path, explorer.currentFilePath = some path → monaco.Plain path) :
    (mount monaco explorer).Followed monaco := by
  refine Listened.followed (listen_listened (PgExplorer.truthful_getCurrentFile plain)) ?_ rfl ?_
  · exact nofun
  · exact nofun

/-- In a following workspace every event finds its own text. -/
theorem Followed.ownText (followed : workspace.Followed monaco) (label : EditorLabel)
    (enabled : (next monaco workspace label).isSome) : workspace.OwnText monaco label := by
  cases label with
  | autoSave =>
      rw [next] at enabled
      split at enabled
      next pending =>
        obtain ⟨path, editing⟩ := followed.pending pending
        obtain ⟨current, full, plain, shown⟩ := editing.shows_
        intro stored target is converted
        obtain rfl := Option.some.inj (editing.currentFilePath.symm.trans is)
        have same : Except.ok path = Except.ok target := (if_pos full).symm.trans converted
        exact ⟨_, shown, plain.trans (Except.ok.inj same)⟩
      next => exact absurd enabled nofun
  | edit | openFile | closeFile | renamed => trivial

/-- In a run that waits for the timer no edit is lost. -/
theorem no_lost_edits (monaco : Monaco Uri) (explorer : PgExplorer)
    (plain : ∀ path, explorer.currentFilePath = some path → monaco.Plain path)
    (labels : List EditorLabel)
    (waits : (machine monaco).Meets (Waits monaco) (mount monaco explorer) labels) :
    (mount monaco explorer).NoLostEdits monaco labels := by
  have throughout : (machine monaco).Throughout (Followed monaco) (mount monaco explorer) labels :=
    Machine.throughout_of_meets _ followed_step (followed_mount plain) waits
  exact ⟨throughout.mono fun _ followed => followed.settled,
    throughout.meets fun _ label followed => followed.ownText label⟩

/-! ## A session with three tabs -/

/-- The first file. -/
def fileA : Text := "/src/a.rs".toList

/-- The second file. -/
def fileB : Text := "/src/b.rs".toList

/-- The third file. -/
def fileC : Text := "/src/c.rs".toList

/-- A Monaco whose URIs are the paths themselves. -/
def plainPaths : Monaco Text := ⟨id, id⟩

/-- The middle one of three tabs is the current file. -/
def threeTabs : PgExplorer where
  explorer :=
    { files := ((OrderedMap.empty.set fileA (some ⟨some [], none⟩)).set fileB
        (some ⟨some [], none⟩)).set fileC (some ⟨some [], none⟩)
      tabs := [fileA, fileB, fileC]
      currentIndex := some 1 }
  generation := 0
  isTemporary := true
  hasWorkspace := false
  workspaces := ⟨[], none⟩
  initializedWorkspaceName := none
  dispatched := []

/-- A run that saves before it opens another file. -/
theorem saved_before_open :
    (mount plainPaths threeTabs).NoLostEdits plainPaths
      [.edit "x".toList, .closeFile fileC, .autoSave, .openFile fileA] := by
  refine no_lost_edits plainPaths threeTabs (fun _ _ => rfl) _ ⟨⟨fileB, rfl, rfl, rfl, rfl⟩, ?_⟩
  rintro _ ⟨⟩
  refine ⟨⟨fun _ _ => rfl, fun _ full converted => ⟨by decide, 1, 2, rfl, ?_, by decide⟩⟩, ?_⟩
  · exact congrArg some (Except.ok.inj converted)
  rintro _ ⟨⟩
  refine ⟨trivial, ?_⟩
  rintro _ ⟨⟩
  exact ⟨fun _ _ => ⟨rfl, nofun⟩, fun _ _ => trivial⟩

/-- A file is opened before the text of another one is saved. -/
theorem run_loses_edit :
    ((machine plainPaths).run (mount plainPaths threeTabs)
      [.edit "x".toList, .openFile fileA, .autoSave]).any (fun workspace =>
        !workspace.timer && workspace.models.get fileB = some "x".toList &&
          workspace.explorer.files.content fileB = some []) = true := by decide

/-- The other run closes the tab before the current file, so that the current file changes
while the editor stays. -/
theorem not_always_saved :
    ¬ (mount plainPaths threeTabs).NoLostEdits plainPaths
        [.edit "x".toList, .openFile fileA, .autoSave] ∧
      ¬ (mount plainPaths threeTabs).NoLostEdits plainPaths
        [.closeFile fileA, .edit "x".toList, .autoSave] := by
  constructor
  · rintro ⟨settled, -⟩
    obtain ⟨finish, ran, lost⟩ := (Option.any_eq_true _ _).mp run_loses_edit
    simp only [Bool.and_eq_true, Bool.not_eq_true', decide_eq_true_eq] at lost
    obtain ⟨⟨idle, model⟩, content⟩ := lost
    exact absurd (settled.of_run ran idle fileB fileB _ _ model rfl content) (by decide)
  · rintro ⟨-, own⟩
    have stored := (own.2 _ rfl).2 _ rfl |>.1 rfl fileC fileC rfl rfl
    obtain ⟨uri, shown, is⟩ := stored
    have same : some fileB = some uri := shown
    obtain rfl := Option.some.inj same
    exact absurd is (by decide)

end MonacoWorkspace
end Solpg.Client.Components
