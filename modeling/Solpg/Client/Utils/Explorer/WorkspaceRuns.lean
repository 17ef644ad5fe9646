import Solpg.Client.Utils.Explorer.Preserving
import Solpg.Client.Utils.Explorer.Sparing
import Solpg.Client.Utils.Explorer.MemoryFs

/-!
# Runs over the list of workspaces

The calls that make, rename and delete workspaces, one after another. As long as no name leads
into the directory of another workspace or around it, the directories stay apart, and what is
done to one workspace spares the files of the others.
-/

namespace Solpg.Client.Utils

open Solpg.Std PgCommon
open DirectoryTree (Apart)

inductive WorkspaceCall where
  | createWorkspace (fuel : Nat) (name : Text) (opts : PgExplorer.CreateWorkspaceOptions)
  | renameWorkspace (fuel : Nat) (newName : Text)
  | deleteWorkspace (fuel : Nat)
  | switchWorkspace (fuel : Nat) (name : Text) (defaultOpenFile : Option Text)

/-- What is done to the current workspace itself. -/
inductive WorkspaceWork where
  | list (fuel : Nat)
  | save (path content : Text)
  | rename (newName : Text)
  | delete (fuel : Nat)

/-- The directories of different workspaces are apart: none of them contains another one. -/
def DirectoriesApart (names : List Text) : Prop :=
  ∀ first ∈ names, ∀ second ∈ names, first ≠ second →
    Apart (workspaceDirectory first) (workspaceDirectory second)

/-- The directory of the name is apart from those of the others. -/
def ApartFrom (names : List Text) (name : Text) : Prop :=
  ∀ other ∈ names, other ≠ name → Apart (workspaceDirectory other) (workspaceDirectory name)

instance (names : List Text) (name : Text) : Decidable (ApartFrom names name) :=
  inferInstanceAs (Decidable (∀ other ∈ names, _))

namespace PgExplorer

open PgM

section

variable (browser : Browser) (parseWorkspaces : Text → Option Workspaces)

def workspaceProgram : WorkspaceCall → PgM Unit
  | .createWorkspace fuel name opts => createWorkspace browser parseWorkspaces fuel name opts
  | .renameWorkspace fuel newName => renameWorkspace browser fuel newName
  | .deleteWorkspace fuel => deleteWorkspace browser fuel
  | .switchWorkspace fuel name defaultOpenFile => switchWorkspace browser fuel name defaultOpenFile

/-- A call runs to its end, whether it returns or throws. At first there is no workspace. -/
def workspaceMachine (fs : LightningFs) : Machine (PgExplorer × Disk fs) WorkspaceCall where
  Initial state := state.1.workspaces.allNames = []
  next state call :=
    ((workspaceProgram browser parseWorkspaces call).run Disk.serve state.1 state.2).map Prod.snd

/-- The parts of the methods that are about the current workspace alone: its files are loaded,
one of its files is written with the metadata, its directory is renamed or deleted. -/
def workOn : WorkspaceWork → PgM Unit
  | .list fuel => do
      let workspacePath ← sync getRequiredCurrentWorkspacePath
      setupFiles fuel workspacePath
      loadMetadata browser
  | .save path content => do
      PgFs.writeFile path content true
      saveMeta browser
  | .rename newName => do
      let workspacePath ← sync getRequiredCurrentWorkspacePath
      let self ← get
      let newPath := workspacePath.replace (self.workspaces.currentName.getD []) newName
      renameItem browser workspacePath newPath ⟨true, false⟩
  | .delete fuel => do
      let workspacePath ← sync getRequiredCurrentWorkspacePath
      deleteItem browser fuel workspacePath

end

section

variable {fs : LightningFs} (parseWorkspaces : Text → Option Workspaces)
  (state : PgExplorer × Disk fs)

/-- A list that `initWorkspaces` can set: the one that is stored, or the one that is there. -/
def Loadable (names : List Text) : Prop :=
  names = state.1.workspaces.allNames ∨ ∃ text stored,
    (fs.call (.readFile WORKSPACES_CONFIG_PATH) state.2.db).1 = .ok text ∧
      parseWorkspaces text = some stored ∧ names = stored.allNames

/-- When a call keeps the directories apart. -/
def KeepsApart : WorkspaceCall → Prop
  | .createWorkspace _ name opts =>
      checkWorkspaceName name.trim opts.skipNameValidation = .ok () →
        if opts.fromTemporary && state.1.isTemporary then
          ∀ names, Loadable parseWorkspaces state names →
            DirectoriesApart names ∧ ApartFrom names name.trim
        else state.1.hasWorkspace = true → ApartFrom state.1.workspaces.allNames name.trim
  | .renameWorkspace _ newName =>
      checkWorkspaceName newName.trim false = .ok () →
        (∃ path, state.1.getRequiredCurrentWorkspacePath = .ok path) →
        ApartFrom (state.1.workspaces.allNames.filter (some · ≠ state.1.workspaces.currentName))
          newName.trim
  | .deleteWorkspace _ | .switchWorkspace _ _ _ => True

/-- The file that is written is in the current workspace; the new name passes the checks and its
directory is apart from those of the other workspaces. -/
def Concerns (current : Text) : WorkspaceWork → Prop
  | .save path _ => ∀ full, state.1.convertToFullPath path = .ok full →
      workspaceDirectory current <+: locate full
  | .rename newName => isWorkspaceNameValid newName = true ∧
      newName ∉ state.1.workspaces.allNames ∧
      ApartFrom (state.1.workspaces.allNames.filter (· ≠ current)) newName
  | .list _ | .delete _ => True

end

/-! ## The list -/

variable {names rest : List Text} {name newName : Text} {browser : Browser} {fs : LightningFs}
  {parseWorkspaces : Text → Option Workspaces} {self : PgExplorer} {disk : Disk fs} {fuel : Nat}

theorem directoriesApart_property : ListProperty DirectoriesApart where
  fewer sublist apart first among second also :=
    apart first (sublist.subset among) second (sublist.subset also)
  default := by
    intro first among second also different
    rw [List.mem_singleton.mp among, List.mem_singleton.mp also] at different
    exact absurd rfl different

theorem directoriesApart_concat (apart : DirectoriesApart names) (new : ApartFrom names name) :
    DirectoriesApart (names ++ [name]) := by
  intro first among second also different
  obtain firstOld | firstNew := List.mem_append.mp among
  · obtain secondOld | secondNew := List.mem_append.mp also
    · exact apart first firstOld second secondOld different
    · obtain rfl := List.mem_singleton.mp secondNew
      exact new first firstOld different
  · obtain rfl := List.mem_singleton.mp firstNew
    obtain secondOld | secondNew := List.mem_append.mp also
    · exact (new second secondOld different.symm).symm
    · exact absurd (List.mem_singleton.mp secondNew).symm different

/-- The current name is replaced. -/
theorem directoriesApart_rename {current : Option Text} (apart : DirectoriesApart names)
    (new : ApartFrom (names.filter (some · ≠ current)) newName) :
    DirectoriesApart (names.map fun name => if some name = current then newName else name) := by
  have others : ∀ name ∈ names.map (fun name => if some name = current then newName else name),
      name ≠ newName → name ∈ names.filter (some · ≠ current) := by
    intro name among different
    obtain ⟨old, member, rfl⟩ := List.mem_map.mp among
    by_cases here : some old = current
    · rw [if_pos here] at different
      exact absurd rfl different
    · rw [if_neg here]
      exact List.mem_filter.mpr ⟨member, by simpa using here⟩
  intro first among second also different
  by_cases isFirst : first = newName
  · subst isFirst
    exact (new second (others second also different.symm) different.symm).symm
  · by_cases isSecond : second = newName
    · subst isSecond
      exact new first (others first among different) different
    · exact apart first (List.mem_of_mem_filter (others first among isFirst))
        second (List.mem_of_mem_filter (others second also isSecond)) different

/-! ## Steps -/

/-- Loading the list of workspaces. -/
theorem initWorkspaces_loads (browser : Browser) :
    (initWorkspaces browser parseWorkspaces).Ensures (Interference.nobody.setting fs True) self disk
      fun _ self' _ => Loadable parseWorkspaces (self, disk) self'.workspaces.allNames := by
  have stored : (tryCatch
      (do
        let text ← PgFs.readToString WORKSPACES_CONFIG_PATH
        pure (parseWorkspaces text))
      fun _ => pure none : PgM (Option Workspaces)).Ensures (Interference.nobody.setting fs True)
        self disk fun result self' _ => self' = self ∧ ∃ stored, result = .ok stored ∧
          Loadable parseWorkspaces (self, disk) (stored.getD self.workspaces).allNames := by
    have read : Acts .nobody True self.context (PgFs.readToString WORKSPACES_CONFIG_PATH) disk
        fun result _ => ∀ text, result = .ok text →
          (fs.call (.readFile WORKSPACES_CONFIG_PATH) disk.db).1 = .ok text :=
      acts_sync_bind (leadsTo_full rfl) (acts_request fun text served => Disk.call_of_serve served)
    rw [Async.ensures_tryCatch, Async.ensures_bind]
    refine (read self rfl).mono ?_
    rintro (error | text) state disk' ⟨rfl, answered⟩
    · exact ⟨rfl, none, rfl, .inl rfl⟩
    · refine ⟨rfl, parseWorkspaces text, rfl, ?_⟩
      cases parsed : parseWorkspaces text with
      | none => exact .inl rfl
      | some workspaces => exact .inr ⟨text, workspaces, answered text rfl, parsed, rfl⟩
  rw [initWorkspaces]
  refine stored.bind ?_ ?_
  · rintro value state disk' ⟨rfl, _, same, loadable⟩
    cases same
    rw [Async.ensures_bind, Async.ensures_modify, either_ok]
    exact ensures_quiet (quiet_saveWorkspaces browser) loadable
  · rintro error state disk' ⟨-, _, same, -⟩
    cases same

theorem movedToNew_workspaces (name : Text) (self : PgExplorer) :
    (movedToNew name self).workspaces = self.workspaces :=
  OrderedMap.forIn_induction (fun _ (state : PgExplorer) => state.workspaces = self.workspaces) rfl
    fun _ _ _ state _ same => by
      split
      · exact same
      · exact same

/-- After the name is in the list. -/
theorem createInState_apart {program : PgM Unit} (apart : DirectoriesApart self.workspaces.allNames)
    (new : ApartFrom self.workspaces.allNames name)
    (rest : Preserves (Lists DirectoriesApart) program) :
    (do change (createWorkspaceInState name); program : PgM Unit).Ensures
      (Interference.nobody.setting fs True) self disk
      fun _ self' _ => Lists DirectoriesApart self' := by
  rw [Async.ensures_bind, ensures_change, createWorkspaceInState]
  split
  next changed created =>
    split at created
    · cases created
    · cases created
      exact rest fs _ disk (directoriesApart_concat apart new)
  next => exact apart

theorem createWorkspace_apart {opts : CreateWorkspaceOptions} (apart : Lists DirectoriesApart self)
    (keeps : KeepsApart parseWorkspaces (self, disk) (.createWorkspace fuel name opts)) :
    (createWorkspace browser parseWorkspaces fuel name opts).Ensures
      (Interference.nobody.setting fs True) self disk
      fun _ self' _ => Lists DirectoriesApart self' := by
  have switches := switchWorkspace_lists directoriesApart_property browser fuel name.trim
  rw [createWorkspace, Async.ensures_bind, ensures_sync]
  cases checked : checkWorkspaceName name.trim opts.skipNameValidation with
  | error error => exact apart
  | ok _ =>
      have keeps := keeps checked
      rw [either_ok, Async.ensures_bind, Async.ensures_get, either_ok]
      by_cases temporary : (opts.fromTemporary && self.isTemporary) = true
      · rw [if_pos temporary] at keeps
        rw [if_pos temporary]
        refine (initWorkspaces_loads browser).bind ?_ ?_
        · intro _ state disk' loadable
          obtain ⟨apart, new⟩ := keeps _ loadable
          refine createInState_apart apart new ?_
          refine Preserves.bind (modify_lists fun state => ?_) fun _ => ?_
          · rw [movedToNew_workspaces]
          exact Preserves.bind (.quiet quiet_writeAllFromState) fun _ => switches none
        · exact fun _ state disk' loadable => (keeps _ loadable).1
      · rw [if_neg temporary] at keeps
        rw [if_neg temporary, Async.ensures_bind, ensures_sync]
        by_cases hasWorkspace : self.hasWorkspace = true
        · rw [if_pos hasWorkspace, either_ok]
          refine createInState_apart apart (keeps hasWorkspace) ?_
          cases opts.files with
          | none => exact switches _
          | some files => exact Preserves.bind (.quiet (quiet_writeFiles files)) fun _ => switches _
        · rw [if_neg hasWorkspace]
          exact apart

theorem renameWorkspace_apart (apart : Lists DirectoriesApart self)
    (keeps : KeepsApart parseWorkspaces (self, disk) (.renameWorkspace fuel newName)) :
    (renameWorkspace browser fuel newName).Ensures (Interference.nobody.setting fs True) self disk
      fun _ self' _ => Lists DirectoriesApart self' := by
  rw [renameWorkspace, Async.ensures_bind, ensures_sync]
  cases checked : checkWorkspaceName newName.trim false with
  | error error => exact apart
  | ok _ =>
      rw [either_ok, Async.ensures_bind, ensures_sync]
      cases root : self.getRequiredCurrentWorkspacePath with
      | error error => exact apart
      | ok workspacePath =>
          have new := keeps checked ⟨workspacePath, root⟩
          rw [either_ok, Async.ensures_bind, Async.ensures_get, either_ok]
          by_cases known : newName.trim ∈ self.workspaces.allNames
          · rw [if_pos known]
            exact apart
          · rw [if_neg known]
            have context : Preserves (·.context = self.context)
                (renameItem browser workspacePath
                  (workspacePath.replace (self.workspaces.currentName.getD []) newName.trim)
                  ⟨true, false⟩) :=
              renameItem_preserves browser _ _ _ fun _ _ same here => same.trans here
            refine Async.Ensures.bind (context fs self disk rfl) ?_ ?_
            · intro _ state disk' here
              have same : state.workspaces = self.workspaces := congrArg Context.workspaces here
              rw [Async.ensures_bind, ensures_change, renameWorkspaceInState, same, if_neg known]
              exact switchWorkspace_lists directoriesApart_property browser fuel _ none fs _ disk'
                (directoriesApart_rename apart new)
            · exact fun _ state disk' here => lists_of_context here apart

theorem workspaceProgram_apart {call : WorkspaceCall} (apart : Lists DirectoriesApart self)
    (keeps : KeepsApart parseWorkspaces (self, disk) call) :
    (workspaceProgram browser parseWorkspaces call).Ensures (Interference.nobody.setting fs True)
      self disk fun _ self' _ => Lists DirectoriesApart self' := by
  cases call with
  | createWorkspace fuel name opts => exact createWorkspace_apart apart keeps
  | renameWorkspace fuel newName => exact renameWorkspace_apart apart keeps
  | deleteWorkspace fuel =>
      exact deleteWorkspace_lists directoriesApart_property browser fuel fs self disk apart
  | switchWorkspace fuel name defaultOpenFile =>
      exact switchWorkspace_lists directoriesApart_property browser fuel name defaultOpenFile fs self
        disk apart

/-! ## Work on one workspace -/

/-- A name that is valid is the name of one directory. -/
theorem isName_of_valid (valid : isWorkspaceNameValid name = true) :
    UnixPath.IsName name ∧ '$' ∉ name := by
  simp only [isWorkspaceNameValid, Bool.and_eq_true, List.all_eq_true] at valid
  obtain ⟨starts, all⟩ := valid
  have without : ∀ char, (Text.isWord char || Text.isSpace char || decide (char = '-')) = false →
      char ∉ name := by
    intro char not_ member
    have holds := all char member
    rw [not_] at holds
    cases holds
  refine ⟨⟨?_, without '/' (by decide), ?_, ?_⟩, without '$' (by decide)⟩
  · rintro rfl
    cases starts
  · rintro rfl
    exact without '.' (by decide) List.mem_cons_self
  · rintro rfl
    exact without '.' (by decide) List.mem_cons_self

theorem workspaceDirectory_of_isName (isName : UnixPath.IsName name) :
    workspaceDirectory name = [name] := by
  rw [workspaceDirectory_eq, locate, UnixPath.ofText_of_isName isName]
  exact if_neg isName.2.2.2

/-- A new name in the place of the current one. -/
theorem renamed_leadsApart {context : Context} {current : Text} {top : List Text}
    (nonempty : current ≠ []) (valid : isWorkspaceNameValid newName = true)
    (within : context.InDirectory (workspaceDirectory current))
    (apart : Apart (workspaceDirectory current) top) (new : Apart (workspaceDirectory newName) top) :
    LeadsApart context top ((joinPaths slash (appendSlash current)).replace current newName) := by
  obtain ⟨isName, plain⟩ := isName_of_valid valid
  obtain ⟨ending, whole, ends⟩ : ∃ ending, appendSlash current = current ++ ending ∧
      (ending = [] ∨ ending = slash) := by
    rw [appendSlash]
    split
    · exact ⟨[], (List.append_nil current).symm, .inl rfl⟩
    · exact ⟨slash, rfl, .inr rfl⟩
  have components : (UnixPath.ofText (newName ++ ending)).components = [newName] := by
    have single := congrArg UnixPath.components (UnixPath.ofText_of_isName isName)
    obtain rfl | rfl := ends
    · rwa [List.append_nil]
    · exact (UnixPath.components_append_slash newName []).trans (by rw [single]; rfl)
  have relative : ∀ rest, (newName ++ rest).startsWith slash = false := by
    intro rest
    rw [Bool.eq_false_iff, Ne, startsWith_iff]
    obtain ⟨first, others, rfl⟩ := List.exists_cons_of_ne_nil isName.1
    intro starts
    exact isName.2.1 ((List.cons_prefix_cons.mp starts).1 ▸ List.mem_cons_self)
  obtain ⟨first, rest, rfl⟩ := List.exists_cons_of_ne_nil nonempty
  rw [whole]
  by_cases preSlash : first = '/'
  · -- The slash is part of the name: the new path is relative.
    subst preSlash
    have replaced : (joinPaths slash ('/' :: rest ++ ending)).replace ('/' :: rest) newName =
        newName ++ ending := by
      have same : joinPaths slash ('/' :: rest ++ ending) = '/' :: rest ++ ending := rfl
      rw [same, Text.replace, Text.replaceFrom_append nonempty, Text.expand_eq_self plain]
      rfl
    rw [replaced]
    refine within.leadsApart apart (relative ending) ?_
    rw [components]
    intro name member
    rw [List.mem_singleton.mp member]
    exact isName.2.2.2
  · have replaced : (joinPaths slash (first :: rest ++ ending)).replace (first :: rest) newName =
        slash ++ newName ++ ending := by
      have kept : withoutPreSlash (first :: rest ++ ending) = first :: rest ++ ending :=
        withoutPreSlash_of_relative fun starts =>
          preSlash (List.cons_prefix_cons.mp ((startsWith_iff _ _).mp starts)).1.symm
      have notHere : (first :: rest).isPrefixOf ('/' :: (first :: rest ++ ending)) = false := by
        simp [List.isPrefixOf, preSlash]
      have same : joinPaths slash (first :: rest ++ ending) = '/' :: (first :: rest ++ ending) :=
        congrArg (slash ++ ·) kept
      rw [same, Text.replace, Text.replaceFrom, notHere, if_neg (by simp), List.nil_append,
        Text.replaceFrom_append nonempty, Text.expand_eq_self plain]
      rfl
    have place : locate (slash ++ newName ++ ending) = workspaceDirectory newName := by
      have followed := UnixPath.location_append_slash [] (newName ++ ending)
      rw [components] at followed
      rw [workspaceDirectory_of_isName isName, List.append_assoc]
      exact followed.trans (if_neg isName.2.2.2)
    rw [replaced]
    have below : FullBelow (workspaceDirectory newName) (slash ++ newName ++ ending) :=
      ⟨rfl, place ▸ List.prefix_rfl⟩
    exact below.leadsApart new

/-- What is done to the current workspace spares the other ones. -/
theorem workOn_spares {current other : Text} {work : WorkspaceWork}
    (apart : DirectoriesApart self.workspaces.allNames)
    (here : self.workspaces.currentName = some current) (listed : current ∈ self.workspaces.allNames)
    (stored : self.isTemporary = false) (also : other ∈ self.workspaces.allNames)
    (different : other ≠ current) (concerns : Concerns (self, disk) current work) :
    Spares (workspaceDirectory other) (workOn browser work) self disk := by
  have currentIn : ∀ state : PgExplorer, state.context = self.context →
      state.workspaces.currentName = some current := by
    intro state same
    have names : state.workspaces = self.workspaces := congrArg Context.workspaces same
    rw [names, here]
  have within : self.context.InDirectory (workspaceDirectory current) := by
    refine ⟨stored, fun name found => ?_⟩
    obtain rfl := Option.some.inj (here.symm.trans found)
    rfl
  have apartOther := apart current listed other also different.symm
  have root : Sparing (workspaceDirectory other) self.context (sync getRequiredCurrentWorkspacePath)
      fun path => FullBelow (workspaceDirectory current) path ∧ path.endsWith slash = true ∧
        current ≠ [] ∧ path = joinPaths slash (appendSlash current) := by
    refine .sync fun state path same found => ?_
    have withinState : state.context.InDirectory (workspaceDirectory current) := same ▸ within
    obtain ⟨below, ends⟩ := withinState.fullBelow found
    obtain ⟨name, known, nonempty, path⟩ := currentName_of_path found
    obtain rfl := Option.some.inj (known.symm.trans (currentIn state same))
    exact ⟨below, ends, nonempty, path⟩
  have sparing : Sparing (workspaceDirectory other) self.context (workOn browser work)
      fun _ => True := by
    cases work with
    | list fuel =>
        refine root.bind fun path found => ?_
        exact (sparing_setupFiles apartOther found.1).bind fun _ _ =>
          sparing_loadMetadata within apartOther
    | save path content =>
        refine (sparing_writeFile ?_ content).bind fun _ _ => sparing_saveMeta within apartOther
        intro state full same found
        exact apartOther.below (concerns full ((convertToFullPath_of_context same path).symm.trans found))
    | rename newName =>
        obtain ⟨valid, new, apartNew⟩ := concerns
        refine root.bind fun path found => ?_
        obtain ⟨below, -, nonempty, shape⟩ := found
        refine Sparing.get_bind fun state same => ?_
        rw [currentIn state same, Option.getD_some]
        refine sparing_renameItem within apartOther (below.leadsApart apartOther) ?_
        rw [shape]
        refine renamed_leadsApart nonempty valid within apartOther (Apart.symm (apartNew other ?_ ?_))
        · exact List.mem_filter.mpr ⟨also, by simpa using different⟩
        · exact fun same => new (same ▸ also)
    | delete fuel =>
        refine root.bind fun path found => ?_
        exact sparing_deleteItem within apartOther found.1 found.2.1
  exact sparing.spares fs self disk rfl

/-! ## Runs -/

theorem next_apart {state next : PgExplorer × Disk fs} {call : WorkspaceCall}
    (apart : Lists DirectoriesApart state.1) (keeps : KeepsApart parseWorkspaces state call)
    (stepped : (workspaceMachine browser parseWorkspaces fs).next state call = some next) :
    Lists DirectoriesApart next.1 := by
  obtain ⟨⟨result, self', disk'⟩, ran, rfl⟩ := Option.map_eq_some_iff.mp stepped
  have ensures : (workspaceProgram browser parseWorkspaces call).Ensures
      (Interference.nobody.setting fs True) state.1 state.2
      fun _ self' _ => Lists DirectoriesApart self' := workspaceProgram_apart apart keeps
  rw [Interference.nobody_setting] at ensures
  exact ensures.of_run ran

/-- In every run of calls that keep the directories apart, they are apart, and what is done to
the current workspace neither reads nor changes a file of another one. -/
theorem workspaces_disjoint {start finish : PgExplorer × Disk fs} {calls : List WorkspaceCall}
    (initial : (workspaceMachine browser parseWorkspaces fs).Initial start)
    (meets : (workspaceMachine browser parseWorkspaces fs).Meets (KeepsApart parseWorkspaces)
      start calls)
    (ran : (workspaceMachine browser parseWorkspaces fs).run start calls = some finish) :
    DirectoriesApart finish.1.workspaces.allNames ∧
      ∀ current ∈ finish.1.workspaces.allNames, ∀ other ∈ finish.1.workspaces.allNames,
        finish.1.workspaces.currentName = some current → finish.1.isTemporary = false →
        other ≠ current → ∀ work, Concerns finish current work →
          Spares (workspaceDirectory other) (workOn browser work) finish.1 finish.2 := by
  have none_ : Lists DirectoriesApart start.1 := by
    rw [Lists, initial]
    exact fun _ among => absurd among List.not_mem_nil
  have apart : Lists DirectoriesApart finish.1 :=
    Machine.run_preserves_of_meets (fun state => Lists DirectoriesApart state.1)
      (fun apart keeps stepped => next_apart apart keeps stepped) none_ meets ran
  refine ⟨apart, ?_⟩
  intro current listed other also here stored different work concerns
  exact workOn_spares apart here listed stored also different concerns

/-- The explorer before there is a workspace. -/
def noWorkspaces : PgExplorer × Disk memoryFs where
  fst :=
    { explorer := getDefaultState
      generation := 0
      isTemporary := false
      hasWorkspace := true
      workspaces := ⟨[], none⟩
      initializedWorkspaceName := none
      dispatched := [] }
  snd := ⟨MemoryDb.empty, []⟩

/-- A repository is imported with one file. -/
def importRepository (name : String) : WorkspaceCall :=
  .createWorkspace 9 name.toList ⟨some [("src/lib.rs".toList, name.toList)], none, false, true⟩

/-- Two repositories of one owner are imported. -/
theorem workspaces_disjoint_imports : ∃ finish,
    (workspaceMachine plainBrowser (fun _ => none) memoryFs).run noWorkspaces
      [importRepository "github-o/r/", importRepository "github-o/s/"] = some finish ∧
    finish.1.workspaces.allNames = ["github-o/r/".toList, "github-o/s/".toList] ∧
    Spares (workspaceDirectory "github-o/r/".toList) (workOn plainBrowser (.delete 9)) finish.1
      finish.2 := by
  let machine := workspaceMachine plainBrowser (fun _ => none) memoryFs
  let first := importRepository "github-o/r/"
  let second := importRepository "github-o/s/"
  have shown : (machine.run noWorkspaces [first, second]).map (fun state =>
      (state.1.workspaces.allNames, state.1.workspaces.currentName, state.1.isTemporary)) =
        some (["github-o/r/".toList, "github-o/s/".toList], some "github-o/s/".toList, false) := by
    decide +kernel
  obtain ⟨finish, ran, last⟩ := Option.map_eq_some_iff.mp shown
  obtain ⟨names, last⟩ := Prod.mk.inj last
  obtain ⟨current, stored⟩ := Prod.mk.inj last
  have initial : machine.Initial noWorkspaces := rfl
  have middle : ∀ state, machine.run noWorkspaces [first] = some state →
      state.1.workspaces.allNames = ["github-o/r/".toList] := by
    intro state reached
    have known : (machine.run noWorkspaces [first]).map (·.1.workspaces.allNames) =
        some ["github-o/r/".toList] := by decide +kernel
    rw [reached] at known
    exact Option.some.inj known
  have meets : machine.Meets (KeepsApart fun _ => none) noWorkspaces [first, second] := by
    refine ⟨fun _ _ => by decide, fun state stepped => ⟨fun _ _ => ?_, fun _ _ => trivial⟩⟩
    rw [middle state (Machine.run_cons_eq_some.mpr ⟨state, stepped, rfl⟩)]
    decide
  obtain ⟨-, spares⟩ := workspaces_disjoint initial meets ran
  refine ⟨finish, ran, names, ?_⟩
  exact spares _ (by simp [names]) _ (by simp [names]) current stored (by decide) (.delete 9) trivial

/-- A repository and then a folder of the same repository are imported. -/
theorem not_always_apart : ¬ ∀ (fs : LightningFs) (browser : Browser)
    (parseWorkspaces : Text → Option Workspaces) (start finish : PgExplorer × Disk fs)
    (calls : List WorkspaceCall), (workspaceMachine browser parseWorkspaces fs).Initial start →
    (workspaceMachine browser parseWorkspaces fs).run start calls = some finish →
    DirectoriesApart finish.1.workspaces.allNames := by
  intro all
  let calls := [importRepository "github-o/r/", importRepository "github-o/r/app"]
  have shown : ((workspaceMachine plainBrowser (fun _ => none) memoryFs).run noWorkspaces calls).map
      (·.1.workspaces.allNames) = some ["github-o/r/".toList, "github-o/r/app".toList] := by
    decide +kernel
  obtain ⟨finish, ran, names⟩ := Option.map_eq_some_iff.mp shown
  have apart := all memoryFs plainBrowser (fun _ => none) noWorkspaces finish calls rfl ran
  rw [names] at apart
  have outer := apart "github-o/r/".toList (by decide) "github-o/r/app".toList (by decide) (by decide)
  exact absurd outer (by decide)

end PgExplorer
end Solpg.Client.Utils
