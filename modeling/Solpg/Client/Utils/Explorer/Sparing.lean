import Solpg.Client.Utils.Explorer.Saving
import Solpg.Client.Utils.Explorer.Workspaces
import Solpg.Std.Outcome

/-!
# Programs that spare a directory

What a program asks of the file system, whatever the store answers and however it fails: it
neither reads nor changes the files at a place and below it. What is done to a workspace spares
whatever stands apart from its directory.
-/

namespace Solpg.Client.Utils

open Solpg.Std PgCommon
open DirectoryTree (Apart)

/-- The call neither reads nor changes the files at a place and below it. -/
structure FsCall.Spares (fs : LightningFs) (top : List Text) (call : FsCall) (db : fs.Db) :
    Prop where
  unread : ∀ path, call = .readFile path ∨ call = .readdir path → ¬ top <+: locate path
  unchanged : ∀ place, top <+: place →
    (fs.tree (fs.call call db).2).content place = (fs.tree db).content place

variable {fs : LightningFs} {top dir : List Text} {call : FsCall} {path : Text}

/-- A call on places apart from the directory spares it. -/
theorem FsCall.spares_of_apart (apart : ∀ place ∈ call.places, Apart place top) (db : fs.Db) :
    call.Spares fs top db where
  unread := by
    rintro path (rfl | rfl)
    · exact (apart _ (List.mem_singleton_self _)).not_below List.prefix_rfl
    · exact (apart _ (List.mem_singleton_self _)).not_below List.prefix_rfl
  unchanged place below := by
    have same : (fs.tree (fs.call call db).2).node place = (fs.tree db).node place :=
      fs.frame fun target member above => (apart target member).not_below above below
    simp only [DirectoryTree.content, same]

/-- A `stat` spares every directory. -/
theorem FsCall.spares_stat (path : Text) (db : fs.Db) : (stat path).Spares fs top db where
  unread := by rintro other (same | same) <;> cases same
  unchanged place _ := by rw [fs.stat_same]

/-- A new directory takes the place of no file. -/
theorem FsCall.spares_mkdir (path : Text) (db : fs.Db) : (mkdir path).Spares fs top db where
  unread := by rintro other (same | same) <;> cases same
  unchanged place _ := by
    cases found : (fs.tree db).node (locate path) with
    | some node => rw [(fs.mkdir_exists (by rw [found]; rfl)).2]
    | none =>
        have inside : locate path ≠ [] := by
          intro root
          rw [root, (fs.tree db).root] at found
          cases found
        -- Nothing was there, and nothing but directories comes there.
        by_cases below : locate path <+: place
        swap
        · have same : (fs.tree (fs.call (mkdir path) db).2).node place = (fs.tree db).node place :=
            fs.frame fun target member => by rwa [List.mem_singleton.mp member]
          simp only [DirectoryTree.content, same]
        cases parent : (fs.tree db).node (locate path).dropLast with
        | none => rw [(fs.mkdir_orphan parent).2]
        | some node =>
            cases node with
            | directory =>
                rw [DirectoryTree.content, DirectoryTree.content, (fs.mkdir_new parent found).2]
                by_cases here : place = locate path
                · rw [here, Function.update_self, found]
                · rw [Function.update_of_ne here]
            | file content =>
                have short : ¬ locate path <+: (locate path).dropLast := by
                  intro long
                  have less := long.length_le
                  have some_ := List.length_pos_of_ne_nil inside
                  rw [List.length_dropLast] at less
                  omega
                have kept : (fs.tree (fs.call (mkdir path) db).2).node (locate path).dropLast =
                    some (.file content) := by
                  rw [fs.frame fun target member => by rwa [List.mem_singleton.mp member], parent]
                have nothing : ∀ tree : Tree,
                    tree.node (locate path).dropLast = some (.file content) →
                    tree.node place = none := by
                  intro tree file
                  have above : (locate path).dropLast <+: place :=
                    (List.dropLast_prefix _).trans below
                  obtain ⟨rest, rfl⟩ := above
                  refine tree.node_below_eq_none (by simp [file]) ?_
                  rintro rfl
                  rw [List.append_nil] at below
                  exact short below
                simp only [DirectoryTree.content, nothing _ kept, nothing _ parent]

/-! ## Programs -/

variable {α β : Type} {context : Context} {gives : α → Prop} {later : β → Prop}

/-- Every call that the program makes spares the place. -/
def Spares (top : List Text) (program : PgM α) (self : PgExplorer) (disk : Disk fs) : Prop :=
  program.Asks (Interference.nobody.setting fs True) (fun call disk => call.Spares fs top disk.db)
    self disk

/-- In the context the program spares the place and keeps the context; if it returns a value,
the value is one that it can give. -/
structure Sparing (top : List Text) (context : Context) (program : PgM α) (gives : α → Prop) :
    Prop where
  spares : ∀ (fs : LightningFs) (self : PgExplorer) (disk : Disk fs), self.context = context →
    Spares top program self disk
  ends : ∀ (fs : LightningFs) (self : PgExplorer) (disk : Disk fs), self.context = context →
    program.Ensures (Interference.nobody.setting fs True) self disk fun result self' _ =>
      self'.context = context ∧ ∀ value, result = .ok value → gives value

namespace Sparing

/-- A returned value spares everything. -/
theorem pure {value : α} (given : gives value) : Sparing top context (pure value) gives where
  spares _ _ _ _ := trivial
  ends _ _ _ here := ⟨here, by rintro _ ⟨⟩; exact given⟩

/-- A thrown error spares everything. -/
theorem throw (error : JsError) : Sparing top context (throw error : PgM α) gives where
  spares _ _ _ _ := trivial
  ends _ _ _ here := ⟨here, nofun⟩

/-- A program without calls spares everything. -/
theorem endless : Sparing top context (Async.endless : PgM α) gives where
  spares _ _ _ _ := trivial
  ends _ _ _ _ := trivial

/-- A synchronous step spares everything. -/
theorem sync {f : PgExplorer → Except JsError α}
    (given : ∀ self value, self.context = context → f self = .ok value → gives value) :
    Sparing top context (PgM.sync f) gives where
  spares _ _ _ _ := trivial
  ends _ self _ here := ⟨here, fun value ok => given self value here ok⟩

/-- A change that keeps the context spares everything. -/
theorem modify {f : PgExplorer → PgExplorer}
    (kept : ∀ self, self.context = context → (f self).context = context) :
    Sparing top context (modify f : PgM Unit) fun _ => True where
  spares _ _ _ _ := trivial
  ends _ self _ here := ⟨kept self here, fun _ _ => trivial⟩

/-- A single call spares what its serving spares. -/
theorem request (spared : ∀ (fs : LightningFs) (db : fs.Db), call.Spares fs top db)
    {gives : call.Payload → Prop}
    (answers : ∀ (fs : LightningFs) (disk : Disk fs) value, (disk.serve call).1 = .ok value →
      gives value) : Sparing top context (PgFs.request call) gives where
  spares fs self disk _ := by
    refine Async.Asks.bind (Async.asks_perform fun _ disk _ => spared fs disk.db)
      (Async.ensures_trivial trivial) ?_
    rintro (error | value) state disk' -
    · trivial
    · trivial
  ends fs self disk here := by
    have acts : Acts .nobody True context (PgFs.request call) disk
        fun result _ => ∀ value, result = .ok value → gives value :=
      acts_request fun value served => answers fs disk value served
    refine (acts self here).mono ?_
    rintro result _ disk' ⟨rfl, given⟩
    exact ⟨here, given⟩

/-- Sparing programs follow one another. -/
theorem bind {first : PgM α} {next : α → PgM β} (sparing : Sparing top context first gives)
    (rest : ∀ value, gives value → Sparing top context (next value) later) :
    Sparing top context (first >>= next) later where
  spares fs self disk here := by
    refine Async.Asks.bind (sparing.spares fs self disk here) (sparing.ends fs self disk here) ?_
    rintro value state disk' ⟨same, given⟩
    exact (rest value (given value rfl)).spares fs state disk' same
  ends fs self disk here := by
    refine (sparing.ends fs self disk here).bind ?_ ?_
    · rintro value state disk' ⟨same, given⟩
      exact (rest value (given value rfl)).ends fs state disk' same
    · rintro error state disk' ⟨same, -⟩
      exact ⟨same, nofun⟩

/-- A sparing program with a sparing handler spares. -/
theorem tryCatch {program : PgM α} {handler : JsError → PgM α}
    (sparing : Sparing top context program gives)
    (caught : ∀ error, Sparing top context (handler error) gives) :
    Sparing top context (tryCatch program handler) gives where
  spares fs self disk here := by
    refine Async.Asks.tryCatch (sparing.spares fs self disk here)
      (sparing.ends fs self disk here) ?_
    rintro error state disk' ⟨same, -⟩
    exact (caught error).spares fs state disk' same
  ends fs self disk here := by
    rw [Async.ensures_tryCatch]
    refine (sparing.ends fs self disk here).mono ?_
    rintro (error | value) state disk' ⟨same, given⟩
    · exact (caught error).ends fs state disk' same
    · exact ⟨same, given⟩

/-- A loop of sparing bodies spares. -/
theorem forM {body : β → PgM Unit} {items : List β}
    (sparing : ∀ item ∈ items, Sparing top context (body item) fun _ => True) :
    Sparing top context (items.forM body) fun _ => True := by
  induction items with
  | nil => exact pure trivial
  | cons item rest ih =>
      refine (sparing item List.mem_cons_self).bind fun _ _ => ih ?_
      exact fun other member => sparing other (List.mem_cons_of_mem _ member)

/-- Both branches of a condition spare. -/
theorem ite {condition : Prop} [Decidable condition] {first second : PgM α}
    (sparing : condition → Sparing top context first gives)
    (other : ¬ condition → Sparing top context second gives) :
    Sparing top context (if condition then first else second) gives := by
  by_cases holds : condition
  · rw [if_pos holds]
    exact sparing holds
  · rw [if_neg holds]
    exact other holds

/-- The state that is read has the context. -/
theorem get_bind {next : PgExplorer → PgM β}
    (rest : ∀ self, self.context = context → Sparing top context (next self) later) :
    Sparing top context ((MonadState.get : PgM PgExplorer) >>= next) later where
  spares fs self disk here := (rest self here).spares fs self disk here
  ends fs self disk here := (rest self here).ends fs self disk here

/-- In a temporary project the store is not asked at all. -/
theorem unlessTemporary {program : PgM Unit}
    (sparing : context.isTemporary = false → Sparing top context program fun _ => True) :
    Sparing top context (PgExplorer.unlessTemporary program) fun _ => True := by
  refine get_bind fun self here => ite (fun _ => pure trivial) fun stored => sparing ?_
  rw [← here]
  exact Bool.eq_false_iff.mpr stored

end Sparing

/-! ## `PgFs` -/

/-- `getMetadata` spares every directory. -/
theorem sparing_getMetadata (path : Text) :
    Sparing top context (PgFs.getMetadata path) fun _ => True := by
  refine Sparing.bind (Sparing.sync fun _ _ _ _ => trivial) fun path _ => ?_
  exact Sparing.request (fun _ db => FsCall.spares_stat path db) fun _ _ _ _ => trivial

/-- The loop of `createDir` spares every directory, since it overwrites nothing. -/
theorem sparing_createFolders (currentPath : Text) (folders : List Text) :
    Sparing top context (PgFs.createFolders currentPath folders) fun _ => True := by
  induction folders generalizing currentPath with
  | nil => exact .pure trivial
  | cons folder rest ih =>
      have exists_ : Sparing top context (PgFs.exists_ (currentPath ++ slash ++ folder))
          fun _ => True := by
        refine Sparing.bind (Sparing.sync fun _ _ _ _ => trivial) fun path _ => ?_
        refine Sparing.tryCatch ?_ fun error => ?_
        · exact (sparing_getMetadata path).bind fun _ _ => .pure trivial
        · exact .ite (fun _ => .pure trivial) fun _ => .throw error
      refine exists_.bind fun found _ => ?_
      cases found with
      | true => exact ih _
      | false =>
          refine Sparing.bind (Sparing.request (fun _ db => FsCall.spares_mkdir _ db)
            fun _ _ _ _ => trivial) fun _ _ => ih _

/-- `createDir` spares every directory. -/
theorem sparing_createDir (path : Text) :
    Sparing top context (PgFs.createDir path true) fun _ => True :=
  Sparing.bind (Sparing.sync fun _ _ _ _ => trivial) fun _ _ => sparing_createFolders _ _

/-- The full paths of a path in the context lead to places apart from `top`. -/
def LeadsApart (context : Context) (top : List Text) (path : Text) : Prop :=
  ∀ (self : PgExplorer) full, self.context = context → self.convertToFullPath path = .ok full →
    Apart (locate full) top

/-- Continue with the full path. -/
theorem sparing_full (apart : LeadsApart context top path) {next : Text → PgM α}
    (asks : ∀ full, full.startsWith slash = true → Apart (locate full) top →
      Sparing top context (next full) gives) :
    Sparing top context (PgM.sync (·.convertToFullPath path) >>= next) gives := by
  have full : Sparing top context (PgM.sync (·.convertToFullPath path))
      fun full => full.startsWith slash = true ∧ Apart (locate full) top :=
    .sync fun self full here found => ⟨startsWith_slash_of_convert found, apart self full here found⟩
  exact full.bind fun full both => asks full both.1 both.2

/-- A call about one place. -/
theorem sparing_call {place : List Text} (apart : Apart place top) (single : call.places = [place]) :
    Sparing top context (PgFs.request call) fun _ => True := by
  refine Sparing.request (fun fs db => FsCall.spares_of_apart ?_ db) fun _ _ _ _ => trivial
  intro target member
  rw [single, List.mem_singleton] at member
  rwa [member]

/-- `writeFile` of a path that leads elsewhere spares the directory. -/
theorem sparing_writeFile (apart : LeadsApart context top path) (data : Text) :
    Sparing top context (PgFs.writeFile path data true) fun _ => True := by
  refine sparing_full apart fun full _ apart => (sparing_createDir _).bind fun _ _ => ?_
  exact sparing_call apart rfl

/-- `readToString` of a path that leads elsewhere spares the directory. -/
theorem sparing_readToString (apart : LeadsApart context top path) :
    Sparing top context (PgFs.readToString path) fun _ => True :=
  sparing_full apart fun _ _ apart => sparing_call apart rfl

/-- `removeFile` of a path that leads elsewhere spares the directory. -/
theorem sparing_removeFile (apart : LeadsApart context top path) :
    Sparing top context (PgFs.removeFile path) fun _ => True :=
  sparing_full apart fun _ _ apart => sparing_call apart rfl

/-- `rename` between paths that lead elsewhere spares the directory. -/
theorem sparing_rename {oldPath newPath : Text} (apart : LeadsApart context top oldPath)
    (apartNew : LeadsApart context top newPath) :
    Sparing top context (PgFs.rename oldPath newPath) fun _ => True := by
  refine sparing_full apart fun oldFull _ apart => sparing_full apartNew fun newFull _ apartNew => ?_
  refine Sparing.request (fun fs db => FsCall.spares_of_apart ?_ db) fun _ _ _ _ => trivial
  intro place member
  obtain rfl | rfl : place = locate oldFull ∨ place = locate newFull := by
    simpa [FsCall.places] using member
  · exact apart
  · exact apartNew

/-- A call that succeeds has been answered by the package. -/
theorem Disk.call_of_serve {disk : Disk fs} {value : call.Payload}
    (served : (disk.serve call).1 = .ok value) : (fs.call call disk.db).1 = .ok value := by
  obtain ⟨db, faults⟩ := disk
  cases faults with
  | nil => exact served
  | cons fault rest =>
      cases fault with
      | none => exact served
      | some interrupted => cases served

/-- What a directory lists are names. -/
theorem serve_readdir {disk : Disk fs} {names : List Text}
    (served : (disk.serve (.readdir path)).1 = .ok names) : ∀ name ∈ names, UnixPath.IsName name := by
  have listed := Disk.call_of_serve served
  cases found : (fs.tree disk.db).node (locate path) with
  | none =>
      obtain ⟨message, missing⟩ := fs.readdir_missing found
      rw [missing] at listed
      cases listed
  | some node =>
      cases node with
      | file content =>
          obtain ⟨message, refused⟩ := fs.readdir_file found
          rw [refused] at listed
          cases listed
      | directory =>
          obtain ⟨entries, answer, -, members⟩ := fs.readdir_found found
          obtain rfl : entries = names := Except.ok.inj (answer.symm.trans listed)
          exact fun name member => fs.named ((members name).mp member) name (by simp)

/-- `readDir` of a path that leads elsewhere spares the directory and lists plain names. -/
theorem sparing_readDir (apart : LeadsApart context top path) :
    Sparing top context (PgFs.readDir path) fun names => ∀ name ∈ names, UnixPath.IsName name := by
  refine sparing_full apart fun full _ apart => ?_
  refine Sparing.request (fun fs db => FsCall.spares_of_apart ?_ db) fun _ _ _ => serve_readdir
  intro place member
  rwa [List.mem_singleton.mp member]

/-! ## Below a directory -/

/-- A full path that leads to a place or below it. -/
def FullBelow (home : List Text) (path : Text) : Prop :=
  path.startsWith slash = true ∧ home <+: locate path

variable {home : List Text} {name : Text}

/-- What lies below another directory leads elsewhere. -/
theorem FullBelow.leadsApart (below : FullBelow home path) (apart : Apart home top) :
    LeadsApart context top path := by
  intro self full _ found
  obtain rfl : path = full := Except.ok.inj ((if_pos below.1).symm.trans found)
  exact apart.below below.2

/-- A child of what lies below lies below. -/
theorem FullBelow.joinPaths (below : FullBelow home path) (isName : UnixPath.IsName name) :
    FullBelow home (joinPaths path name) := by
  refine ⟨joinPaths_startsWith_slash below.1 name, ?_⟩
  rw [locate_joinPaths_name isName]
  exact below.2.trans (List.prefix_append _ _)

/-- A slash behind a path does not move it. -/
theorem FullBelow.slash (below : FullBelow home path) : FullBelow home (path ++ slash) := by
  have place : locate (path ++ Utils.slash) = locate path := UnixPath.location_append_slash path []
  have starts := (startsWith_iff _ _).mp below.1
  exact ⟨(startsWith_iff _ _).mpr (starts.trans (List.prefix_append _ _)), place ▸ below.2⟩

/-- `appendSlash` does not move a path. -/
theorem FullBelow.appendSlash (below : FullBelow home path) : FullBelow home (appendSlash path) := by
  rw [PgCommon.appendSlash]
  split
  · exact below
  · exact below.slash

/-- Behind a slash a name is joined as it is. -/
theorem FullBelow.entry (below : FullBelow home path) (ends : path.endsWith Utils.slash = true)
    (isName : UnixPath.IsName name) : FullBelow home (path ++ name) := by
  have relative : ¬ name.startsWith Utils.slash = true := by
    rw [startsWith_iff]
    exact fun starts => isName.2.1 (starts.subset (List.mem_singleton_self _))
  have joined := below.joinPaths isName
  rwa [PgCommon.joinPaths, appendSlash_of_endsWith ends, withoutPreSlash_of_relative relative] at joined

/-- The canonical path of an entry. -/
theorem FullBelow.canonical {self : PgExplorer} {subItemPath : Text} (below : FullBelow home path)
    (isName : UnixPath.IsName name)
    (found : self.getCanonicalPath (PgCommon.joinPaths path name) = .ok subItemPath) :
    FullBelow home subItemPath := by
  have entry := below.joinPaths isName
  rw [PgExplorer.getCanonicalPath, PgExplorer.convertToFullPath, if_pos entry.1] at found
  simp only [Except.map, Except.ok.injEq] at found
  rw [← found]
  split
  · exact entry
  · exact entry.appendSlash

/-- Deleting what is below a directory asks for nothing else. -/
theorem sparing_recursivelyRmdir {fuel : Nat} {names : List Text} (apart : Apart home top)
    (below : FullBelow home path) (ends : path.endsWith slash = true)
    (areNames : ∀ name ∈ names, UnixPath.IsName name) :
    Sparing top context (PgFs.recursivelyRmdir fuel names path) fun _ => True := by
  induction fuel generalizing names path with
  | zero => exact .endless
  | succ fuel ih =>
      have remove : ∀ {path}, FullBelow home path →
          Sparing top context (PgFs.request (.rmdir path)) fun _ => True :=
        fun below => sparing_call (apart.below below.2) rfl
      rw [PgFs.recursivelyRmdir]
      refine .ite (fun _ => remove below) fun _ => ?_
      refine Sparing.bind (Sparing.forM fun childName member => ?_) fun _ _ => ?_
      · have child := below.entry ends (areNames childName member)
        refine (sparing_getMetadata _).bind fun metadata _ => ?_
        cases metadata with
        | file => exact sparing_removeFile (child.leadsApart apart)
        | directory =>
            refine (sparing_readDir (child.leadsApart apart)).bind fun childDir areNames => ?_
            exact .ite (fun _ => ih child.slash (endsWith_slash _) areNames) fun _ => remove child
      · refine (sparing_readDir (below.leadsApart apart)).bind fun names _ => ?_
        exact .ite (fun _ => remove below) fun _ => .pure trivial

/-- `removeDir` below another directory spares this one. -/
theorem sparing_removeDir {fuel : Nat} (apart : Apart home top) (below : FullBelow home path)
    (ends : path.endsWith slash = true) :
    Sparing top context (PgFs.removeDir fuel path) fun _ => True := by
  have full : ∀ (self : PgExplorer) found, self.context = context →
      self.convertToFullPath path = .ok found → found = path :=
    fun _ _ _ found => (Except.ok.inj ((if_pos below.1).symm.trans found)).symm
  refine Sparing.bind (Sparing.sync full) fun found same => ?_
  subst same
  refine (sparing_readDir (below.leadsApart apart)).bind fun names areNames => ?_
  exact sparing_recursivelyRmdir apart below ends areNames

namespace PgExplorer

/-- `removeItem` below another directory spares this one. -/
theorem sparing_removeItem {fuel : Nat} (apart : Apart home top) (below : FullBelow home path)
    (ends : path.endsWith slash = true) :
    Sparing top context (removeItem fuel path) fun _ => True := by
  refine (sparing_getMetadata path).bind fun metadata _ => ?_
  cases metadata with
  | file => exact sparing_removeFile (below.leadsApart apart)
  | directory => exact sparing_removeDir apart below ends

/-- Loading the files of a directory asks for nothing else. -/
theorem sparing_setupFiles {fuel : Nat} (apart : Apart home top) (below : FullBelow home path) :
    Sparing top context (setupFiles fuel path) fun _ => True := by
  induction fuel generalizing path with
  | zero => exact .endless
  | succ fuel ih =>
      rw [setupFiles]
      refine (sparing_readDir (below.leadsApart apart)).bind fun itemNames areNames => ?_
      refine .ite (fun _ => .modify fun _ here => here) fun _ => ?_
      have paths : Sparing top context
          (PgM.sync fun self => (itemNames.filter isItemNameValid).mapM fun itemName =>
            self.getCanonicalPath (joinPaths path itemName))
          fun paths => ∀ subItemPath ∈ paths, FullBelow home subItemPath := by
        refine .sync fun self paths _ found subItemPath member => ?_
        obtain ⟨itemName, listed, canonical⟩ := Outcome.exists_of_mem_results found member
        exact below.canonical (areNames itemName (List.mem_of_mem_filter listed)) canonical
      refine paths.bind fun subItemPaths belows => .forM fun subItemPath member => ?_
      have here := belows subItemPath member
      refine (sparing_getMetadata _).bind fun metadata _ => ?_
      cases metadata with
      | directory => exact ih here
      | file =>
          refine .tryCatch ?_ fun _ => .pure trivial
          exact (sparing_readToString (here.leadsApart apart)).bind fun content _ =>
            .modify fun _ here => here

end PgExplorer

/-! ## The current workspace -/

/-- The place of the directory of a workspace. -/
def workspaceDirectory (name : Text) : List Text := locate (joinPaths slash (appendSlash name))

/-- A workspace has its directory at its name. -/
theorem workspaceDirectory_eq (name : Text) : workspaceDirectory name = locate name := by
  have followed : ∀ path : Text,
      locate path = UnixPath.follow [] (UnixPath.ofText path).components :=
    fun path => by simp [locate, UnixPath.location]
  rw [workspaceDirectory, locate_joinPaths, ← locate_appendSlash name, followed (appendSlash name)]
  rfl

/-- The project is not temporary, and its workspace has the directory. -/
structure Context.InDirectory (context : Context) (home : List Text) : Prop where
  stored : context.isTemporary = false
  current : ∀ name, context.workspaces.currentName = some name → workspaceDirectory name = home

variable {self : PgExplorer}

/-- A current workspace path is that of a named workspace. -/
theorem currentName_of_path (found : self.getRequiredCurrentWorkspacePath = .ok path) :
    ∃ name, self.workspaces.currentName = some name ∧ name ≠ [] ∧
      path = joinPaths slash (appendSlash name) := by
  rw [PgExplorer.getRequiredCurrentWorkspacePath] at found
  split at found
  · cases found
  · cases current : self.workspaces.currentName with
    | none =>
        rw [current] at found
        cases found
    | some name =>
        rw [current] at found
        cases name with
        | nil => cases found
        | cons first rest => exact ⟨_, rfl, List.cons_ne_nil first rest, (Except.ok.inj found).symm⟩

/-- A path that ends in a slash still does behind the change. -/
theorem endsWith_withoutPreSlash (ends : path.endsWith slash = true) :
    (slash ++ withoutPreSlash path).endsWith slash = true := by
  rw [endsWith_iff] at ends ⊢
  cases path with
  | nil => exact List.suffix_rfl
  | cons first rest =>
      by_cases preSlash : first = '/'
      · rw [preSlash] at ends ⊢
        exact ends
      · rw [withoutPreSlash_of_relative fun starts => ?_]
        · exact ends.trans (List.suffix_append _ _)
        · exact preSlash (List.cons_prefix_cons.mp ((startsWith_iff _ _).mp starts)).1.symm

/-- The path of the current workspace. -/
theorem Context.InDirectory.fullBelow (within : self.context.InDirectory home)
    (found : self.getRequiredCurrentWorkspacePath = .ok path) :
    FullBelow home path ∧ path.endsWith slash = true := by
  obtain ⟨name, current, -, rfl⟩ := currentName_of_path found
  refine ⟨⟨joinPaths_startsWith_slash rfl _, ?_⟩, ?_⟩
  · exact (within.current name current).symm ▸ List.prefix_rfl
  · exact endsWith_withoutPreSlash (endsWith_appendSlash name)

/-- The full path depends on the context alone. -/
theorem convertToFullPath_of_context {other : PgExplorer} (same : other.context = self.context)
    (path : Text) : other.convertToFullPath path = self.convertToFullPath path := by
  have temporary : other.isTemporary = self.isTemporary := congrArg Context.isTemporary same
  have hasWorkspace : other.hasWorkspace = self.hasWorkspace := congrArg Context.hasWorkspace same
  have workspaces : other.workspaces = self.workspaces := congrArg Context.workspaces same
  simp only [PgExplorer.convertToFullPath, PgExplorer.getProjectRootPath,
    PgExplorer.getRequiredCurrentWorkspacePath, temporary, hasWorkspace, workspaces]

/-- A relative path that does not go up leads below the directory of the workspace. -/
theorem Context.InDirectory.leadsApart (within : context.InDirectory home) (apart : Apart home top)
    (relative : path.startsWith slash = false)
    (down : ∀ name ∈ (UnixPath.ofText path).components, name ≠ UnixPath.dotDot) :
    LeadsApart context top path := by
  rintro self full rfl found
  have stored : self.isTemporary = false := within.stored
  rw [PgExplorer.convertToFullPath, relative, if_neg (by simp), PgExplorer.getProjectRootPath,
    stored, if_neg (by simp)] at found
  cases root : self.getRequiredCurrentWorkspacePath with
  | error error =>
      rw [root] at found
      cases found
  | ok rootPath =>
      rw [root] at found
      obtain rfl : joinPaths rootPath path = full := Except.ok.inj found
      refine apart.below ?_
      rw [locate_joinPaths, UnixPath.follow_of_names down]
      exact (within.fullBelow root).1.2.trans (List.prefix_append _ _)

namespace PgExplorer

variable {browser : Browser}

/-- `saveMeta` in another workspace spares the directory. -/
theorem sparing_saveMeta (within : context.InDirectory home) (apart : Apart home top) :
    Sparing top context (saveMeta browser) fun _ => True := by
  refine Sparing.bind (Sparing.sync fun _ _ _ _ => trivial) fun saved _ => ?_
  cases saved with
  | none => exact .pure trivial
  | some metaFile => exact sparing_writeFile (within.leadsApart apart rfl (by decide)) _

/-- `loadMetadata` in another workspace spares the directory. -/
theorem sparing_loadMetadata (within : context.InDirectory home) (apart : Apart home top) :
    Sparing top context (loadMetadata browser) fun _ => True := by
  have entries : Sparing top context (tryCatch
      (do
        let text ← PgFs.readToString METADATA_PATH
        pure ((browser.parseMetaFile text).getD []))
      fun _ => pure [] : PgM (List ItemMetaEntry)) fun _ => True := by
    refine .tryCatch ?_ fun _ => .pure trivial
    exact (sparing_readToString (within.leadsApart apart rfl (by decide))).bind fun _ _ =>
      .pure trivial
  refine entries.bind fun metaFile _ => ?_
  exact Sparing.bind (Sparing.sync fun _ _ _ _ => trivial) fun _ _ =>
    .modify fun _ here => here

/-- `deleteItem` in another workspace spares the directory. -/
theorem sparing_deleteItem {fuel : Nat} (within : context.InDirectory home) (apart : Apart home top)
    (below : FullBelow home path) (ends : path.endsWith slash = true) :
    Sparing top context (deleteItem browser fuel path) fun _ => True := by
  have full : ∀ (self : PgExplorer) found, self.context = context →
      self.convertToFullPath path = .ok found → found = path :=
    fun _ _ _ found => (Except.ok.inj ((if_pos below.1).symm.trans found)).symm
  refine Sparing.bind (Sparing.sync full) fun found same => ?_
  subst same
  refine Sparing.bind (Sparing.sync fun _ _ _ _ => trivial) fun _ _ => ?_
  refine Sparing.bind (.unlessTemporary fun _ => sparing_removeItem apart below ends) fun _ _ => ?_
  refine Sparing.bind (.modify fun self here => (deletedItem_context _ self).trans here)
    fun _ _ => ?_
  exact sparing_saveMeta within apart

/-- `renameItem` in another workspace spares the directory. -/
theorem sparing_renameItem {oldPath newPath : Text} {opts : RenameItemOptions}
    (within : context.InDirectory home) (apart : Apart home top)
    (apartOld : LeadsApart context top oldPath) (apartNew : LeadsApart context top newPath) :
    Sparing top context (renameItem browser oldPath newPath opts) fun _ => True := by
  refine sparing_full apartOld fun oldFull fullOld apartOld =>
    sparing_full apartNew fun newFull fullNew apartNew => ?_
  refine .ite (fun _ => .pure trivial) fun _ => ?_
  refine Sparing.bind (Sparing.sync fun _ _ _ _ => trivial) fun _ _ => ?_
  refine Sparing.bind (.unlessTemporary fun _ => sparing_rename ?_ ?_) fun _ _ => ?_
  · exact FullBelow.leadsApart ⟨fullOld, List.prefix_rfl⟩ apartOld
  · exact FullBelow.leadsApart ⟨fullNew, List.prefix_rfl⟩ apartNew
  · refine Sparing.bind (.modify fun self here => (renamedItem_context _ _ _ self).trans here)
      fun _ _ => ?_
    exact sparing_saveMeta within apart

end PgExplorer
end Solpg.Client.Utils
