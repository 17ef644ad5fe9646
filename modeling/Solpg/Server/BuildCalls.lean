import Solpg.Server.WritePhase
import Solpg.Std.PerformedCalls

/-!
# The file calls of a build, performed

`ProgramFiles.build` is the calls that a build makes, with the paths as the client wrote them;
`Program.build` is what becomes of the files. Up to the compiler the second is the first,
performed: whatever is proved of the calls and of the files is proved of one build.
-/

namespace Solpg.Server.ProgramFiles

open Solpg.Std
open Solpg.Server.Program (Environment SourceNames)

variable {Idl : Type} {env : Environment Idl} {name uuid : Text}

/-- Where a path from the working directory leads in the tree of files. -/
def place (path : UnixPath) : Path := path.components.map String.ofList

/-- What a build leaves to others: how the bytes of a file are decoded, and the calls that it
does not make before the compiler runs. -/
structure Outside where
  decode : ByteArray → FileBytes
  other : (call : FileCall) → World ByteArray → call.Answer × World ByteArray

/-- The operation on the files that a call stands for. -/
def Outside.serve (outside : Outside) :
    (call : FileCall) → World ByteArray → call.Answer × World ByteArray
  | .exists_ path => FileM.exists_ (place path)
  | .read path => fun world =>
      ((FileM.read (place path) world).1.map outside.decode, (FileM.read (place path) world).2)
  | .write path (.text text) => FileM.write (place path) (String.ofList text).toUTF8
  | .createDirAll path => FileM.createDirAll (place path)
  | .removeDirAll path => FileM.removeDirAll (place path)
  | .copy source target => FileM.copy (place source) (place target)
  | call => outside.other call

/-- The files of a request as strings. -/
def named (files : List (Text × Text)) : Program.Files :=
  files.map fun file => (String.ofList file.1, String.ofList file.2)

variable {outside : Outside}

/-! ## Places -/

/-- A name below the programs is a path of two components. -/
theorem inPrograms_of_isName (isName : UnixPath.IsName name) :
    inPrograms name = ⟨false, [programsDir, name]⟩ := by
  rw [inPrograms, UnixPath.join_name isName, UnixPath.ofText_of_isName (by decide)]
  rfl

/-- The directory of a program is where its path leads. -/
theorem place_program (isName : UnixPath.IsName uuid) :
    place (inPrograms uuid) = Program.programPath (String.ofList uuid) := by
  rw [inPrograms_of_isName isName]
  rfl

/-- The directory of a compiler is where its path leads. -/
theorem place_concurrency (concurrencyId : Nat) :
    place (concurrencyPath concurrencyId) = Program.concurrencyPath concurrencyId := by
  rw [concurrencyPath, place_program (Confinement.isName_of_number concurrencyId),
    String.ofList_toList]
  rfl

/-- A name joined to a path is one component more. -/
theorem place_join (isName : UnixPath.IsName name) (base : UnixPath) :
    place (base.join (.ofText name)) = place base ++ [String.ofList name] := by
  rw [UnixPath.join_name isName, place, UnixPath.entry, List.map_append]
  rfl

/-- The components of an accepted path are names. -/
theorem relativePath_of_isValid {path : Text} (valid : env.isValid (String.ofList path) = true) :
    relativePath path = ⟨false, (Program.relativePath (String.ofList path)).map String.toList⟩ := by
  obtain ⟨directories, file, relative, names⟩ := Program.relativePath_of_accepted valid
  have pieces : (path.dropWhile (· = '/')).splitOn '/' =
      (Program.relativePath (String.ofList path)).map String.toList := by
    simp [Program.relativePath]
    rfl
  have areNames : ∀ piece ∈ (Program.relativePath (String.ofList path)).map String.toList,
      UnixPath.IsName piece := by
    intro piece member
    obtain ⟨component, among, rfl⟩ := List.mem_map.mp member
    rw [relative] at among
    rcases List.mem_cons.mp among with rfl | among
    · decide
    · rcases List.mem_append.mp among with directory | last
      · exact (names.directories component directory).2
      · exact List.mem_singleton.mp last ▸ names.isName
  have noSlash : (path.dropWhile (· = '/')).head? ≠ some '/' := by
    intro first
    have := List.head?_dropWhile_not (fun char => decide (char = '/')) path
    rw [first] at this
    simp at this
  rw [relativePath, UnixPath.ofText, pieces, decide_eq_false noSlash]
  congr 1
  refine List.filter_eq_self.mpr fun piece member => ?_
  obtain ⟨nonempty, -, notDot, -⟩ := areNames piece member
  simp [nonempty, notDot]

/-! ## The phases, performed -/

/-- Asking whether something is there, performed. -/
theorem perform_exists (path : UnixPath) :
    (orFail (FileCall.exists_ path).io : ProgramM Bool).perform outside.serve =
      Program.orFail (FileM.exists_ (place path)) := Calls.perform_mapError

/-- Writing a text, performed. -/
theorem perform_write (path : UnixPath) (text : Text) :
    (orFail (FileCall.write path (.text text)).io : ProgramM Unit).perform outside.serve =
      Program.orFail (FileM.write (place path) (String.ofList text).toUTF8) :=
  Calls.perform_mapError

/-- Making directories, performed. -/
theorem perform_createDirAll (path : UnixPath) :
    (orFail (FileCall.createDirAll path).io : ProgramM Unit).perform outside.serve =
      Program.orFail (FileM.createDirAll (place path)) := Calls.perform_mapError

/-- Copying a file, performed. -/
theorem perform_copy (source target : UnixPath) :
    (orFail (FileCall.copy source target).io : ProgramM Unit).perform outside.serve =
      Program.orFail (FileM.copy (place source) (place target)) := Calls.perform_mapError

theorem perform_checkFiles (env : Environment Idl) (files : List (Text × Text)) :
    (checkFiles env files).perform outside.serve = Program.checkFiles env (named files) := by
  have found : (named files).find? (fun file => !env.isValid file.1) =
      (files.find? fun file => !env.isValid (String.ofList file.1)).map fun file =>
        (String.ofList file.1, String.ofList file.2) := List.find?_map ..
  have count : (named files).length = files.length := List.length_map ..
  rw [checkFiles, Program.checkFiles, count, found]
  split
  · rfl
  · cases files.find? fun file => !env.isValid (String.ofList file.1) with
    | none => rfl
    | some file => rfl

/-- The names that a build itself gives to entries. -/
structure OwnNames : Prop where
  toml : UnixPath.IsName "Cargo.toml".toList
  lock : UnixPath.IsName "Cargo.lock".toList
  ready : UnixPath.IsName "ready".toList
  src : UnixPath.IsName "src".toList

theorem ownNames : OwnNames := ⟨by decide, by decide, by decide, by decide⟩

theorem perform_initConcurrency (concurrencyId : Nat) :
    (initConcurrency concurrencyId).perform outside.serve =
      Program.initConcurrency concurrencyId := by
  have empty : (String.ofList []).toUTF8 = ByteArray.empty := rfl
  simp only [initConcurrency, Program.initConcurrency, Calls.perform_bind, perform_exists,
    place_join ownNames.ready, place_concurrency, String.ofList_toList]
  congr 1
  funext ready
  cases ready with
  | true =>
      simp only [Bool.not_true, Bool.false_eq_true, if_true, if_false, Calls.perform_pure]
  | false =>
      simp only [Bool.false_eq_true, Bool.not_false, if_true, if_false, Calls.perform_bind,
        perform_createDirAll, perform_copy, perform_write, place_join ownNames.ready,
        place_join ownNames.toml, place_join ownNames.lock, place_program ownNames.toml,
        place_program ownNames.lock, place_concurrency, String.ofList_toList, Program.programPath,
        empty]

theorem perform_removeSources (isName : UnixPath.IsName uuid) :
    (removeSources uuid).perform outside.serve = Program.removeSources (String.ofList uuid) := by
  have sources : place ((inPrograms uuid).join (.ofText "src".toList)) =
      Program.programPath (String.ofList uuid) ++ ["src"] := by
    rw [place_join ownNames.src, place_program isName, String.ofList_toList]
  rw [removeSources, Program.removeSources, ← sources]
  refine Calls.perform_bind.trans ?_
  congr 1
  funext removed
  cases removed with
  | ok => rfl
  | error kind => cases kind <;> rfl

theorem perform_writeFile (isName : UnixPath.IsName uuid) {file : Text × Text}
    (valid : env.isValid (String.ofList file.1) = true) :
    (writeFile uuid file).perform outside.serve =
      Program.writeFile (String.ofList uuid) (String.ofList file.1, String.ofList file.2) := by
  have item : (inPrograms uuid).join (relativePath file.1) = ⟨false, [programsDir, uuid] ++
      (Program.relativePath (String.ofList file.1)).map String.toList⟩ := by
    rw [inPrograms_of_isName isName, relativePath_of_isValid valid]
    rfl
  have path : place ((inPrograms uuid).join (relativePath file.1)) =
      Program.itemPath (String.ofList uuid) (String.ofList file.1) := by
    rw [item, place, List.map_append, List.map_map, String.ofList_comp_toList, List.map_id]
    rfl
  have parent : ((inPrograms uuid).join (relativePath file.1)).parent = some
      { (inPrograms uuid).join (relativePath file.1) with
        components := ((inPrograms uuid).join (relativePath file.1)).components.dropLast } := by
    rw [UnixPath.parent, if_neg]
    simp [item]
  rw [writeFile, parent]
  simp only [Calls.perform_bind, perform_createDirAll, perform_write]
  have above : place { (inPrograms uuid).join (relativePath file.1) with
      components := ((inPrograms uuid).join (relativePath file.1)).components.dropLast } =
        (Program.itemPath (String.ofList uuid) (String.ofList file.1)).dropLast := by
    rw [← path, place, place, List.map_dropLast]
  rw [above, path]
  rfl

theorem perform_updateManifest (env : Environment Idl) (concurrencyId : Nat) (uuid : Text) :
    (updateManifest env false concurrencyId uuid).perform outside.serve =
      Program.updateManifest env concurrencyId (String.ofList uuid) := by
  have manifest : place ((concurrencyPath concurrencyId).join (.ofText "Cargo.toml".toList)) =
      Program.manifestPath concurrencyId := by
    rw [place_join ownNames.toml, place_concurrency, String.ofList_toList, Program.manifestPath]
  have content : String.ofList (Program.replaceFirst env.manifest.toList "default".toList
      ("../".toList ++ uuid)) = String.ofList (Program.replaceFirst env.manifest.toList
        "default".toList s!"../{String.ofList uuid}".toList) := by
    simp [toString]
  simp only [updateManifest, readTemplate, Bool.false_eq_true, if_false, Calls.perform_bind,
    Calls.perform_pure, perform_write, manifest, content]
  rfl

/-- The loop over accepted files, performed. -/
theorem perform_writeSources (isName : UnixPath.IsName uuid) {files : List (Text × Text)}
    (valid : ∀ file ∈ files, env.isValid (String.ofList file.1) = true) :
    (files.forM (writeFile uuid)).perform outside.serve =
      Program.writeSources (String.ofList uuid) (named files) := by
  rw [Calls.perform_forM]
  induction files with
  | nil => rfl
  | cons file rest ih =>
      have first : (writeFile uuid file).perform outside.serve = _ :=
        perform_writeFile isName (valid file List.mem_cons_self)
      have others := ih fun other member => valid other (List.mem_cons_of_mem _ member)
      exact congr (congrArg Bind.bind first) (funext fun _ => others)

/-- Up to the compiler, the files of a build are what its calls make of them. -/
theorem perform_build (outside : Outside) (env : Environment Idl) (accepted : tryParse uuid = true)
    (concurrencyId : Nat) (files : List (Text × Text)) :
    (build env false concurrencyId uuid files).perform outside.serve =
      (Program.prepare env concurrencyId (String.ofList uuid) (named files) >>= fun _ =>
        (compile concurrencyId uuid >>= respond uuid).perform outside.serve) := by
  have isName := Confinement.isName_of_tryParse accepted
  simp only [build, Program.prepare, FileM.bind_assoc, Calls.perform_bind, perform_checkFiles,
    perform_initConcurrency, perform_removeSources isName, perform_updateManifest]
  obtain ⟨error, rejected⟩ | ⟨passed, valid⟩ := Program.checkFiles_cases env (named files)
  · rw [rejected]
    rfl
  · have accepts : ∀ file ∈ files, env.isValid (String.ofList file.1) = true := fun file member =>
      valid _ (List.mem_map.mpr ⟨file, member, rfl⟩)
    rw [perform_writeSources isName accepts]

end Solpg.Server.ProgramFiles
