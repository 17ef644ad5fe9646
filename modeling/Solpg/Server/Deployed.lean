import Solpg.Server.Program

/-!
# The binary that a deployment gets

A build removes the old sources but not the old binary, and reports a failed
compilation as a normal result. So `deploy` returns the binary of the most
recent build whose compilation succeeded, compiled from exactly its files.
-/

namespace Solpg.Server.Program

open Solpg.Std

variable {Idl : Type}

/-- Every path but a program's binary. -/
def NoBinary (path : Path) : Prop := ∀ programName, path ≠ binaryPath programName

/-- A path with another third component, or none, is no binary. -/
theorem noBinary_of_getElem? {path : Path} (third : path[2]? ≠ some "solpg.so") :
    NoBinary path := by
  rintro programName rfl
  exact third rfl

/-- Short paths are not of binaries. -/
theorem noBinary_of_length_le {path : Path} (short : path.length ≤ 2) : NoBinary path := by
  apply noBinary_of_getElem?
  simp [List.getElem?_eq_none short]

/-! ## Preparing and answering leave every binary alone -/

/-- An error that is passed on touches nothing more. -/
theorem orFail_within {α : Type} {touched : Path → Prop} {call : FileM ByteArray IoErrorKind α}
    (within : call.Within touched) : (orFail call).Within touched :=
  within.mapError

/-- The checks touch nothing. -/
theorem checkFiles_within (env : Environment Idl) (files : Files) :
    (checkFiles env files).Within NoBinary := by
  simp only [checkFiles]
  split
  · exact .fail _
  · split
    · exact .fail _
    · exact .pure _

/-- The directory of a compiler has no binary. -/
theorem initConcurrency_within (concurrencyId : Nat) :
    (initConcurrency concurrencyId).Within NoBinary := by
  have file : ∀ name : String, name ≠ "solpg.so" →
      NoBinary (concurrencyPath concurrencyId ++ [name]) := by
    intro name different
    apply noBinary_of_getElem?
    simpa [concurrencyPath] using different
  refine (orFail_within ((FileM.exists_within _).mono (by simp))).bind fun ready => ?_
  split
  · refine (orFail_within ((FileM.createDirAll_within _).mono fun path above => ?_)).bind fun _ => ?_
    · exact noBinary_of_length_le above.length_le
    refine (orFail_within ((FileM.copy_within _ _).mono ?_)).bind fun _ => ?_
    · rintro path rfl
      exact file _ (by decide)
    refine (orFail_within ((FileM.copy_within _ _).mono ?_)).bind fun _ => ?_
    · rintro path rfl
      exact file _ (by decide)
    refine orFail_within ((FileM.write_within _ _).mono ?_)
    rintro path rfl
    exact file _ (by decide)
  · exact .pure _

/-- Sources are not binaries. -/
theorem noBinary_of_sources {programName : String} {path : Path}
    (below : programPath programName ++ ["src"] <+: path) : NoBinary path := by
  obtain ⟨rest, rfl⟩ := below
  apply noBinary_of_getElem?
  simp [programPath]

/-- Removing sources removes no binary. -/
theorem removeSources_within (programName : String) :
    (removeSources programName).Within NoBinary := by
  refine (FileM.Within.attempt ((FileM.removeDirAll_within _).mono fun path below =>
    noBinary_of_sources below)).bind fun result => ?_
  match result with
  | .ok () => exact .pure _
  | .error .notFound => exact .pure _
  | .error .other => exact .fail _

/-- A path that passes the check is below `src`. -/
theorem relativePath_of_isValid {env : Environment Idl} {path : String}
    (valid : env.isValid path = true) : ∃ rest, relativePath path = "src" :: rest := by
  simp only [Environment.isValid, Bool.and_eq_true, Regex.isMatch_iff] at valid
  obtain ⟨-, before, middle, after, text, matched⟩ := valid
  simp only [Environment.allowedRegex, Regex.matches_seq, Regex.matches_assertion,
    Regex.matches_literal] at matched
  obtain ⟨start, rest, rfl, ⟨rfl, atStart⟩, slash, tail, rfl, rfl, -⟩ := matched
  obtain rfl : before = [] := by simpa using atStart
  refine ⟨((tail ++ after).splitOn '/').map String.ofList, ?_⟩
  have components : ("src/".toList ++ (tail ++ after)).splitOn '/' =
      "src".toList :: (tail ++ after).splitOn '/' := by
    have split : "src/".toList ++ (tail ++ after) = "src".toList ++ '/' :: (tail ++ after) := by
      simp
    rw [split, List.splitOn_append_cons_self, List.splitOn_eq_singleton (by decide)]
    rfl
  have stripped : path.toList.dropWhile (· == '/') = "src/".toList ++ (tail ++ after) := by
    simp [text]
  rw [relativePath, stripped, components]
  simp

/-- Writing an accepted file writes no binary. -/
theorem writeFile_within {env : Environment Idl} {programName : String} {file : String × String}
    (valid : env.isValid file.1 = true) : (writeFile programName file).Within NoBinary := by
  obtain ⟨rest, relative⟩ := relativePath_of_isValid valid
  have below : ∀ path, path <+: programPath programName ++ relativePath file.1 → NoBinary path := by
    rintro path ⟨suffix, whole⟩
    apply noBinary_of_getElem?
    have third : (path ++ suffix)[2]? = some "src" := by simp [whole, relative, programPath]
    by_cases short : path.length ≤ 2
    · simp [List.getElem?_eq_none short]
    · rw [List.getElem?_append_left (by omega)] at third
      simp [third]
  refine (orFail_within ((FileM.createDirAll_within _).mono fun path above => ?_)).bind fun _ => ?_
  · exact below path (above.trans (List.dropLast_prefix _))
  · refine orFail_within ((FileM.write_within _ _).mono ?_)
    rintro path rfl
    exact below _ List.prefix_rfl

/-- `checkFiles` passes exactly the lists of valid paths, without a file call. -/
theorem checkFiles_cases (env : Environment Idl) (files : Files) :
    (∃ error, checkFiles env files = .fail error) ∨
      (checkFiles env files = pure () ∧ ∀ file ∈ files, env.isValid file.1 = true) := by
  simp only [checkFiles]
  split
  · exact .inl ⟨_, rfl⟩
  · split
    next => exact .inl ⟨_, rfl⟩
    next passed =>
      refine .inr ⟨rfl, fun file member => ?_⟩
      simpa using List.find?_eq_none.mp passed file member

/-- The manifest is not a binary. -/
theorem updateManifest_within (env : Environment Idl) (concurrencyId : Nat)
    (programName : String) : (updateManifest env concurrencyId programName).Within NoBinary := by
  refine orFail_within ((FileM.write_within _ _).mono ?_)
  rintro path rfl
  apply noBinary_of_getElem?
  simp [manifestPath, concurrencyPath]

/-- Nothing before the compiler touches a binary. -/
theorem prepare_within (env : Environment Idl) (concurrencyId : Nat) (programName : String)
    (files : Files) : (prepare env concurrencyId programName files).Within NoBinary := by
  obtain ⟨error, rejected⟩ | ⟨-, valid⟩ := checkFiles_cases env files
  · simp only [prepare, rejected]
    exact .fail error
  · refine (checkFiles_within env files).bind fun _ => ?_
    refine (initConcurrency_within concurrencyId).bind fun _ => ?_
    refine (removeSources_within programName).bind fun _ => ?_
    refine (FileM.Within.forM fun file member => writeFile_within (valid file member)).bind
      fun _ => ?_
    exact updateManifest_within env concurrencyId programName

/-- Reading touches nothing. -/
theorem readToString_within (path : Path) : (readToString path).Within fun _ => False := by
  refine (orFail_within (FileM.read_within path)).bind fun content => ?_
  split
  · exact .pure _
  · exact .fail _

/-- Answering changes nothing. -/
theorem respond_within (env : Environment Idl) (programName : String) (flags : BuildFlags)
    (output : CompilerOutput) :
    (respond env programName flags output).Within fun _ => False := by
  simp only [respond]
  split
  · exact .fail _
  · split
    · exact .fail _
    · split
      · exact .fail _
      · split
        · exact .pure _
        · refine (readToString_within _).bind fun lib => ?_
          split
          · exact (FileM.Within.inspect _).bind fun idl => .pure _
          · exact (FileM.Within.pure _).bind fun idl => .pure _

/-! ## The compiler sees exactly the files of its build -/

/-- Writing files one after the other over `before`, by their paths below the
program's directory. -/
def written (files : Files) (before : Path → Option ByteArray) : Path → Option ByteArray :=
  files.foldl (fun contents file =>
    Function.update contents (relativePath file.1) (some file.2.toUTF8)) before

/-- The files of a request, by their paths below `src`. -/
def sourcesOf (files : Files) (path : Path) : Option ByteArray :=
  written files (fun _ => none) ("src" :: path)

/-- The contents below a program's directory. -/
def below (files : FileTree ByteArray) (programName : String) (path : Path) : Option ByteArray :=
  files.content (programPath programName ++ path)

/-- What is written at a path depends on what was there alone. -/
theorem written_congr (files : Files) {before before' : Path → Option ByteArray} {path : Path}
    (same : before path = before' path) : written files before path = written files before' path := by
  induction files generalizing before before' with
  | nil => exact same
  | cons file files ih =>
      apply ih
      by_cases target : path = relativePath file.1
      · simp [target]
      · simp [target, same]

open FileM in
/-- A file that is written has its content. -/
theorem writeFile_ensures (programName : String) (file : String × String)
    (before : Path → Option ByteArray) :
    Ensures (fun files => below files programName = before) (writeFile programName file)
      fun _ files => below files programName =
        Function.update before (relativePath file.1) (some file.2.toUTF8) := by
  intro world value after met ran
  have makes := (createDirAll_ensures (programPath programName ++ relativePath file.1).dropLast
    world.files.content).mapError (f := Error.io)
  have writes := (write_ensures (programPath programName ++ relativePath file.1) file.2.toUTF8
    world.files.content).mapError (f := Error.io)
  have contents := makes.bind (fun _ => writes) world value after rfl ran
  funext path
  simp only [below] at met ⊢
  rw [contents]
  by_cases target : path = relativePath file.1
  · simp [target]
  · rw [Function.update_of_ne target, Function.update_of_ne (by simpa using target)]
    exact congrFun met path

open FileM in
/-- The loop over the files writes all of them. -/
theorem writeSources_ensures (programName : String) (files : Files)
    (before : Path → Option ByteArray) :
    Ensures (fun tree => below tree programName = before) (writeSources programName files)
      fun _ tree => below tree programName = written files before := by
  induction files generalizing before with
  | nil => exact .pure _ fun _ same => same
  | cons file files ih =>
      exact (writeFile_ensures programName file before).bind fun _ => ih _

open FileM in
/-- Afterwards no source is left. -/
theorem removeSources_ensures (programName : String) :
    Ensures (fun _ => True) (removeSources programName) fun _ files =>
      ∀ path, below files programName ("src" :: path) = none := by
  have removed : Ensures (fun _ => True)
      ((removeDirAll (programPath programName ++ ["src"])).attempt : ServerM _) _ :=
    removeDirAll_ensures (by simp [programPath])
  refine removed.bind fun result => ?_
  have cleared : ∀ files : FileTree ByteArray, (∀ other,
      programPath programName ++ ["src"] <+: other → files.content other = none) →
      ∀ path, below files programName ("src" :: path) = none := by
    intro files nothing path
    exact nothing _ ⟨path, by simp⟩
  match result with
  | .ok () => exact .pure _ fun files holds => cleared files (holds (.inl rfl))
  | .error .notFound => exact .pure _ fun files holds => cleared files (holds (.inr rfl))
  | .error .other => exact .fail _

open FileM in
/-- The manifest is written and the sources are kept. -/
theorem updateManifest_ensures (env : Environment Idl) (concurrencyId : Nat)
    (programName : String) (sources_ : Path → Option ByteArray) :
    Ensures (fun tree => sources tree programName = sources_)
      (updateManifest env concurrencyId programName) fun _ tree =>
        tree.content (manifestPath concurrencyId) = some (env.manifestFor programName) ∧
          sources tree programName = sources_ := by
  intro world value after met ran
  have contents := (write_ensures (manifestPath concurrencyId) (env.manifestFor programName)
    world.files.content).mapError (f := Error.io) world value after rfl ran
  rw [contents]
  refine ⟨by simp, ?_⟩
  funext path
  have different : programPath programName ++ "src" :: path ≠ manifestPath concurrencyId := by
    simp [programPath, manifestPath, concurrencyPath]
  rw [← met]
  simp only [sources, contents]
  rw [Function.update_of_ne different]

open FileM in
/-- Over cleared sources, only the files of the request are there. -/
theorem writeSources_sources (programName : String) (files : Files) :
    Ensures (fun tree => ∀ path, below tree programName ("src" :: path) = none)
      (writeSources programName files) fun _ tree =>
        sources tree programName = sourcesOf files := by
  intro world value after clean ran
  have result := writeSources_ensures programName files (below world.files programName) world
    value after rfl ran
  funext path
  rw [sources, ← below, result]
  exact written_congr files (clean path)

open FileM in
/-- When the compiler starts, the manifest names the program and the sources are
the files of the request: whatever was there before is gone. -/
theorem prepare_ensures (env : Environment Idl) (concurrencyId : Nat) (programName : String)
    (files : Files) :
    Ensures (fun _ => True) (prepare env concurrencyId programName files) fun _ tree =>
      tree.content (manifestPath concurrencyId) = some (env.manifestFor programName) ∧
        sources tree programName = sourcesOf files := by
  have anything : ∀ program : ServerM Unit, Ensures (fun _ => True) program fun _ _ => True :=
    fun _ _ _ _ _ _ => trivial
  exact (anything _).bind fun _ => (anything _).bind fun _ =>
    (removeSources_ensures programName).bind fun _ =>
      (writeSources_sources programName files).bind fun _ =>
        updateManifest_ensures env concurrencyId programName _

/-! ## Builds and the binary -/

/-- A request for a build with the run of the compiler that it gets. -/
structure BuildRequest where
  concurrencyId : Nat
  uuid : String
  files : Files
  flags : BuildFlags
  /-- The run of the compiler that this build starts, if it gets that far. -/
  toolchain : Toolchain

namespace BuildRequest

/-- A request as the server handles it. -/
def run (env : Environment Idl) (request : BuildRequest) : ServerM (String × Option Idl) :=
  build env request.toolchain request.concurrencyId request.uuid request.files request.flags

/-- What the compiler gives on exactly the files of the request. -/
def output (env : Environment Idl) (request : BuildRequest) : CompilerOutput :=
  request.toolchain (some (env.manifestFor request.uuid)) (sourcesOf request.files)

/-- The output of the compiler in this build, if it ran to its end. -/
def compilation (env : Environment Idl) (request : BuildRequest) (world : World ByteArray) :
    Option CompilerOutput :=
  match prepare env request.concurrencyId request.uuid request.files world with
  | (.ok (), prepared) =>
      match compile request.toolchain request.concurrencyId request.uuid prepared with
      | (.ok output, _) => some output
      | (.error _, _) => none
  | (.error _, _) => none

/-- The compilation of this build succeeds. -/
def compiles (env : Environment Idl) (request : BuildRequest) (world : World ByteArray) : Bool :=
  match request.compilation env world with
  | some output => output.status.isSuccess
  | none => false

end BuildRequest

/-- Where a program's binary is, if it has one. -/
def binaryNode (world : World ByteArray) (programName : String) : Option (Node ByteArray) :=
  world.files.node (binaryPath programName)

/-- The compiler writes the binary of its program only. -/
theorem placeBinary_node {programName : String} {binary : ByteArray}
    {files after : FileTree ByteArray} (placed : placeBinary programName binary files = .ok after)
    (other : String) : after.node (binaryPath other) =
      if other = programName then some (.file binary) else files.node (binaryPath other) := by
  rw [FileM.putFile_node placed]
  by_cases same : other = programName
  · simp [same]
  · have different : binaryPath other ≠ binaryPath programName := by
      simpa [binaryPath, programPath] using same
    have deeper : ¬ binaryPath other <+: programPath programName := by
      intro prefix_
      simpa [binaryPath, programPath] using prefix_.length_le
    rw [Function.update_of_ne different, FileM.makeDirectories_node deeper, if_neg same]

/-- What the compiler leaves: its output is that of the sources it saw, and it
places its binary if it has one. -/
theorem compile_cases (toolchain : Toolchain) (concurrencyId : Nat) (programName : String)
    (world : World ByteArray) :
    let output := toolchain (world.files.content (manifestPath concurrencyId))
      (sources world.files programName)
    (∃ error after, compile toolchain concurrencyId programName world = (.error error, after) ∧
      after.files = world.files) ∨
    ∃ after, compile toolchain concurrencyId programName world = (.ok output, after) ∧
      ∀ other, binaryNode after other =
        if other = programName ∧ output.status.isSuccess = true then output.binary.map .file
        else binaryNode world other := by
  intro output
  have built := output.built
  obtain ⟨value, files, after, placed, ran, rfl⟩ | ⟨kind, after, ran, unchanged⟩ :=
    FileM.call_cases (fun _ files => files) (compileOn toolchain concurrencyId programName) world
  · right
    have compiled : compile toolchain concurrencyId programName world = (.ok value, after) := by
      simp [compile, orFail, FileM.mapError, ran]
    simp only [compileOn] at placed
    split at placed
    next binary found =>
      have success : output.status.isSuccess = true := by
        rw [← built]
        exact Option.isSome_iff_exists.mpr ⟨binary, found⟩
      cases result : placeBinary programName binary world.files with
      | error kind => simp [result, Except.map] at placed
      | ok files =>
          simp only [result, Except.map, Except.ok.injEq, Prod.mk.injEq] at placed
          obtain ⟨rfl, rfl⟩ := placed
          refine ⟨after, compiled, fun other => ?_⟩
          have found : output.binary = some binary := found
          simp only [binaryNode, placeBinary_node result, success, and_true, found, Option.map_some]
    next found =>
      have failed : output.status.isSuccess = false := by
        rw [← built]
        exact Option.isSome_eq_false_iff.mpr (Option.isNone_iff_eq_none.mpr found)
      simp only [Except.ok.injEq, Prod.mk.injEq] at placed
      obtain ⟨rfl, same⟩ := placed
      refine ⟨after, compiled, fun other => ?_⟩
      simp [binaryNode, ← same, failed]
  · left
    refine ⟨.io kind, after, by simp [compile, orFail, FileM.mapError, ran], ?_⟩
    obtain same | ⟨_, same⟩ := unchanged
    · exact same
    · exact same

/-- One build replaces the binary of its program if its compilation succeeds,
and changes no binary otherwise. -/
theorem BuildRequest.run_binaryNode (env : Environment Idl) (request : BuildRequest)
    (world : World ByteArray) (programName : String) :
    binaryNode (request.run env world).2 programName =
      if programName = request.uuid ∧ request.compiles env world = true then
        (request.output env).binary.map .file
      else binaryNode world programName := by
  have kept := prepare_within env request.concurrencyId request.uuid request.files world
    (binaryPath programName) fun noBinary => noBinary programName rfl
  have prepares := prepare_ensures env request.concurrencyId request.uuid request.files world
  cases prepared : prepare env request.concurrencyId request.uuid request.files world with
  | mk result ready =>
      rw [prepared] at kept
      change binaryNode ready programName = binaryNode world programName at kept
      cases result with
      | error error =>
          have ran : (request.run env world).2 = ready := by
            simp [BuildRequest.run, build, bind, prepared]
          simp [ran, kept, BuildRequest.compiles, BuildRequest.compilation, prepared]
      | ok value =>
          obtain ⟨manifest, sourcesSeen⟩ := prepares _ ready trivial prepared
          obtain ⟨error, after, failed, unchanged⟩ | ⟨after, compiled, nodes⟩ :=
            compile_cases request.toolchain request.concurrencyId request.uuid ready
          · have ran : (request.run env world).2 = after := by
              simp [BuildRequest.run, build, bind, prepared, failed]
            have same : binaryNode after programName = binaryNode ready programName := by
              rw [binaryNode, unchanged, binaryNode]
            simp [ran, same, kept, BuildRequest.compiles, BuildRequest.compilation, prepared,
              failed]
          · rw [manifest, sourcesSeen] at compiled nodes
            have answered := respond_within env request.uuid request.flags (request.output env)
              after (binaryPath programName) id
            have ran : (request.run env world).2 =
                (respond env request.uuid request.flags (request.output env) after).2 := by
              simp [BuildRequest.run, build, bind, prepared, compiled, BuildRequest.output]
            have success : request.compiles env world = (request.output env).status.isSuccess := by
              simp [BuildRequest.compiles, BuildRequest.compilation, prepared, compiled,
                BuildRequest.output]
            rw [binaryNode, ran, answered, ← binaryNode, nodes programName, success, kept]
            rfl

/-- Builds one after the other. -/
def runBuilds (env : Environment Idl) : List BuildRequest → World ByteArray → World ByteArray
  | [], world => world
  | request :: rest, world => runBuilds env rest (request.run env world).2

/-- The binary of the last build of a program whose compilation succeeded, as
the compiler makes it from exactly that build's files; `latest` before any. -/
def latestBinary (env : Environment Idl) (programName : String) :
    List BuildRequest → World ByteArray → Option ByteArray → Option ByteArray
  | [], _, latest => latest
  | request :: rest, world, latest =>
      latestBinary env programName rest (request.run env world).2
        (if programName = request.uuid ∧ request.compiles env world = true then
          (request.output env).binary
        else latest)

/-- After all builds the binary is that of the last one that compiled. -/
theorem runBuilds_binaryNode (env : Environment Idl) (programName : String)
    (requests : List BuildRequest) (world : World ByteArray) (latest : Option ByteArray)
    (before : binaryNode world programName = latest.map .file) :
    binaryNode (runBuilds env requests world) programName =
      (latestBinary env programName requests world latest).map .file := by
  induction requests generalizing world latest with
  | nil => exact before
  | cons request rest ih =>
      apply ih
      rw [BuildRequest.run_binaryNode]
      split
      · rfl
      · exact before

/-- The answer of `deploy` for the binary it finds, if any. -/
def deployed : Option ByteArray → Except Error ByteArray
  | some binary => .ok binary
  | none => .error (.message "Program is not built")

/-- What `deploy` answers when its call does not fail from outside. -/
theorem deploy_of_binaryNode {programName : String} {world : World ByteArray}
    {latest : Option ByteArray} (calm : world.faults = [])
    (stored : binaryNode world programName = latest.map .file) :
    (deploy programName world).1 = deployed latest := by
  rw [binaryNode] at stored
  cases latest <;>
    simp [deploy, deployed, getBinary, FileM.read, FileM.call, FileM.mapError, calm, stored]

/-- After any builds, of any programs, `deploy` returns the binary that the
compiler made from exactly the files of the most recent build of the program
whose compilation succeeded, and an error if there is none. -/
theorem deploy_after_builds (env : Environment Idl) (uuid : String)
    (requests : List BuildRequest) (world : World ByteArray) (fresh : binaryNode world uuid = none) :
    (deploy uuid { runBuilds env requests world with faults := [] }).1 =
      deployed (latestBinary env uuid requests world none) := by
  apply deploy_of_binaryNode rfl
  exact runBuilds_binaryNode env uuid requests world none fresh

/-! ## A stale binary -/

/-- An environment that accepts what the source accepts and parses every program. -/
def plainEnvironment : Environment Unit where
  manifest := "path = default/src/lib.rs"
  unicodeWord _ := false
  parseIdl _ _ _ _ _ _ := .ok ()

/-- The programs directory of a new server. -/
def newServer : World ByteArray where
  files := ((FileM.putFile [programsDir, "Cargo.lock"] ByteArray.empty) ((
    (FileM.putFile [programsDir, "Cargo.toml"] ByteArray.empty
      (FileTree.empty.makeDirectories [programsDir] 1)).toOption.getD .empty))).toOption.getD .empty
  faults := []

/-- A build of one source file that the compiler accepts, with this binary. -/
def goodBuild : BuildRequest where
  concurrencyId := 0
  uuid := "00000000-0000-4000-8000-000000000000"
  files := [("/src/lib.rs", "")]
  flags := ⟨false, true, false⟩
  toolchain _ _ := ⟨.success, ByteArray.empty, some ByteArray.empty, rfl⟩

/-- There is no binary at first. -/
theorem isSome_noBinary : (none : Option ByteArray).isSome = false := rfl

/-- The next build of the same program, which does not compile. -/
def badBuild : BuildRequest where
  concurrencyId := 0
  uuid := "00000000-0000-4000-8000-000000000000"
  files := [("/src/lib.rs", "fn")]
  flags := ⟨false, true, false⟩
  toolchain _ _ := ⟨.failure 101, ByteArray.empty, none, isSome_noBinary⟩

/-- The second build does not compile. -/
theorem badBuild_fails : badBuild.compiles plainEnvironment
    (goodBuild.run plainEnvironment newServer).2 = false := by
  decide

/-- Two builds of one program, of which the second one fails. -/
theorem deploy_after_two_builds :
    (deploy badBuild.uuid
      { runBuilds plainEnvironment [goodBuild, badBuild] newServer with faults := [] }).1 =
        .ok ByteArray.empty := by
  rw [deploy_after_builds plainEnvironment badBuild.uuid [goodBuild, badBuild] newServer rfl]
  decide

/-- After a build that fails, `deploy` still returns the earlier binary. -/
theorem not_always_last_build : ¬ ∀ (env : Environment Unit) (earlier : List BuildRequest)
    (last : BuildRequest) (world : World ByteArray), binaryNode world last.uuid = none →
      (∀ request ∈ earlier, request.uuid = last.uuid) →
      last.compiles env (runBuilds env earlier world) = false →
      ∃ error, (deploy last.uuid
        { runBuilds env (earlier ++ [last]) world with faults := [] }).1 = .error error := by
  intro fresh
  obtain ⟨error, refused⟩ := fresh plainEnvironment [goodBuild] badBuild newServer rfl
    (by decide) badBuild_fails
  have stale : binaryNode (runBuilds plainEnvironment [goodBuild, badBuild] newServer)
      badBuild.uuid = (some ByteArray.empty).map .file := rfl
  have answered : (deploy badBuild.uuid
      { runBuilds plainEnvironment [goodBuild, badBuild] newServer with faults := [] }).1 =
        deployed (some ByteArray.empty) := deploy_of_binaryNode rfl stale
  rw [List.singleton_append, answered] at refused
  cases refused

end Solpg.Server.Program
