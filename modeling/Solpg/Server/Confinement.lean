import Solpg.Server.PackageConfinement
import Solpg.Server.ProgramFiles

/-!
# Path confinement of the file endpoints

A relative name is followed from the directory it is joined to, an absolute one
from the root. Builds check theirs; deployments, packages and types do not.
-/

namespace Solpg.Server.Confinement

open Solpg.Std
open Solpg.Server.Program (Environment)
open Solpg.Server.ProgramFiles
open Solpg.Server.Package (Bundler packagesDir getPackage getTypes getPackageOutPath)

variable {Idl : Type} {env : Environment Idl} {cwd : List Text} {installed : FileCall.Installed}
  {programName : Text} {files : List (Text × Text)}

/-! ## UUIDs are names -/

/-- An accepted UUID names an entry of a directory. -/
theorem isName_of_tryParse {text : Text} (accepted : tryParse text = true) :
    UnixPath.IsName text := by
  obtain ⟨id, read⟩ := Option.isSome_iff_exists.mp accepted
  have long := Uuid.length_of_parseStr read
  have noSlash : '/' ∉ text := by
    intro member
    rcases Uuid.mem_of_parseStr read member with digit | mark
    · exact absurd digit (by decide)
    · exact absurd mark (by decide)
  refine ⟨?_, noSlash, ?_, ?_⟩ <;>
    · rintro rfl
      simp [UnixPath.dotDot] at long

/-- A number is a name. -/
theorem isName_of_number (number : Nat) : UnixPath.IsName (toString number).toList := by
  have digits : (toString number).toList = Nat.toDigits 10 number := by
    simp [Nat.repr_eq_ofList_toDigits]
  have isDigit : ∀ char ∈ (toString number).toList, char.isDigit = true := by
    rw [digits]
    exact fun char member => Nat.isDigit_of_mem_toDigits (by decide) (by decide) member
  refine ⟨?_, fun slash => ?_, fun dot => ?_, fun dots => ?_⟩
  · rw [digits]
    exact Nat.toDigits_ne_nil
  · have digit := isDigit '/' slash
    cases digit
  · rw [dot] at isDigit
    cases isDigit '.' List.mem_cons_self
  · rw [dots] at isDigit
    cases isDigit '.' List.mem_cons_self

/-! ## Builds -/

/-- What is proved of the functions of a build. -/
abbrev KeepsPrograms {ε α : Type} (cwd : List Text) (installed : FileCall.Installed)
    (program : FileCalls ε α) : Prop :=
  Calls.Ensures (FileCall.Allowed installed) (FileCall.Confined cwd programsDir) (fun _ => True)
    program

/-- A name below the programs stays there. -/
theorem inPrograms_safe {name : Text} (isName : UnixPath.IsName name) :
    Safe cwd programsDir (inPrograms name) := by
  rw [inPrograms, UnixPath.join_name isName, UnixPath.ofText_of_isName (by decide)]
  refine .inr (@UnixPath.inside_of_names _ _ [name] ?_ (by decide))
  simpa using isName.2.2.2

/-- A call keeps to the programs when its paths do. -/
theorem call_keeps (call : FileCall) (safe : ∀ path ∈ call.paths, Safe cwd programsDir path) :
    KeepsPrograms cwd installed call.io :=
  (FileCall.ensures_io safe).mono fun _ _ => trivial

/-- A call on one path. -/
theorem one_keeps {path : UnixPath} (call : FileCall) (given : call.paths = [path])
    (safe : Safe cwd programsDir path) : KeepsPrograms cwd installed call.io :=
  call_keeps call (by simpa [given] using safe)

/-- The checks fail, or all paths are accepted. -/
theorem checkFiles_cases :
    (∃ error, ProgramFiles.checkFiles env files = .fail error) ∨
      (ProgramFiles.checkFiles env files = pure () ∧
        ∀ file ∈ files, env.isValid (String.ofList file.1) = true) := by
  simp only [ProgramFiles.checkFiles]
  split
  · exact .inl ⟨_, rfl⟩
  · split
    next => exact .inl ⟨_, rfl⟩
    next passed =>
      refine .inr ⟨rfl, fun file member => ?_⟩
      simpa using List.find?_eq_none.mp passed file member

/-- The directory of a compiler is below the programs. -/
theorem initConcurrency_keeps (concurrencyId : Nat) :
    KeepsPrograms cwd installed (ProgramFiles.initConcurrency concurrencyId) := by
  have directory : Safe cwd programsDir (concurrencyPath concurrencyId) :=
    inPrograms_safe (isName_of_number concurrencyId)
  have ready := directory.join_name (show UnixPath.IsName "ready".toList by decide)
  have copied : ∀ name, UnixPath.IsName name → KeepsPrograms cwd installed
      (FileCall.copy (inPrograms name) ((concurrencyPath concurrencyId).join (.ofText name))).io := by
    intro name isName
    refine call_keeps _ ?_
    simpa [FileCall.paths] using ⟨inPrograms_safe isName, directory.join_name isName⟩
  refine (one_keeps (.exists_ _) rfl ready).mapError.bind fun isReady _ => ?_
  split
  · exact .pure trivial
  · refine (one_keeps (.createDirAll _) rfl directory).mapError.bind fun _ _ => ?_
    refine (copied _ (by decide)).mapError.bind fun _ _ => ?_
    refine (copied _ (by decide)).mapError.bind fun _ _ => ?_
    exact (one_keeps (.write _ _) rfl ready).mapError

/-- The sources of a program are below the programs. -/
theorem removeSources_keeps (isName : UnixPath.IsName programName) :
    KeepsPrograms cwd installed (ProgramFiles.removeSources programName) := by
  have sources : Safe cwd programsDir ((inPrograms programName).join (.ofText "src".toList)) :=
    (inPrograms_safe isName).join_name (by decide)
  refine (one_keeps (.removeDirAll _) rfl sources).attempt.bind fun removed _ => ?_
  split
  · exact .pure trivial
  · exact .pure trivial
  · exact .fail _

/-- A valid path has no way up. -/
theorem relativePath_names {path : Text} (valid : env.isValid (String.ofList path) = true) :
    (ProgramFiles.relativePath path).absolute = false ∧
      ∀ name ∈ (ProgramFiles.relativePath path).components, name ≠ UnixPath.dotDot := by
  constructor
  · simp only [ProgramFiles.relativePath, UnixPath.ofText, decide_eq_false_iff_not]
    intro slash
    have stops := List.head?_dropWhile_not (· = '/') path
    rw [slash] at stops
    simp at stops
  · rintro name member rfl
    have piece := UnixPath.infix_of_mem_components member
    have inPath : UnixPath.dotDot <:+: path := piece.trans (List.dropWhile_suffix _).isInfix
    simp only [Environment.isValid, Bool.and_eq_true, Bool.not_eq_true', decide_eq_false_iff_not,
      String.toList_ofList] at valid
    exact valid.1.1.2 inPath

/-- An accepted file is written below the programs. -/
theorem writeFile_keeps (isName : UnixPath.IsName programName) {file : Text × Text}
    (valid : env.isValid (String.ofList file.1) = true) :
    KeepsPrograms cwd installed (ProgramFiles.writeFile programName file) := by
  obtain ⟨relative, down⟩ := relativePath_names valid
  have item : (inPrograms programName).join (ProgramFiles.relativePath file.1) =
      ⟨false, programsDir :: programName :: (ProgramFiles.relativePath file.1).components⟩ := by
    rw [inPrograms, UnixPath.join_name isName, UnixPath.ofText_of_isName (by decide)]
    simp [UnixPath.join, UnixPath.entry, relative]
  have names : ∀ name ∈ programName :: (ProgramFiles.relativePath file.1).components,
      name ≠ UnixPath.dotDot := by
    intro name member
    rcases List.mem_cons.mp member with rfl | member
    · exact isName.2.2.2
    · exact down name member
  have itemSafe : Safe cwd programsDir
      ((inPrograms programName).join (ProgramFiles.relativePath file.1)) := by
    rw [item]
    exact .inr (UnixPath.inside_of_names names (by decide))
  have parentSafe : Safe cwd programsDir ⟨false, programsDir ::
      (programName :: (ProgramFiles.relativePath file.1).components).dropLast⟩ :=
    .inr (UnixPath.inside_of_names
      (fun name member => names name (List.dropLast_subset _ member)) (by decide))
  have parent : ((inPrograms programName).join (ProgramFiles.relativePath file.1)).parent =
      some ⟨false, programsDir ::
        (programName :: (ProgramFiles.relativePath file.1).components).dropLast⟩ := by
    rw [item]
    rfl
  rw [ProgramFiles.writeFile]
  simp only [parent]
  refine (one_keeps (.createDirAll _) rfl parentSafe).mapError.bind fun _ _ => ?_
  exact (one_keeps (.write _ _) rfl itemSafe).mapError

/-- A loop over the files. -/
theorem forM_keeps {ε : Type} {body : Text × Text → FileCalls ε Unit}
    (each : ∀ file ∈ files, KeepsPrograms cwd installed (body file)) :
    KeepsPrograms cwd installed (files.forM body) := by
  induction files with
  | nil => exact .pure trivial
  | cons file rest ih =>
      change KeepsPrograms cwd installed (body file >>= fun _ => rest.forM body)
      refine (each file List.mem_cons_self).bind fun _ _ => ?_
      exact ih fun other member => each other (List.mem_cons_of_mem _ member)

/-- The manifest is below the programs. -/
theorem updateManifest_keeps {firstBuild : Bool} {concurrencyId : Nat}
    (template : Safe cwd programsDir (inPrograms "Cargo.toml".toList))
    (manifest : Safe cwd programsDir
      ((concurrencyPath concurrencyId).join (.ofText "Cargo.toml".toList))) :
    KeepsPrograms cwd installed
      (ProgramFiles.updateManifest env firstBuild concurrencyId programName) := by
  have read : KeepsPrograms cwd installed (ProgramFiles.readTemplate firstBuild) := by
    rw [ProgramFiles.readTemplate]
    split
    · exact (one_keeps (.read _) rfl template).mapError.bind fun _ _ => .pure trivial
    · exact .pure trivial
  exact read.bind fun _ _ => (one_keeps (.write _ _) rfl manifest).mapError

/-- The library that is read back is below the programs. -/
theorem respond_keeps {output : CommandOutput}
    (library : Safe cwd programsDir
      (((inPrograms programName).join (.ofText "src".toList)).join (.ofText "lib.rs".toList))) :
    KeepsPrograms cwd installed (ProgramFiles.respond programName output) := by
  rw [ProgramFiles.respond]
  split
  · exact .fail _
  split
  · exact .fail _
  split
  · exact .fail _
  split
  · exact .pure trivial
  refine (one_keeps (.read _) rfl library).mapError.bind fun lib _ => ?_
  split
  · exact .fail _
  split
  · exact (one_keeps (.run _ _) rfl library).mapError.bind fun _ _ => .pure trivial
  · exact .pure trivial

/-- A build of a name keeps to the programs. -/
theorem build_keeps (isName : UnixPath.IsName programName) (firstBuild : Bool)
    (concurrencyId : Nat) :
    KeepsPrograms cwd installed
      (ProgramFiles.build env firstBuild concurrencyId programName files) := by
  have directory : Safe cwd programsDir (concurrencyPath concurrencyId) :=
    inPrograms_safe (isName_of_number concurrencyId)
  have manifest : Safe cwd programsDir
      ((concurrencyPath concurrencyId).join (.ofText "Cargo.toml".toList)) :=
    directory.join_name (by decide)
  have template : Safe cwd programsDir (inPrograms "Cargo.toml".toList) :=
    inPrograms_safe (by decide)
  have library : Safe cwd programsDir
      (((inPrograms programName).join (.ofText "src".toList)).join (.ofText "lib.rs".toList)) :=
    ((inPrograms_safe isName).join_name (by decide)).join_name (by decide)
  obtain ⟨error, rejected⟩ | ⟨passed, valid⟩ := @checkFiles_cases _ env files
  · rw [ProgramFiles.build, rejected]
    exact .fail _
  rw [ProgramFiles.build, passed, pure_bind]
  refine (initConcurrency_keeps concurrencyId).bind fun _ _ => ?_
  refine (removeSources_keeps isName).bind fun _ _ => ?_
  refine (forM_keeps fun file member => writeFile_keeps isName (valid file member)).bind
    fun _ _ => ?_
  refine (updateManifest_keeps template manifest).bind fun _ _ => ?_
  refine (call_keeps (.run _ _) ?_).mapError.bind fun output _ => ?_
  · simpa [FileCall.paths] using ⟨manifest, inPrograms_safe (by decide), inPrograms_safe isName⟩
  · exact respond_keeps library

/-- Whatever the request, its build keeps to the programs. -/
theorem buildRoute_keeps (firstBuild : Bool) (concurrencyId : Nat) (fresh : Uuid)
    (uuid : Option Text) (files : List (Text × Text)) :
    KeepsPrograms cwd installed (buildRoute env firstBuild concurrencyId fresh uuid files) := by
  cases uuid with
  | none =>
      have accepted : tryParse fresh.hyphenated = true := by simp [tryParse]
      exact build_keeps (isName_of_tryParse accepted) firstBuild concurrencyId
  | some uuid =>
      rw [buildRoute]
      split
      next accepted => exact build_keeps (isName_of_tryParse accepted) firstBuild concurrencyId
      next => exact .fail _

/-! ## Requests -/

/-- The requests of the file endpoints. -/
inductive Request where
  | build (firstBuild : Bool) (concurrencyId : Nat) (fresh : Uuid) (uuid : Option Text)
      (files : List (Text × Text))
  | deploy (uuid : Text)
  | packages (name : Text)
  | types (name : Text)

/-- The file system that the server runs on. -/
def serverFiles (cwd : List Text) (manifest : UnixPath → Json → Prop) : FileCall.Installed where
  directory path := path.location cwd = cwd ++ [packagesDir]
  manifest := manifest

/-- Every file that the endpoint can read or write is in its directory. -/
def Request.Confined (env : Environment Idl) (bundler : Bundler) (cwd : List Text)
    (installed : FileCall.Installed) : Request → Prop
  | build firstBuild concurrencyId fresh uuid files => ∀ made,
      Makes installed (buildRoute env firstBuild concurrencyId fresh uuid files) made →
        made.Confined cwd programsDir
  | deploy uuid => ∀ made, Makes installed (deployRoute uuid) made → made.Confined cwd programsDir
  | packages name => ∀ made, Makes installed (getPackage bundler name) made →
      made.Confined cwd packagesDir
  | types name => ∀ depth made, Makes installed (getTypes depth name) made →
      made.Confined cwd packagesDir

/-- The places that a request names are in the endpoint's directory. -/
def Request.Safe (bundler : Bundler) (cwd : List Text) (installed : FileCall.Installed) :
    Request → Prop
  | build _ _ _ _ _ => True
  | deploy uuid => Confinement.Safe cwd programsDir (inPrograms uuid)
  | packages name => SafeBundle cwd bundler name
  | types name => ∀ target, Reaches installed name target → SafePackage cwd installed target

/-- An endpoint keeps to its directory exactly when the names it is given do. -/
theorem confined_iff (env : Environment Idl) (bundler : Bundler) (cwd : List Text)
    (manifest : UnixPath → Json → Prop) (request : Request) :
    request.Confined env bundler cwd (serverFiles cwd manifest) ↔
      request.Safe bundler cwd (serverFiles cwd manifest) := by
  cases request with
  | build firstBuild concurrencyId fresh uuid files =>
      refine ⟨fun _ => trivial, fun _ => ?_⟩
      exact (buildRoute_keeps firstBuild concurrencyId fresh uuid files).makes
  | deploy uuid =>
      have only : ∀ made, Makes (serverFiles cwd manifest) (deployRoute uuid) made ↔
          made = .read ((inPrograms uuid).join (.ofText "solpg.so".toList)) :=
        fun made => Calls.makes_mapError.trans FileCall.makes_io
      constructor
      · intro confined
        have read := confined _ ((only _).mpr rfl)
        exact (Safe.of_made read List.mem_cons_self).of_join_name (by decide) (by decide)
          (by decide)
      · intro safe made makes
        obtain rfl := (only made).mp makes
        intro path given
        obtain rfl := List.mem_singleton.mp given
        exact Safe.join_name safe (by decide)
  | packages name =>
      exact ⟨getPackage_reaches, fun safe => (getPackage_keeps safe).makes⟩
  | types name =>
      exact ⟨getTypes_reaches, fun safe depth => (getTypes_keeps (fun _ => id) depth safe).makes⟩

/-! ## A bundler -/

/-- A request that is followed from the directory of the module that makes it. -/
def isRelative (request : Text) : Bool :=
  request = ".".toList || request = UnixPath.dotDot || Text.startsWith request "./".toList ||
    Text.startsWith request "../".toList

/-- Any other name is looked for among the installed packages. -/
def requestPath (directory : UnixPath) (request : Text) : UnixPath :=
  if isRelative request then directory.join (.ofText request)
  else Package.getNodeModulesPath.join (.ofText request)

/-- The texts in double quotes, which are what a module without other strings requests. -/
def quotedTexts (content : Text) : List Text :=
  ((content.splitOn '"').zipIdx.filter fun piece => piece.2 % 2 = 1).map Prod.fst

/-- A bundler for modules without other strings, where all packages are installed. -/
def quoting : Bundler where
  requests := quotedTexts
  resolve directory request := [requestPath directory request]

/-- The name in the entry stands behind a quote. -/
theorem entryContent_start :
    "import * as mod from \"".toList = "import * as mod from ".toList ++ ['"'] := by rfl

/-- The name in the entry stands before a quote, and once more. -/
theorem entryContent_middle :
    "\";\nexport default mod.default ?? mod;\n".toList ++ "export * from \"".toList =
      '"' :: (";\nexport default mod.default ?? mod;\nexport * from ".toList ++ ['"']) := by rfl

/-- The entry around its quotes. -/
theorem entryContent_eq (name : Text) : Package.entryContent name =
    "import * as mod from ".toList ++ '"' :: (name ++
      '"' :: (";\nexport default mod.default ?? mod;\nexport * from ".toList ++
        '"' :: (name ++ '"' :: ";".toList))) := by
  have last : "\";".toList = '"' :: ";".toList := by rfl
  unfold Package.entryContent
  rw [entryContent_start, last]
  simp only [List.append_assoc, List.cons_append, List.nil_append]
  rw [← List.append_assoc _ "export * from \"".toList (name ++ _), entryContent_middle]
  simp only [List.append_assoc, List.cons_append, List.nil_append]

/-- A name without quotes is all that its entry requests. -/
theorem quotedTexts_entryContent {name : Text} (plain : '"' ∉ name) :
    quotedTexts (Package.entryContent name) = [name, name] := by
  have opening : '"' ∉ "import * as mod from ".toList := by decide
  have middle : '"' ∉ ";\nexport default mod.default ?? mod;\nexport * from ".toList := by decide
  rw [quotedTexts, entryContent_eq, List.splitOn_append_cons_self, List.splitOn_append_cons_self,
    List.splitOn_append_cons_self, List.splitOn_append_cons_self,
    List.splitOn_eq_singleton opening, List.splitOn_eq_singleton plain,
    List.splitOn_eq_singleton middle, List.splitOn_eq_singleton (by decide)]
  simp

/-- For a name without quotes it is enough to follow the name. -/
theorem safeBundle_quoting {name : Text} (plain : '"' ∉ name) :
    SafeBundle cwd quoting name ↔ Safe cwd packagesDir (getPackageOutPath name) ∧
      Safe cwd packagesDir (entryDir name) ∧
      ((entryDir name).hasNul = false →
        Safe cwd packagesDir (requestPath (entryDir name) name)) := by
  have requested : quoting.requests (Package.entryContent name) = [name, name] :=
    quotedTexts_entryContent plain
  constructor
  · rintro ⟨out, entry, requests⟩
    exact ⟨out, entry, fun clean => requests clean name (by simp [requested]) _ List.mem_cons_self⟩
  · rintro ⟨out, entry, followed⟩
    refine ⟨out, entry, fun clean request found path looked => ?_⟩
    obtain rfl : request = name := by simpa [requested] using found
    rw [List.mem_singleton.mp looked]
    exact followed clean

/-- The `package.json` of `foo` says that its types are at `/etc`. -/
def fooManifest (path : UnixPath) (json : Json) : Prop :=
  path = manifestPath Package.getNodeModulesPath "foo".toList ∧
    Package.field json "types".toList = some (.string "/etc".toList)

/-- An environment to run a request in. -/
def bareEnvironment : Environment Unit where
  manifest := "default"
  unicodeWord _ := false
  parseIdl _ _ _ _ _ _ := .ok ()

/-- The working directory of the server. -/
def serverDir : List Text := ["home".toList, "solpg".toList]

/-- A deployment, two package names and a types field that lead out. The second name stays
inside as a path, but ends the string in the entry and adds an import. -/
theorem not_always_confined :
    ¬ (Request.deploy "../../secret".toList).Confined bareEnvironment quoting serverDir
        (serverFiles serverDir fooManifest) ∧
      ¬ (Request.packages "/etc".toList).Confined bareEnvironment quoting serverDir
        (serverFiles serverDir fooManifest) ∧
      ¬ (Request.packages "a\"; import \"/etc/secret.json".toList).Confined
        bareEnvironment quoting serverDir (serverFiles serverDir fooManifest) ∧
      ¬ (Request.types "foo".toList).Confined bareEnvironment quoting serverDir
        (serverFiles serverDir fooManifest) := by
  refine ⟨?_, ?_, ?_, ?_⟩
  · rw [confined_iff]
    change ¬ Confinement.Safe _ _ _
    decide
  · rw [confined_iff]
    intro safe
    exact absurd safe.out (by decide)
  · rw [confined_iff]
    intro safe
    have imported : "/etc/secret.json".toList ∈ quotedTexts
        (Package.entryContent "a\"; import \"/etc/secret.json".toList) := by decide
    exact absurd (safe.requests (by decide) _ imported _ List.mem_cons_self) (by decide)
  · rw [confined_iff]
    intro safe
    have package := safe _ (.refl _)
    have root := package.types Package.getNodeModulesPath
      (.object [("types".toList, .string "/etc".toList)]) "/etc".toList
      ⟨by decide, by decide, ⟨rfl, rfl⟩, rfl⟩
    exact absurd root (by decide)

end Solpg.Server.Confinement
