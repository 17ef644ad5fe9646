import Solpg.Server.Files
import Solpg.Server.Program
import Solpg.Std.Uuid

/-!
# The file calls of builds and deployments

`program::build`, `program::get_binary` and their routes as the file calls they
make; what they compute is in `Server.Program`. A build names its directory by a
UUID, which the route checks; the route of a deployment takes whatever the
client wrote.
-/

namespace Solpg.Server.ProgramFiles

open Solpg.Std
open Solpg.Server.Program (Environment Error maxFileAmount maxStderrLen buildTimeoutSeconds)

variable {Idl : Type}

abbrev ProgramM := FileCalls Error

/-! ## UUIDs -/

/-- `Uuid::try_parse`. -/
def tryParse (text : Text) : Bool := (Uuid.parseStr text).isSome

/-! ## Paths -/

def programsDir : Text := "programs".toList

/-- `Path::new(PROGRAMS_DIR).join(..)`. -/
def inPrograms (name : Text) : UnixPath := (UnixPath.ofText programsDir).join (.ofText name)

def concurrencyPath (concurrencyId : Nat) : UnixPath := inPrograms (toString concurrencyId).toList

def orFail {α : Type} (call : FileCalls IoErrorKind α) : ProgramM α := call.mapError .io

/-! ## `build` -/

/-- Check file count and file paths. -/
def checkFiles (env : Environment Idl) (files : List (Text × Text)) : ProgramM Unit :=
  if files.length > maxFileAmount then
    .fail (.message s!"Exceeded maximum file amount: {files.length} > {maxFileAmount}")
  else
    match files.find? fun (path, _) => !env.isValid (String.ofList path) with
    | some (path, _) => .fail (.message s!"Invalid path: {String.ofList path}")
    | none => pure ()

/-- Copy `Cargo.*` files into a separate directory (only once). -/
def initConcurrency (concurrencyId : Nat) : ProgramM Unit := do
  let ready := (concurrencyPath concurrencyId).join (.ofText "ready".toList)
  let isReady : Bool ← orFail (FileCall.exists_ ready).io
  if isReady then pure ()
  else do
    orFail (FileCall.createDirAll (concurrencyPath concurrencyId)).io
    orFail (FileCall.copy (inPrograms "Cargo.toml".toList)
      ((concurrencyPath concurrencyId).join (.ofText "Cargo.toml".toList))).io
    orFail (FileCall.copy (inPrograms "Cargo.lock".toList)
      ((concurrencyPath concurrencyId).join (.ofText "Cargo.lock".toList))).io
    orFail (FileCall.write ready (.text [])).io

/-- Remove existing files. -/
def removeSources (programName : Text) : ProgramM Unit := do
  let removed : Except IoErrorKind Unit ←
    (FileCall.removeDirAll ((inPrograms programName).join (.ofText "src".toList))).io.attempt
  match removed with
  | .ok () => pure ()
  | .error .notFound => pure ()
  | .error .other => .fail (.context "Failed to remove existing files" .other)

/-- `path.trim_start_matches('/')`. -/
def relativePath (path : Text) : UnixPath := .ofText (path.dropWhile (· = '/'))

/-- A path without a parent makes the source panic. -/
def writeFile (programName : Text) (file : Text × Text) : ProgramM Unit := do
  let itemPath := (inPrograms programName).join (relativePath file.1)
  match itemPath.parent with
  | none => .fail (.message "Must have parent")
  | some parentPath => do
      orFail (FileCall.createDirAll parentPath).io
      orFail (FileCall.write itemPath (.text file.2)).io

/-- The manifest template is read by the first build. -/
def readTemplate (firstBuild : Bool) : ProgramM Unit :=
  if firstBuild then do
    let _template : FileBytes ← orFail (FileCall.read (inPrograms "Cargo.toml".toList)).io
    pure ()
  else pure ()

/-- Update manifest. -/
def updateManifest (env : Environment Idl) (firstBuild : Bool) (concurrencyId : Nat)
    (programName : Text) : ProgramM Unit := do
  readTemplate firstBuild
  orFail (FileCall.write ((concurrencyPath concurrencyId).join (.ofText "Cargo.toml".toList))
    (.text (Program.replaceFirst env.manifest.toList "default".toList
      ("../".toList ++ programName)))).io

/-- The compiler is told the manifest, the target directory and the output
directory. -/
def compile (concurrencyId : Nat) (programName : Text) : ProgramM CommandOutput :=
  orFail (FileCall.run "timeout".toList
    [(concurrencyPath concurrencyId).join (.ofText "Cargo.toml".toList),
      inPrograms "target".toList, inPrograms programName]).io

/-- From the compiler's output on. `parse_idl` is told the library's path. -/
def respond (programName : Text) (output : CommandOutput) : ProgramM Text :=
  if output.code = some 124 ∨ output.code = some 137 then
    .fail (.message (s!"Program build exceeded {buildTimeoutSeconds} seconds and was stopped. " ++
      "Try again; if it keeps happening, ask Program Pal to explain the build output."))
  else if maxStderrLen < output.stderrSize then
    .fail (.message s!"Exceeded maximum build output length: {output.stderrSize} > {maxStderrLen}")
  else
    match output.stderr with
    | none => .fail .utf8
    | some stderr =>
        if output.code ≠ some 0 then pure stderr
        else do
          let libPath := ((inPrograms programName).join (.ofText "src".toList)).join
            (.ofText "lib.rs".toList)
          let lib : FileBytes ← orFail (FileCall.read libPath).io
          match lib.text with
          | none => .fail (.io .other)
          | some text =>
              if Text.includes text "anchor_lang".toList then do
                let _idl : CommandOutput ← orFail (FileCall.run "parse_idl".toList [libPath]).io
                pure stderr
              else pure stderr

def build (env : Environment Idl) (firstBuild : Bool) (concurrencyId : Nat) (programName : Text)
    (files : List (Text × Text)) : ProgramM Text := do
  checkFiles env files
  initConcurrency concurrencyId
  removeSources programName
  files.forM (writeFile programName)
  updateManifest env firstBuild concurrencyId programName
  let output ← compile concurrencyId programName
  respond programName output

/-! ## Routes -/

/-- `POST /build`: `fresh` is what `Uuid::new_v4` returns for a request without a UUID. -/
def buildRoute (env : Environment Idl) (firstBuild : Bool) (concurrencyId : Nat) (fresh : Uuid)
    (uuid : Option Text) (files : List (Text × Text)) : ProgramM Text :=
  match uuid with
  | some uuid =>
      if tryParse uuid then build env firstBuild concurrencyId uuid files
      else .fail (.message "Invalid UUID")
  | none => build env firstBuild concurrencyId fresh.hyphenated files

/-- `program::get_binary`. -/
def getBinary (programName : Text) : FileCalls IoErrorKind FileBytes :=
  (FileCall.read ((inPrograms programName).join (.ofText "solpg.so".toList))).io

/-- `GET /deploy/:uuid`. -/
def deployRoute (uuid : Text) : ProgramM FileBytes :=
  (getBinary uuid).mapError fun kind =>
    match kind with
    | .notFound => .message "Program is not built"
    | .other => .io .other

end Solpg.Server.ProgramFiles
