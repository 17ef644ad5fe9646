import Solpg.Std.FileSystem
import Solpg.Std.Regex

/-!
# Program builds on the server

`program::build` and `program::get_binary` of `program.rs`. The compiler is a
function from the sources it is given to its output: one such function for each
build, since a run of it may also time out. Everything else is the file calls
of the source, any of which may fail.
-/

namespace Solpg.Server.Program

open Solpg.Std

/-- Directory name of where the programs are stored. -/
def programsDir : String := "programs"

/-- Maximum amount of files to pass to `build`. -/
def maxFileAmount : Nat := 64

/-- Maximum length of the file paths to pass to `build`. -/
def maxPathLen : Nat := 128

/-- Max program build output stderr length. -/
def maxStderrLen : Nat := 1024 * 1024 * 1024

def buildTimeoutSeconds : Nat := 240

/-- Paths and contents. -/
abbrev Files := List (String × String)

inductive Error where
  | message (text : String)
  | io (kind : IoErrorKind)
  /-- A text in front of an I/O error. -/
  | context (text : String) (kind : IoErrorKind)
  /-- `String::from_utf8` fails. -/
  | utf8
  deriving DecidableEq, Repr

/-- What `build` uses and does not define: the manifest template, the word
characters of the regex engine beyond ASCII, and the IDL parser. -/
structure Environment (Idl : Type) where
  manifest : String
  unicodeWord : Char → Bool
  parseIdl : (Path → Option ByteArray) → Path → (version : String) → (seedsFeature noDocs
    safetyChecks : Bool) → Except String Idl

inductive ExitStatus where
  | success
  | failure (code : Nat)
  | signal
  deriving DecidableEq, Repr

def ExitStatus.isSuccess : ExitStatus → Bool
  | .success => true
  | _ => false

/-- `ExitStatus::code`. -/
def ExitStatus.code : ExitStatus → Option Nat
  | .success => some 0
  | .failure code => some code
  | .signal => none

/-- What one run of `cargo-build-sbf` does: it writes a binary if and only if
the compilation succeeds. -/
structure CompilerOutput where
  status : ExitStatus
  stderr : ByteArray
  binary : Option ByteArray
  built : binary.isSome = status.isSuccess

/-- One run of the compiler on a manifest and the sources it names, by their
paths below `src`. -/
abbrev Toolchain := Option ByteArray → (Path → Option ByteArray) → CompilerOutput

abbrev ServerM := FileM ByteArray Error

/-- `?` on an I/O result. -/
def orFail {α : Type} (call : FileM ByteArray IoErrorKind α) : ServerM α := call.mapError .io

/-! ## Paths -/

def programPath (programName : String) : Path := [programsDir, programName]

def concurrencyPath (concurrencyId : Nat) : Path := [programsDir, toString concurrencyId]

def manifestPath (concurrencyId : Nat) : Path := concurrencyPath concurrencyId ++ ["Cargo.toml"]

def binaryPath (programName : String) : Path := programPath programName ++ ["solpg.so"]

/-- The components of a file path without leading slashes. -/
def relativePath (path : String) : Path :=
  ((path.toList.dropWhile (· == '/')).splitOn '/').map String.ofList

/-- `\w`. -/
def Environment.isWord {Idl : Type} (env : Environment Idl) (char : Char) : Bool :=
  char.isAlphanum || char == '_' || (0x80 ≤ char.toNat && env.unicodeWord char)

/-- `ALLOWED_REGEX`: a text that is `/src/`, word characters, slashes and dashes,
and `.rs`. -/
def Environment.allowedRegex {Idl : Type} (env : Environment Idl) : Regex Char :=
  .seq (.assertion fun before _ => before.isNone) <|
  .seq (.literal "/src/".toList) <|
  .seq (.plus (.symbol fun char => env.isWord char || char == '/' || char == '-')) <|
  .seq (.literal ".rs".toList) (.assertion fun _ after => after.isNone)

def Environment.isValid {Idl : Type} (env : Environment Idl) (path : String) : Bool :=
  decide (path.utf8ByteSize ≤ maxPathLen) && !decide ("..".toList <:+: path.toList) &&
    !decide ("//".toList <:+: path.toList) && env.allowedRegex.isMatch path.toList

/-! ## The phases of `build` -/

variable {Idl : Type}

/-- Check file count and file paths. -/
def checkFiles (env : Environment Idl) (files : Files) : ServerM Unit :=
  if files.length > maxFileAmount then
    .fail (.message s!"Exceeded maximum file amount: {files.length} > {maxFileAmount}")
  else
    match files.find? fun (path, _) => !env.isValid path with
    | some (path, _) => .fail (.message s!"Invalid path: {path}")
    | none => pure ()

/-- Copy `Cargo.*` files into a separate directory (only once). -/
def initConcurrency (concurrencyId : Nat) : ServerM Unit := do
  let concurrencyPath := concurrencyPath concurrencyId
  let concurrencyReadyPath := concurrencyPath ++ ["ready"]
  if !(← orFail (.exists_ concurrencyReadyPath)) then
    orFail (.createDirAll concurrencyPath)
    orFail (.copy [programsDir, "Cargo.toml"] (concurrencyPath ++ ["Cargo.toml"]))
    orFail (.copy [programsDir, "Cargo.lock"] (concurrencyPath ++ ["Cargo.lock"]))
    orFail (.write concurrencyReadyPath ByteArray.empty)

/-- Remove existing files. -/
def removeSources (programName : String) : ServerM Unit := do
  match ← (FileM.removeDirAll (programPath programName ++ ["src"])).attempt with
  | .ok () => pure ()
  | .error .notFound => pure ()
  | .error .other => .fail (.context "Failed to remove existing files" .other)

def writeFile (programName : String) (file : String × String) : ServerM Unit := do
  let itemPath := programPath programName ++ relativePath file.1
  orFail (.createDirAll itemPath.dropLast)
  orFail (.write itemPath file.2.toUTF8)

/-- Write files. -/
def writeSources (programName : String) (files : Files) : ServerM Unit :=
  files.forM (writeFile programName)

/-- `str::replacen` with count one, on characters. -/
def replaceFirst (text pattern replacement : List Char) : List Char :=
  match text with
  | [] => if pattern.isEmpty then replacement else []
  | char :: rest =>
      if pattern.isPrefixOf (char :: rest) then replacement ++ (char :: rest).drop pattern.length
      else char :: replaceFirst rest pattern replacement

/-- The manifest that names the program's sources. -/
def Environment.manifestFor (env : Environment Idl) (programName : String) : ByteArray :=
  (String.ofList (replaceFirst env.manifest.toList "default".toList
    s!"../{programName}".toList)).toUTF8

/-- Update manifest. -/
def updateManifest (env : Environment Idl) (concurrencyId : Nat) (programName : String) :
    ServerM Unit :=
  orFail (.write (manifestPath concurrencyId) (env.manifestFor programName))

/-- Everything before the compiler runs. -/
def prepare (env : Environment Idl) (concurrencyId : Nat) (programName : String) (files : Files) :
    ServerM Unit := do
  checkFiles env files
  initConcurrency concurrencyId
  removeSources programName
  writeSources programName files
  updateManifest env concurrencyId programName

/-- The sources of a program, by their paths below `src`. -/
def sources (files : FileTree ByteArray) (programName : String) (path : Path) : Option ByteArray :=
  files.content (programPath programName ++ "src" :: path)

/-- Put the binary into the program's directory, making it where necessary. -/
def placeBinary (programName : String) (binary : ByteArray) (files : FileTree ByteArray) :
    Except IoErrorKind (FileTree ByteArray) :=
  FileM.putFile (binaryPath programName) binary
    (files.makeDirectories (programPath programName) (programPath programName).length)

/-- What a run of the compiler does to the files. -/
def compileOn (toolchain : Toolchain) (concurrencyId : Nat) (programName : String)
    (files : FileTree ByteArray) : Except IoErrorKind (CompilerOutput × FileTree ByteArray) :=
  let output := toolchain (files.content (manifestPath concurrencyId)) (sources files programName)
  match output.binary with
  | some binary => (placeBinary programName binary files).map fun files => (output, files)
  | none => .ok (output, files)

/-- Run `cargo-build-sbf` under `timeout`. Its other outputs are not read again. -/
def compile (toolchain : Toolchain) (concurrencyId : Nat) (programName : String) :
    ServerM CompilerOutput :=
  orFail (.call (fun _ files => files) (compileOn toolchain concurrencyId programName))

/-- Generate IDL if it's an Anchor program: `idl` is what parsing it gave. -/
def describe (stderr : String) (idl : Option (Except String Idl)) : String × Option Idl :=
  match idl with
  | some (.error error) => (s!"IDL error: {error}", none)
  | some (.ok idl) => (stderr, some idl)
  | none => (stderr, none)

/-- `fs::read_to_string`. -/
def readToString (path : Path) : ServerM String := do
  match String.fromUTF8? (← orFail (.read path)) with
  | some text => pure text
  | none => .fail (.io .other)

structure BuildFlags where
  seedsFeature : Bool
  noDocs : Bool
  safetyChecks : Bool

/-- From the compiler's output to the result of `build`. -/
def respond (env : Environment Idl) (programName : String) (flags : BuildFlags)
    (output : CompilerOutput) : ServerM (String × Option Idl) := do
  if output.status.code = some 124 ∨ output.status.code = some 137 then
    .fail (.message (s!"Program build exceeded {buildTimeoutSeconds} seconds and was stopped. " ++
      "Try again; if it keeps happening, ask Program Pal to explain the build output."))
  else if output.stderr.size > maxStderrLen then
    .fail (.message
      s!"Exceeded maximum build output length: {output.stderr.size} > {maxStderrLen}")
  else
    match String.fromUTF8? output.stderr with
    | none => .fail .utf8
    | some stderr =>
        if !output.status.isSuccess then
          pure (stderr, none)
        else do
          let libPath := programPath programName ++ ["src", "lib.rs"]
          let lib ← readToString libPath
          let idl ← if "anchor_lang".toList <:+: lib.toList then
              FileM.inspect fun files => some (env.parseIdl files.content libPath "0.1.0"
                flags.seedsFeature flags.noDocs flags.safetyChecks)
            else pure none
          pure (describe stderr idl)

/-- `program::build`. -/
def build (env : Environment Idl) (toolchain : Toolchain) (concurrencyId : Nat)
    (programName : String) (files : Files) (flags : BuildFlags) : ServerM (String × Option Idl) := do
  prepare env concurrencyId programName files
  let output ← compile toolchain concurrencyId programName
  respond env programName flags output

/-- `program::get_binary`. -/
def getBinary (programName : String) : FileM ByteArray IoErrorKind ByteArray :=
  .read (binaryPath programName)

/-- `GET /deploy/:uuid`. -/
def deploy (uuid : String) : ServerM ByteArray :=
  (getBinary uuid).mapError fun kind =>
    match kind with
    | .notFound => .message "Program is not built"
    | .other => .io .other

end Solpg.Server.Program
