import Solpg.Std.Calls
import Solpg.Std.FileSystem
import Solpg.Std.UnixPath

/-!
# The file calls of the server

The calls that the server's functions make, with the paths they name, and what
each call may answer. A file is known by its bytes as a text and as JSON; a
path with a NUL character is never found by any call.
-/

namespace Solpg.Server

open Solpg.Std

/-- A file's bytes as UTF-8 and as JSON. -/
structure FileBytes where
  text : Option Text
  json : Option Json

/-- What is written: a text, or a JSON value as `serde_json` prints it. -/
inductive Written where
  | text (text : Text)
  | json (value : Json)

/-- An entry of `read_dir`, whose type takes another call. -/
structure DirEntry where
  name : Text
  isDir : Except IoErrorKind Bool

/-- How a process ended, and its `stderr` as bytes and as UTF-8. -/
structure CommandOutput where
  code : Option Nat
  stderrSize : Nat
  stderr : Option Text

/-- A call, with the paths it is given. `run` starts a program that is told to
read and to write the paths, and to read what the files it is given ask for. -/
inductive FileCall where
  | exists_ (path : UnixPath)
  | read (path : UnixPath)
  | write (path : UnixPath) (content : Written)
  | createDirAll (path : UnixPath)
  | removeDirAll (path : UnixPath)
  | copy (source target : UnixPath)
  | isFile (path : UnixPath)
  | readDir (path : UnixPath)
  | canonicalize (path : UnixPath)
  | run (program : Text) (paths : List UnixPath)

namespace FileCall

/-- What a call returns when it succeeds. -/
def Value : FileCall → Type
  | exists_ _ => Bool
  | read _ => FileBytes
  | write _ _ => Unit
  | createDirAll _ => Unit
  | removeDirAll _ => Unit
  | copy _ _ => Unit
  | isFile _ => Bool
  | readDir _ => List (Except IoErrorKind DirEntry)
  | canonicalize _ => Option Text
  | run _ _ => CommandOutput

abbrev Answer (call : FileCall) : Type := Except IoErrorKind call.Value

def paths : FileCall → List UnixPath
  | exists_ path => [path]
  | read path => [path]
  | write path _ => [path]
  | createDirAll path => [path]
  | removeDirAll path => [path]
  | copy source target => [source, target]
  | isFile path => [path]
  | readDir path => [path]
  | canonicalize path => [path]
  | run _ paths => paths

def isWrite : FileCall → Bool
  | write _ _ => true
  | _ => false

/-- What is known of the file system: paths that lead to directories, and the files that can
stand at the manifest paths. -/
structure Installed where
  directory : UnixPath → Prop
  manifest : UnixPath → Json → Prop

def manifestName : Text := "package.json".toList

/-- The entries of a directory have names. -/
def Named (entries : List (Except IoErrorKind DirEntry)) : Prop :=
  ∀ entry, .ok entry ∈ entries → UnixPath.IsName entry.name ∧ '\x00' ∉ entry.name

/-- What a successful call may return: `package.json` holds what is installed, a directory
is no file, and its entries have names. -/
def Plausible (installed : Installed) : (call : FileCall) → call.Value → Prop
  | read path, bytes => ∀ json, bytes.json = some json →
      path.components.getLast? = some manifestName → installed.manifest path json
  | isFile path, (file : Bool) => file = true → ¬ installed.directory path
  | readDir _, entries => Named entries
  | _, _ => True

/-- A call may fail for any reason; it fails if a path has a NUL character. -/
def Allowed (installed : Installed) (call : FileCall) : call.Answer → Prop
  | .ok value => (∀ path ∈ call.paths, path.hasNul = false) ∧ call.Plausible installed value
  | .error _ => True

/-- The call touches nothing outside `dir`. -/
def Confined (cwd : List Text) (dir : Text) (call : FileCall) : Prop :=
  ∀ path ∈ call.paths, path.hasNul = true ∨ path.Inside cwd dir

end FileCall

/-- A function of the server as the calls it makes. -/
abbrev FileCalls (ε α : Type) := Calls FileCall FileCall.Answer ε α

/-- `?` on the result of a call. -/
def FileCall.io (call : FileCall) : FileCalls IoErrorKind call.Value := .call call .done

section Io

variable {installed : FileCall.Installed} {call : FileCall}

theorem FileCall.makes_io {made : FileCall} :
    call.io.Makes (FileCall.Allowed installed) made ↔ made = call := by
  simp [FileCall.io, Calls.Makes]

/-- A call can return what it is allowed to answer. -/
theorem FileCall.returns_io {answer : call.Answer} :
    call.io.Returns (FileCall.Allowed installed) answer ↔ call.Allowed installed answer := by
  simp [FileCall.io, Calls.Returns]

theorem FileCall.ensures_io {P : FileCall → Prop} (holds : P call) :
    Calls.Ensures (FileCall.Allowed installed) P
      (fun value => call.Allowed installed (.ok value)) call.io where
  makes _ makes := FileCall.makes_io.mp makes ▸ holds
  returns _ returned := FileCall.returns_io.mp returned

end Io
end Solpg.Server
