import Solpg.Std.Async
import Solpg.Std.DirectoryTree
import Solpg.Std.PathText
import Solpg.Client.Utils.Explorer.State

/-!
# The file system of the explorer

`LightningFs` is what the explorer relies on in the package that keeps a file
system in `indexedDB`. Any of its calls can fail for a reason outside the model
(a full disk, an aborted transaction). `PgFs` is made of its calls.
-/

namespace Solpg.Client.Utils

open Solpg.Std

/-- The calls of `lightning-fs`. -/
inductive FsCall where
  | writeFile (path data : Text)
  | readFile (path : Text)
  | rename (oldPath newPath : Text)
  | unlink (path : Text)
  | mkdir (path : Text)
  | readdir (path : Text)
  | rmdir (path : Text)
  | stat (path : Text)
  deriving DecidableEq, Repr

/-- What `stat` tells: `isFile` or `isDirectory`. -/
inductive Metadata where
  | file
  | directory
  deriving DecidableEq, Repr

/-- What `stat` says of a node. -/
def Metadata.ofNode : Node Text → Metadata
  | .file _ => file
  | .directory => directory

/-- What a call returns when it succeeds. -/
def FsCall.Payload : FsCall → Type
  | readFile _ => Text
  | readdir _ => List Text
  | stat _ => Metadata
  | _ => Unit

/-- The answer of a call. -/
abbrev FsCall.Answer (call : FsCall) : Type := Except JsError call.Payload

/-- The directories and files of the store. -/
abbrev Tree := DirectoryTree Text Text

/-- Where a path leads: slashes that are too many make no difference. -/
def locate (path : Text) : List Text := (UnixPath.ofText path).location []

/-- A path leads to names. -/
theorem areNames_locate (path : Text) : UnixPath.AreNames (locate path) :=
  UnixPath.areNames_location path

/-- The places that a call is about. -/
def FsCall.places : FsCall → List (List Text)
  | writeFile path _ | readFile path | unlink path | mkdir path | readdir path | rmdir path
  | stat path => [locate path]
  | rename oldPath newPath => [locate oldPath, locate newPath]

/-- The calls of the package on a store that does not fail, as far as they are
documented. -/
structure LightningFs where
  Db : Type
  tree : Db → Tree
  call : (request : FsCall) → Db → request.Answer × Db
  named : ∀ {db path}, ((tree db).node path).isSome = true → UnixPath.AreNames path
  finite : ∀ db, ∃ depth, ∀ path, ((tree db).node path).isSome = true → path.length < depth
  /-- A call leaves alone what is neither at its places nor below them. -/
  frame : ∀ {db request path}, (∀ place ∈ request.places, ¬ place <+: path) →
    (tree (call request db).2).node path = (tree db).node path
  stat_found : ∀ {db path node}, (tree db).node (locate path) = some node →
    (call (.stat path) db).1 = .ok (Metadata.ofNode node)
  stat_missing : ∀ {db path}, (tree db).node (locate path) = none →
    ∃ message, (call (.stat path) db).1 = .error ⟨message, some .ENOENT⟩
  stat_same : ∀ db path, tree (call (.stat path) db).2 = tree db
  readFile_found : ∀ {db path content}, (tree db).node (locate path) = some (.file content) →
    (call (.readFile path) db).1 = .ok content
  readFile_missing : ∀ {db path}, (tree db).node (locate path) = none →
    ∃ message, (call (.readFile path) db).1 = .error ⟨message, some .ENOENT⟩
  readFile_same : ∀ db path, tree (call (.readFile path) db).2 = tree db
  readdir_found : ∀ {db path}, (tree db).node (locate path) = some .directory →
    ∃ names : List Text, (call (.readdir path) db).1 = .ok names ∧ names.Nodup ∧
      ∀ name, name ∈ names ↔ ((tree db).node (locate path ++ [name])).isSome = true
  readdir_missing : ∀ {db path}, (tree db).node (locate path) = none →
    ∃ message, (call (.readdir path) db).1 = .error ⟨message, some .ENOENT⟩
  readdir_file : ∀ {db path content}, (tree db).node (locate path) = some (.file content) →
    ∃ message, (call (.readdir path) db).1 = .error ⟨message, some .ENOTDIR⟩
  readdir_same : ∀ db path, tree (call (.readdir path) db).2 = tree db
  writeFile_put : ∀ {db path data}, (tree db).node (locate path).dropLast = some .directory →
    locate path ≠ [] → (tree db).node (locate path) ≠ some .directory →
    (call (.writeFile path data) db).1 = .ok () ∧
      (tree (call (.writeFile path data) db).2).node =
        Function.update (tree db).node (locate path) (some (.file data))
  writeFile_done : ∀ {db path data}, (call (.writeFile path data) db).1 = .ok () →
    (tree (call (.writeFile path data) db).2).node (locate path) = some (.file data)
  writeFile_orphan : ∀ {db path data}, (tree db).node (locate path).dropLast = none →
    (∃ message, (call (.writeFile path data) db).1 = .error ⟨message, some .ENOENT⟩) ∧
      tree (call (.writeFile path data) db).2 = tree db
  mkdir_new : ∀ {db path}, (tree db).node (locate path).dropLast = some .directory →
    (tree db).node (locate path) = none →
    (call (.mkdir path) db).1 = .ok () ∧
      (tree (call (.mkdir path) db).2).node =
        Function.update (tree db).node (locate path) (some .directory)
  mkdir_exists : ∀ {db path}, ((tree db).node (locate path)).isSome = true →
    (∃ message, (call (.mkdir path) db).1 = .error ⟨message, some .EEXIST⟩) ∧
      tree (call (.mkdir path) db).2 = tree db
  mkdir_orphan : ∀ {db path}, (tree db).node (locate path).dropLast = none →
    (∃ message, (call (.mkdir path) db).1 = .error ⟨message, some .ENOENT⟩) ∧
      tree (call (.mkdir path) db).2 = tree db
  unlink_file : ∀ {db path content}, (tree db).node (locate path) = some (.file content) →
    (call (.unlink path) db).1 = .ok () ∧
      (tree (call (.unlink path) db).2).node =
        Function.update (tree db).node (locate path) none
  unlink_missing : ∀ {db path}, (tree db).node (locate path) = none →
    (∃ message, (call (.unlink path) db).1 = .error ⟨message, some .ENOENT⟩) ∧
      tree (call (.unlink path) db).2 = tree db
  rmdir_empty : ∀ {db path}, (tree db).node (locate path) = some .directory →
    locate path ≠ [] → (∀ name, (tree db).node (locate path ++ [name]) = none) →
    (call (.rmdir path) db).1 = .ok () ∧
      (tree (call (.rmdir path) db).2).node =
        Function.update (tree db).node (locate path) none
  /-- What stood at the new path is replaced. -/
  rename_move : ∀ {db oldPath newPath}, ((tree db).node (locate oldPath)).isSome = true →
    locate oldPath ≠ [] → locate newPath ≠ [] →
    (tree db).node (locate newPath).dropLast = some .directory →
    ¬ locate oldPath <+: locate newPath → ¬ locate newPath <+: locate oldPath →
    (call (.rename oldPath newPath) db).1 = .ok () ∧
      ∀ path, (tree (call (.rename oldPath newPath) db).2).node path =
        (DirectoryTree.origin (locate oldPath) (locate newPath) path).bind (tree db).node
  rename_missing : ∀ {db oldPath newPath}, (tree db).node (locate oldPath) = none →
    (∃ message, (call (.rename oldPath newPath) db).1 = .error ⟨message, some .ENOENT⟩) ∧
      tree (call (.rename oldPath newPath) db).2 = tree db
  rename_orphan : ∀ {db oldPath newPath}, ((tree db).node (locate oldPath)).isSome = true →
    (tree db).node (locate newPath).dropLast = none →
    (∃ message, (call (.rename oldPath newPath) db).1 = .error ⟨message, some .ENOENT⟩) ∧
      tree (call (.rename oldPath newPath) db).2 = tree db

/-- The store, and for each call to come whether it fails from outside and what
it then leaves behind. -/
structure Disk (fs : LightningFs) where
  db : fs.Db
  faults : List (Option (fs.Db → fs.Db))

namespace Disk

variable {fs : LightningFs}

/-- The tree of a disk. -/
def tree (disk : Disk fs) : Tree := fs.tree disk.db

/-- A call is served, unless the store fails. -/
def serve (request : FsCall) (disk : Disk fs) : request.Answer × Disk fs :=
  match disk.faults with
  | some interrupted :: faults =>
      (.error (.ofMessage "The store failed."), ⟨interrupted disk.db, faults⟩)
  | faults =>
      let (answer, db) := fs.call request disk.db
      (answer, ⟨db, faults.tail⟩)

/-- No call to come fails from outside. -/
def Sound (disk : Disk fs) : Prop := ∀ fault ∈ disk.faults, fault = none

end Disk

/-- An asynchronous function of the client. -/
abbrev PgM := Async PgExplorer FsCall FsCall.Answer JsError

namespace PgM

variable {α : Type}

/-- A step without await that can throw. -/
def sync (f : PgExplorer → Except JsError α) : PgM α := fun self => .done self (f self)

/-- A change of the state without await that can throw. -/
def change (f : PgExplorer → Except JsError PgExplorer) : PgM Unit := fun self =>
  match f self with
  | .ok self => .done self (.ok ())
  | .error error => .done self (.error error)

end PgM

namespace PgFs

open PgM

/-- A call of the package, which throws what it answers with. -/
def request (call : FsCall) : PgM call.Payload := do
  match ← Async.perform call with
  | .ok answer => pure answer
  | .error error => throw error

/-- `getMetadata`. -/
def getMetadata (path : Text) : PgM Metadata := do
  let path ← sync (·.convertToFullPath path)
  request (.stat path)

/-- `exists`: any other error than a missing entry is passed on. -/
def exists_ (path : Text) : PgM Bool := do
  let path ← sync (·.convertToFullPath path)
  tryCatch (do let _ ← getMetadata path; pure true) fun error =>
    if error.code = some .ENOENT ∨ error.code = some .ENOTDIR then pure false else throw error

/-- The loop of `createDir` over the names of the parents. -/
def createFolders (currentPath : Text) : List Text → PgM Unit
  | [] => pure ()
  | folder :: rest => do
      let currentPath := currentPath ++ slash ++ folder
      -- Only create if the dir doesn't exist
      let exists_ ← exists_ currentPath
      if !exists_ then request (.mkdir currentPath)
      createFolders currentPath rest

/-- `createDir`. -/
def createDir (path : Text) (createParents : Bool) : PgM Unit := do
  let path ← sync (·.convertToFullPath path)
  if createParents then createFolders [] ((path.splitOn '/').drop 1).dropLast
  else request (.mkdir path)

/-- `writeFile`. -/
def writeFile (path data : Text) (createParents : Bool) : PgM Unit := do
  let path ← sync (·.convertToFullPath path)
  if createParents then createDir (getParentPathFromPath path) true
  request (.writeFile path data)

/-- `readToString`. -/
def readToString (path : Text) : PgM Text := do
  let path ← sync (·.convertToFullPath path)
  request (.readFile path)

/-- `rename`. -/
def rename (oldPath newPath : Text) : PgM Unit := do
  let oldPath ← sync (·.convertToFullPath oldPath)
  let newPath ← sync (·.convertToFullPath newPath)
  request (.rename oldPath newPath)

/-- `removeFile`. -/
def removeFile (path : Text) : PgM Unit := do
  let path ← sync (·.convertToFullPath path)
  request (.unlink path)

/-- `readDir`. -/
def readDir (path : Text) : PgM (List Text) := do
  let path ← sync (·.convertToFullPath path)
  request (.readdir path)

/-- `recursivelyRmdir`, to a depth of `fuel` directories. -/
def recursivelyRmdir : Nat → List Text → Text → PgM Unit
  | 0, _, _ => Async.endless
  | fuel + 1, dir, currentPath =>
      if dir.isEmpty then
        -- Delete if it's an empty directory
        request (.rmdir currentPath)
      else do
        dir.forM fun childName => do
          let childPath := currentPath ++ childName
          let metadata ← getMetadata childPath
          match metadata with
          | .directory => do
              let childDir ← readDir childPath
              if !childDir.isEmpty then recursivelyRmdir fuel childDir (childPath ++ slash)
              else request (.rmdir childPath)
          | .file => removeFile childPath
        -- Read the directory again and delete if it's empty
        let dir ← readDir currentPath
        if dir.isEmpty then request (.rmdir currentPath)

/-- `removeDir` with `recursive`. -/
def removeDir (fuel : Nat) (path : Text) : PgM Unit := do
  let path ← sync (·.convertToFullPath path)
  let dir ← readDir path
  recursivelyRmdir fuel dir path

end PgFs
end Solpg.Client.Utils
