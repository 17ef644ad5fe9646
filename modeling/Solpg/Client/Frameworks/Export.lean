import Solpg.Client.Frameworks.Import

/-!
# Export to a framework project

`convertFromPlayground` of Anchor and of native projects. What the scripts are turned into and what
is written to the files that are added are parameters, but for the manifest of a native program,
which the import reads again.
-/

namespace Solpg.Client.Frameworks

open Solpg.Std Solpg.Client.Utils PgCommon

/-- What the export reads besides the files. -/
structure Surroundings where
  currentWorkspaceName : Option Text
  /-- `String.prototype.toLowerCase`. -/
  toLowerCase : Text → Text
  /-- The keypair of the program as JSON. -/
  keypair : Option Text
  /-- The importable crates that occur in the files, with their versions. -/
  crates : TupleFiles → List (Text × Text)
  convertJS : (programName : Text) → (isTest : Bool) → Text → Text
  /-- What is written to the file that is added at a path. -/
  written : (programName path : Text) → TupleFiles → Text

/-- `replaceAll("--", "-")`. -/
def joinDashes : Text → Text
  | '-' :: '-' :: rest => '-' :: joinDashes rest
  | char :: rest => char :: joinDashes rest
  | [] => []

def toKebabFromTitle (toLowerCase : Text → Text) (str : Text) : Text :=
  let words := (str.splitOn ' ').map toLowerCase
  let str : Text := joinDashes ((['-'].intercalate words).filter fun char => Text.isWord char || char = '-')
  let str : Text := if str.startsWith ['-'] then str.drop 1 else str
  if str.endsWith ['-'] then str.dropLast else str

theorem mem_joinDashes {char : Char} {text : Text} (among : char ∈ joinDashes text) : char ∈ text := by
  induction text using joinDashes.induct with
  | case1 rest ih =>
      rw [joinDashes] at among
      rcases List.mem_cons.mp among with rfl | within
      · exact List.mem_cons_self
      · exact List.mem_cons_of_mem _ (List.mem_cons_of_mem _ (ih within))
  | case2 first rest other ih =>
      rw [joinDashes.eq_2 first rest other] at among
      rcases List.mem_cons.mp among with rfl | within
      · exact List.mem_cons_self
      · exact List.mem_cons_of_mem _ (ih within)
  | case3 => exact among

theorem mem_toKebabFromTitle {toLowerCase : Text → Text} {char : Char} {text : Text}
    (among : char ∈ toKebabFromTitle toLowerCase text) : Text.isWord char = true ∨ char = '-' := by
  have dashes : ∀ words : Text, char ∈ joinDashes (words.filter fun char => Text.isWord char || char = '-') →
      Text.isWord char = true ∨ char = '-' := by
    intro words within
    simpa using List.of_mem_filter (mem_joinDashes within)
  have front : ∀ text : Text, char ∈ (if text.startsWith ['-'] then text.drop 1 else text) →
      char ∈ text := by
    intro text within
    split at within
    · exact List.mem_of_mem_drop within
    · exact within
  have back : ∀ text : Text, char ∈ (if Text.endsWith text ['-'] then text.dropLast else text) →
      char ∈ text := by
    intro text within
    split at within
    · exact List.mem_of_mem_dropLast within
    · exact within
  exact dashes _ (front _ (back _ among))

def toSnakeCase (toLowerCase : Text → Text) (str : Text) : Text :=
  (toKebabFromTitle toLowerCase str).map fun char => if char = '-' then '_' else char

def toKebabFromSnake (str : Text) : Text := str.map fun char => if char = '_' then '-' else char

def getRustDependencies (dependencies : List (Text × Text)) : Text :=
  dependencies.foldl (fun acc (name, version) =>
    acc ++ ('\n' :: name ++ " = \"".toList ++ version ++ ['"'])) "[dependencies]".toList

namespace Anchor

/-- The name that `(pub\s+)?mod\s+(\w+)` finds. The optional part only matches more in front. -/
def moduleName (content : Text) : Option Text :=
  content.tails.findSome? fun tail => do
    let rest ← Native.spaces (← behind "mod".toList tail)
    if (rest.takeWhile Text.isWord).isEmpty then none else some (rest.takeWhile Text.isWord)

/-- The content of the first `lib.rs`, which has to have one. -/
def libContent (files : TupleFiles) : Option Text :=
  ((files.find? fun (path, _) => Text.endsWith path "lib.rs".toList).map Prod.snd).filter
    fun content => !content.isEmpty

def programNameOf (client : Surroundings) (libContent : Text) : Text :=
  (moduleName libContent).getD
    (toSnakeCase client.toLowerCase (client.currentWorkspaceName.getD "program".toList))

def programPathOf (programName : Text) : Text :=
  joinPaths programsDirname (toKebabFromSnake programName)

/-- The path in the framework of a file that is included. -/
def frameworkPath (programPath path : Text) : Option Text :=
  if path.startsWith srcDirname then some (joinPaths programPath path)
  else if path.startsWith clientDirname then some path
  else if path.startsWith testsDirname then
    some (Text.replace path ".test.ts".toList ".ts".toList)
  else none

def frameworkContent (client : Surroundings) (programName path content : Text) : Text :=
  if path.startsWith srcDirname then content
  else client.convertJS programName (!path.startsWith clientDirname) content

/-- The paths of the files that do not exist in the playground. -/
def addedPaths (client : Surroundings) (programName : Text) : List Text :=
  ["app".toList, joinPaths "migrations".toList "deploy.ts".toList,
    joinPaths (programPathOf programName) Native.cargoToml,
    joinPaths (programPathOf programName) "Xargo.toml".toList,
    ".gitignore".toList, ".prettierignore".toList, "Anchor.toml".toList, Native.cargoToml,
    "package.json".toList, "tsconfig.json".toList] ++
  if client.keypair.isSome then
    [joinPaths (joinPaths "target".toList "deploy".toList)
      (programName ++ "-keypair.json".toList)]
  else []

def convertFromPlayground (client : Surroundings) (files : TupleFiles) : Except Text TupleFiles :=
  match libContent files with
  | none => .error "lib.rs not found".toList
  | some libContent =>
      let programName := programNameOf client libContent
      let frameworkFiles := files.filterMap fun (path, content) =>
        (frameworkPath (programPathOf programName) path).map
          (·, frameworkContent client programName path content)
      .ok (frameworkFiles ++ (addedPaths client programName).map fun path =>
        (path, client.written programName path frameworkFiles))

end Anchor

namespace Native

def programPath : Text := "program".toList

/-- The path in the framework of a file that is included. -/
def frameworkPath (path : Text) : Option Text :=
  if path.startsWith srcDirname then some (joinPaths programPath path)
  else if path.startsWith clientDirname then some path
  else if path.startsWith testsDirname then some path
  else none

def frameworkContent (client : Surroundings) (path content : Text) : Text :=
  if path.startsWith srcDirname then content
  else client.convertJS programPath (!path.startsWith clientDirname) content

/-- The lines of the program's `Cargo.toml` before the dependencies. -/
def manifestLines (packageName : Text) : List Text :=
  ["[package]".toList, "name = \"".toList ++ packageName ++ ['"'], "version = \"0.1.0\"".toList,
    "description = \"Native Solana Program\"".toList, "edition = \"2021\"".toList, [],
    "[lib]".toList, "crate-type = [\"cdylib\", \"lib\"]".toList, [],
    "[features]".toList, "no-entrypoint = []".toList, []]

/-- The program's `Cargo.toml`. -/
def manifest (client : Surroundings) (files : TupleFiles) : Text :=
  let packageName :=
    toKebabFromTitle client.toLowerCase (client.currentWorkspaceName.getD "solpg".toList)
  (manifestLines packageName).flatMap (· ++ ['\n']) ++
    (getRustDependencies (client.crates files) ++ ['\n'])

/-- The paths of the other files that do not exist in the playground. -/
def addedPaths : List Text :=
  [".gitignore".toList, ".prettierignore".toList, "package.json".toList, "tsconfig.json".toList]

def convertFromPlayground (client : Surroundings) (files : TupleFiles) : TupleFiles :=
  let frameworkFiles := files.filterMap fun (path, content) =>
    (frameworkPath path).map (·, frameworkContent client path content)
  frameworkFiles ++ (joinPaths programPath cargoToml, manifest client files) ::
    addedPaths.map fun path => (path, client.written programPath path frameworkFiles)

end Native

end Solpg.Client.Frameworks
