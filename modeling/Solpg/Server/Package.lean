import Solpg.Server.Files

/-!
# Packages and type declarations

`package.rs` as the file calls it makes. Names and the values of `package.json`
are joined to paths as they come. The recursion of `generate_types` over
dependencies and of `get_all_declaration_files` over directories need not end,
so both take the depth that they may still go.
-/

namespace Solpg.Server.Package

open Solpg.Std

inductive Error where
  | message (text : Text)
  | io (kind : IoErrorKind)
  /-- A text in front of an I/O error. -/
  | context (text : Text) (kind : IoErrorKind)
  | utf8
  | json
  /-- A canonical path that is not UTF-8. -/
  | unreadablePath
  /-- A canonical path, which is printed with escapes. -/
  | invalidPath (path : Text)
  /-- The depth is used up. -/
  | depth
  deriving DecidableEq, Repr

abbrev PackageM := FileCalls Error

/-- Paths and contents. -/
abbrev Files := List (Text × Text)

/-- Packages directory. -/
def packagesDir : Text := "packages".toList

/-- Build directory (`webpack`). -/
def buildDir : Text := "dist".toList

/-- The default directory of where the JS packages are stored. -/
def nodeModules : Text := "node_modules".toList

/-- Get the relative `node_modules` path. -/
def getNodeModulesPath : UnixPath := (UnixPath.ofText packagesDir).join (.ofText nodeModules)

/-- Get the path to the directory that stores the output package. -/
def getPackageOutPath (name : Text) : UnixPath :=
  ((UnixPath.ofText packagesDir).join (.ofText buildDir)).join (.ofText name)

/-- Get the path to the file that stores all types of the given package. -/
def getPackageTypesPath (name : Text) : UnixPath :=
  (getPackageOutPath name).join (.ofText "types.json".toList)

/-- Get the path to the file that stores the package's type dependencies. -/
def getPackageTypeDependenciesPath (name : Text) : UnixPath :=
  (getPackageOutPath name).join (.ofText "dependencies.json".toList)

/-- `?` on an I/O result. -/
def orFail {α : Type} (call : FileCalls IoErrorKind α) : PackageM α := call.mapError .io

/-- `fs::read_to_string`. -/
def readToString (path : UnixPath) : FileCalls IoErrorKind Text := do
  let bytes : FileBytes ← (FileCall.read path).io
  match bytes.text with
  | some text => pure text
  | none => .fail .other

/-! ## Runtime packages -/

/-- Read the generated package module file. -/
def readPackage (name : Text) : FileCalls IoErrorKind Text :=
  readToString ((getPackageOutPath name).join (.ofText "index.js".toList))

/-- The module that is bundled. -/
def entryContent (name : Text) : Text :=
  "import * as mod from \"".toList ++ name ++ "\";\nexport default mod.default ?? mod;\n".toList ++
    "export * from \"".toList ++ name ++ "\";".toList

/-- The bundler, which reads what the modules it is given ask for. -/
structure Bundler where
  /-- The requests that its parser finds in a module. -/
  requests : Text → List Text
  /-- The files it looks for when a module in the directory makes the request. -/
  resolve : UnixPath → Text → List UnixPath

/-- Build the package. The bundler is told the entry and the output file, and looks for what the
entry requests. -/
def buildPackage (bundler : Bundler) (name : Text) : PackageM Text := do
  let entryPath := (UnixPath.ofText "@solana-playground".toList).join (.ofText name)
  let pkgPath := getNodeModulesPath.join entryPath
  let index := UnixPath.ofText "index.js".toList
  orFail (FileCall.createDirAll pkgPath).io
  orFail (FileCall.write (pkgPath.join index) (.text (entryContent name))).io
  let output : CommandOutput ← orFail
    (FileCall.run "yarn".toList ([pkgPath.join index, (getPackageOutPath name).join index] ++
      (bundler.requests (entryContent name)).flatMap (bundler.resolve pkgPath))).io
  if output.code ≠ some 0 then
    match output.stderr with
    | some stderr =>
        .fail (.message ("Failed to build package: `".toList ++ name ++ "`: ".toList ++ stderr))
    | none => .fail .utf8
  else orFail (readPackage name)

/-- Get or generate an ESM package. -/
def getPackage (bundler : Bundler) (name : Text) : PackageM Text := do
  match ← (readPackage name).attempt with
  | .error .notFound => buildPackage bundler name
  | .error kind => .fail (.context ("Unexpected error: `".toList ++ name ++ "`".toList) kind)
  | .ok content => pure content

/-! ## Type declarations -/

/-- A pair of a path and a content. -/
def fileOfJson : Json → Option (Text × Text)
  | .array [.string path, .string content] => some (path, content)
  | _ => none

def filesOfJson : Json → Option Files
  | .array items => items.mapM fileOfJson
  | _ => none

def textOfJson : Json → Option Text
  | .string text => some text
  | _ => none

def textsOfJson : Json → Option (List Text)
  | .array items => items.mapM textOfJson
  | _ => none

/-- `Value::get` of a key. -/
def field (json : Json) (key : Text) : Option Json :=
  match json with
  | .object fields => fields.lookup key
  | _ => none

/-- A file that has to be JSON of some shape. -/
def readJson {α : Type} (path : UnixPath) (decode : Json → Option α) : FileCalls IoErrorKind α := do
  let bytes : FileBytes ← (FileCall.read path).io
  match bytes.json.bind decode with
  | some value => pure value
  | none => .fail .other

/-- Read the generated types file. -/
def readTypes (name : Text) : FileCalls IoErrorKind (Files × List Text) := do
  let types ← readJson (getPackageTypesPath name) filesOfJson
  let deps ← readJson (getPackageTypeDependenciesPath name) textsOfJson
  pure (types, deps)

/-- The text from the last occurrence of a pattern on. -/
def fromLast (pattern text : Text) : Option Text :=
  (text.tails.filter pattern.isPrefixOf).getLast?

/-- Convert files to the expected format. -/
def convertFiles (files : List (UnixPath × Text)) : PackageM Files :=
  files.mapM fun (path, content) => do
    let canonical : Option Text ← orFail (FileCall.canonicalize path).io
    match canonical with
    | none => .fail .unreadablePath
    | some canonical =>
        match fromLast nodeModules canonical with
        | none => .fail (.invalidPath canonical)
        | some path => pure (path, content)

/-- One entry of the directory `path`: `recurse` is for a directory below it. -/
def declarationEntry (recurse : UnixPath → FileCalls IoErrorKind (List (UnixPath × Text)))
    (initialPath path : UnixPath) (entry : Except IoErrorKind DirEntry) :
    FileCalls IoErrorKind (List (UnixPath × Text)) :=
  match entry with
  | .error kind => .fail kind
  | .ok entry =>
      let path := path.entry entry.name
      if path = initialPath then pure []
      else
        match entry.isDir with
        | .error kind => .fail kind
        | .ok true => if entry.name = nodeModules then pure [] else recurse path
        | .ok false =>
            if ".d.ts".toList.isSuffixOf entry.name then do
              let content ← readToString path
              pure [(path, content)]
            else pure []

/-- Get all type declaration files recursively. A file stands in a directory,
so the source expects that it has a parent. -/
def getAllDeclarationFiles :
    (depth : Nat) → (path : UnixPath) → FileCalls IoErrorKind (List (UnixPath × Text))
  | 0, _ => .fail .other
  | depth + 1, initialPath => do
      let isFile : Bool ← (FileCall.isFile initialPath).io
      if isFile then do
        let content ← readToString initialPath
        match initialPath.parent with
        | none => .fail .other
        | some path => do
            let entries : List (Except IoErrorKind DirEntry) ← (FileCall.readDir path).io
            let files ← entries.mapM (declarationEntry (getAllDeclarationFiles depth) initialPath path)
            pure ((initialPath, content) :: files.flatten)
      else do
        let entries : List (Except IoErrorKind DirEntry) ← (FileCall.readDir initialPath).io
        let files ←
          entries.mapM (declarationEntry (getAllDeclarationFiles depth) initialPath initialPath)
        pure files.flatten

/-- Not all dependencies have types. `generate` is `generate_types`. -/
def generateDependencies (generate : Text → PackageM (Files × List Text)) (files : Files) :
    List Text → PackageM (List Text)
  | [] => pure []
  | dep :: rest =>
      if files.any fun file => Text.includes file.2 dep then do
        let generated : Except Error (Files × List Text) ← (generate dep).attempt
        let deps ← generateDependencies generate files rest
        match generated with
        | .ok _ => pure (dep :: deps)
        | .error _ => pure deps
      else generateDependencies generate files rest

/-- The dependencies under the keys that are left. -/
def generateAllDependencies (generate : Text → PackageM (Files × List Text)) (files : Files)
    (pkgJson : Json) : List Text → PackageM (List Text)
  | [] => pure []
  | depKey :: rest =>
      match field pkgJson depKey with
      | none => generateAllDependencies generate files pkgJson rest
      | some (.object fields) => do
          let deps ← generateDependencies generate files (fields.map Prod.fst)
          let others ← generateAllDependencies generate files pkgJson rest
          pure (deps ++ others)
      | some _ => .fail (.message ("Unexpected dependency value: `".toList ++ depKey ++ "`".toList))

def dependencyKeys : List Text :=
  ["dependencies".toList, "devDependencies".toList, "peerDependencies".toList,
    "optionalDependencies".toList]

/-- The declarations that `package.json` names, saved with their dependencies. -/
def generateFrom (depth : Nat) (generate : Text → PackageM (Files × List Text)) (name : Text)
    (pkgPath : UnixPath) (pkgJson types : Json) : PackageM (Files × List Text) := do
  match types with
  | .string typeRoot => do
      let found ← (getAllDeclarationFiles depth (pkgPath.join (.ofText typeRoot))).mapError fun kind =>
        .context ("Failed to get type paths: `".toList ++ name ++ "`".toList) kind
      let files ← convertFiles found
      orFail (FileCall.createDirAll (getPackageOutPath name)).io
      orFail (FileCall.write (getPackageTypesPath name)
        (.json (.array (files.map fun file => .array [.string file.1, .string file.2])))).io
      let deps ← generateAllDependencies generate files pkgJson dependencyKeys
      orFail (FileCall.write (getPackageTypeDependenciesPath name)
        (.json (.array (deps.map .string)))).io
      pure (files, deps)
  | _ => .fail (.message ("Unexpected `types` field: `".toList ++ name ++ "`".toList))

/-- The loop over the package roots that are left. -/
def generateFromRoots (depth : Nat) (generate : Text → PackageM (Files × List Text)) (name : Text) :
    List UnixPath → PackageM (Files × List Text)
  | [] => .fail (.message ("Could not find type declarations (".toList ++ name ++ ")".toList))
  | pkgRoot :: rest => do
      let pkgPath := pkgRoot.join (.ofText name)
      let manifest : Except IoErrorKind FileBytes ←
        (FileCall.read (pkgPath.join (.ofText FileCall.manifestName))).io.attempt
      match manifest with
      | .error .notFound => generateFromRoots depth generate name rest
      | .error .other => .fail (.context "Unexpected fs error".toList .other)
      | .ok bytes =>
          match bytes.json with
          | none => .fail .json
          | some pkgJson =>
              match field pkgJson "types".toList with
              | none => generateFromRoots depth generate name rest
              | some types => generateFrom depth generate name pkgPath pkgJson types

def pkgRoots : List UnixPath :=
  [getNodeModulesPath, getNodeModulesPath.join (.ofText "@types".toList)]

/-- The declarations of a Node built-in. -/
def typesNodePath (name : Text) : UnixPath :=
  (((getNodeModulesPath.join (.ofText "@types".toList)).join (.ofText "node".toList)).join
    (.ofText name)).withExtension "d.ts".toList

/-- Port of `generate-packages.mjs`. -/
def generateTypes : (depth : Nat) → (name : Text) → PackageM (Files × List Text)
  | 0, _ => .fail .depth
  | depth + 1, name => do
      let builtIn : Bool ← orFail (FileCall.exists_ (typesNodePath name)).io
      if builtIn then do
        let content ← orFail (readToString (typesNodePath name))
        let files ← convertFiles [(typesNodePath name, content)]
        orFail (FileCall.createDirAll (getPackageOutPath name)).io
        orFail (FileCall.write (getPackageTypesPath name)
          (.json (.array (files.map fun file => .array [.string file.1, .string file.2])))).io
        orFail (FileCall.write (getPackageTypeDependenciesPath name) (.text "[]".toList)).io
        pure (files, [])
      else generateFromRoots depth (generateTypes depth) name pkgRoots

/-- Get or generate type declarations. -/
def getTypes (depth : Nat) (name : Text) : PackageM (Files × List Text) := do
  match ← (readTypes name).attempt with
  | .error .notFound => generateTypes depth name
  | .error kind => .fail (.context ("Unexpected error (".toList ++ name ++ ")".toList) kind)
  | .ok types => pure types

end Solpg.Server.Package
