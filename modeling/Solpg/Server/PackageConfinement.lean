import Solpg.Server.Package

/-!
# Path confinement of packages

Which names and which values of `package.json` keep every file call of
`get_package` and `get_types` inside the packages directory. The first part
follows the programs and shows that safe places suffice; the second gives the
answers that lead to each place, so that they are also necessary.
-/

namespace Solpg.Server.Confinement

open Solpg.Std
open Solpg.Server.Package

variable {cwd : List Text} {installed : FileCall.Installed}

/-- No call on the path touches anything outside `dir`. -/
def Safe (cwd : List Text) (dir : Text) (path : UnixPath) : Prop :=
  path.hasNul = true ∨ path.Inside cwd dir

instance (cwd : List Text) (dir : Text) (path : UnixPath) : Decidable (Safe cwd dir path) :=
  inferInstanceAs (Decidable (_ ∨ _))

section Paths

variable {dir name : Text} {path : UnixPath}

/-- An entry's path has a NUL byte when the directory's path or the entry's name has one. -/
theorem hasNul_entry : (path.entry name).hasNul = (path.hasNul || name.contains '\x00') := by
  simp [UnixPath.hasNul, UnixPath.entry]

/-- A directory entry stays inside, since no listing names the parent. -/
theorem Safe.entry (safe : Safe cwd dir path) (notUp : name ≠ UnixPath.dotDot) :
    Safe cwd dir (path.entry name) := by
  rcases safe with nul | inside
  · exact .inl (by simp [hasNul_entry, nul])
  · exact .inr (inside.entry notUp)

/-- A plain name below a safe path is safe. -/
theorem Safe.join_name (safe : Safe cwd dir path) (isName : UnixPath.IsName name) :
    Safe cwd dir (path.join (.ofText name)) := by
  rw [UnixPath.join_name isName]
  exact safe.entry isName.2.2.2

/-- The parent of an entry is its directory. -/
theorem parent_entry (path : UnixPath) (name : Text) : (path.entry name).parent = some path := by
  simp [UnixPath.parent, UnixPath.entry]

/-- What is inside stands in a directory inside, but for `dir` itself. -/
theorem inside_parent {parent : UnixPath} (found : path.parent = some parent)
    (inside : path.Inside cwd dir) (below : path.location cwd ≠ cwd ++ [dir]) :
    parent.Inside cwd dir := by
  obtain ⟨absolute, components⟩ := path
  induction components using List.reverseRecOn with
  | nil => cases found
  | append_singleton before name =>
      obtain rfl : ⟨absolute, before⟩ = parent := by
        simpa [UnixPath.parent] using found
      by_cases up : name = UnixPath.dotDot
      · have climbed : UnixPath.location cwd ⟨absolute, before ++ [name]⟩ =
            (UnixPath.location cwd ⟨absolute, before⟩).dropLast :=
          (UnixPath.follow_append _ _ _).trans (if_pos up)
        rw [UnixPath.Inside, climbed] at inside
        exact inside.trans (List.dropLast_prefix _)
      · have entered := @UnixPath.location_entry cwd name up ⟨absolute, before⟩
        change cwd ++ [dir] <+: UnixPath.location cwd ⟨absolute, before ++ [name]⟩ at inside
        change UnixPath.location cwd ⟨absolute, before ++ [name]⟩ = _ at entered
        rw [entered, List.prefix_concat_iff] at inside
        exact inside.resolve_left fun same => below (entered.trans same.symm)

end Paths

/-- The packages directory is known to be one. -/
def Knows (cwd : List Text) (installed : FileCall.Installed) : Prop :=
  ∀ path : UnixPath, path.location cwd = cwd ++ [packagesDir] → installed.directory path

/-- What is proved of every function: it touches only the packages. -/
abbrev Keeps {ε α : Type} (cwd : List Text) (installed : FileCall.Installed) (Q : α → Prop)
    (program : FileCalls ε α) : Prop :=
  Calls.Ensures (FileCall.Allowed installed) (FileCall.Confined cwd packagesDir) Q program

section Keeps

variable {path : UnixPath} {name : Text}

/-- A call on one safe path. -/
theorem io_keeps {call : FileCall} (safe : ∀ path ∈ call.paths, Safe cwd packagesDir path) :
    Keeps cwd installed (fun value => call.Allowed installed (.ok value)) call.io :=
  FileCall.ensures_io safe

/-- Reading a safe path stays inside and ends normally for clean paths only. -/
theorem readToString_keeps (safe : Safe cwd packagesDir path) :
    Keeps cwd installed (fun _ => path.hasNul = false) (readToString path) := by
  refine (io_keeps (by simpa [FileCall.paths] using safe)).bind fun bytes allowed => ?_
  have clean := allowed.1 path (by simp [FileCall.paths])
  cases bytes.text with
  | some text => exact .pure clean
  | none => exact .fail _

/-- One entry of a directory stays inside when the recursion does. -/
theorem declarationEntry_keeps {recurse : UnixPath → FileCalls IoErrorKind (List (UnixPath × Text))}
    {initialPath : UnixPath} {entry : Except IoErrorKind DirEntry}
    (recurses : ∀ path, Safe cwd packagesDir path →
      Keeps cwd installed (fun files => ∀ file ∈ files, Safe cwd packagesDir file.1) (recurse path))
    (inside : path.Inside cwd packagesDir)
    (named : ∀ found, entry = .ok found → UnixPath.IsName found.name) :
    Keeps cwd installed (fun files => ∀ file ∈ files, Safe cwd packagesDir file.1)
      (declarationEntry recurse initialPath path entry) := by
  cases entry with
  | error kind => exact .fail _
  | ok found =>
      have notUp := (named found rfl).2.2.2
      have safe : Safe cwd packagesDir (path.entry found.name) := .inr (inside.entry notUp)
      simp only [declarationEntry]
      split
      · exact .pure (by simp)
      · split
        · exact .fail _
        · split
          · exact .pure (by simp)
          · exact recurses _ safe
        · split
          · refine (readToString_keeps safe).bind fun content _ => .pure ?_
            simpa using safe
          · exact .pure (by simp)

/-- Collecting the declarations below a safe path stays inside, at every depth. -/
theorem getAllDeclarationFiles_keeps (knows : Knows cwd installed) (depth : Nat)
    (safe : Safe cwd packagesDir path) :
    Keeps cwd installed
      (fun files => path.hasNul = false ∧ ∀ file ∈ files, Safe cwd packagesDir file.1)
      (getAllDeclarationFiles depth path) := by
  induction depth generalizing path with
  | zero => exact .fail _
  | succ depth ih =>
      have entries : ∀ directory : UnixPath, directory.Inside cwd packagesDir →
          ∀ found : List (Except IoErrorKind DirEntry), FileCall.Named found →
          Keeps cwd installed (fun lists => ∀ list ∈ lists, ∀ file ∈ list,
              Safe cwd packagesDir file.1)
            (found.mapM (declarationEntry (getAllDeclarationFiles depth) path directory)) := by
        intro directory inside found named
        refine .mapM fun entry member => ?_
        refine declarationEntry_keeps (fun path safe => (ih safe).mono fun _ => And.right)
          inside fun dirEntry same => ?_
        exact (named dirEntry (same ▸ member)).1
      refine (io_keeps (by simpa [FileCall.paths] using safe)).bind fun isFile allowed => ?_
      have clean := allowed.1 path (by simp [FileCall.paths])
      obtain nul | inside := safe
      · simp [clean] at nul
      · have safeHere : Safe cwd packagesDir path := .inr inside
        split
        next isFile =>
          refine (readToString_keeps safeHere).bind fun content _ => ?_
          cases found : path.parent with
          | none => exact .fail _
          | some parent =>
              have insideParent := inside_parent found inside fun same =>
                allowed.2 isFile (knows path same)
              have safeParent : Safe cwd packagesDir parent := .inr insideParent
              refine (io_keeps (by simpa [FileCall.paths] using safeParent)).bind
                fun listed allowed => ?_
              refine (entries parent insideParent listed allowed.2).bind fun lists all =>
                .pure ⟨clean, ?_⟩
              intro file member
              rcases List.mem_cons.mp member with rfl | member
              · exact safeHere
              · obtain ⟨list, inLists, inList⟩ := List.mem_flatten.mp member
                exact all list inLists file inList
        next =>
          refine (io_keeps (by simpa [FileCall.paths] using safeHere)).bind
            fun listed allowed => ?_
          refine (entries path inside listed allowed.2).bind fun lists all =>
            .pure ⟨clean, ?_⟩
          intro file member
          obtain ⟨list, inLists, inList⟩ := List.mem_flatten.mp member
          exact all list inLists file inList

/-- Converting the paths of safe files stays inside. -/
theorem convertFiles_keeps {files : List (UnixPath × Text)}
    (safe : ∀ file ∈ files, Safe cwd packagesDir file.1) :
    Keeps cwd installed (fun _ => True) (convertFiles files) := by
  refine @Calls.Ensures.mono _ _ _ _ _ _ (fun converted => ∀ file ∈ converted, True) _ _ ?_
    fun _ _ => trivial
  refine .mapM fun file member => ?_
  have asked : Keeps cwd installed (fun _ => True)
      (orFail (FileCall.canonicalize file.1).io) :=
    ((io_keeps (by simpa [FileCall.paths] using safe file member)).mapError).mono fun _ _ => trivial
  refine asked.bind fun canonical _ => ?_
  split
  · exact .fail _
  · split
    · exact .fail _
    · exact .pure trivial

/-- A file of a directory that is safe. -/
theorem write_keeps {content : Written} (safe : Safe cwd packagesDir path)
    (isName : UnixPath.IsName name) :
    Keeps cwd installed (fun _ => True)
      (orFail (FileCall.write (path.join (.ofText name)) content).io) := by
  have inside := safe.join_name isName
  exact ((io_keeps (by simpa [FileCall.paths] using inside)).mapError).mono fun _ _ => trivial

/-- Creating a safe directory stays inside. -/
theorem createDirAll_keeps (safe : Safe cwd packagesDir path) :
    Keeps cwd installed (fun _ => True) (orFail (FileCall.createDirAll path).io) :=
  ((io_keeps (by simpa [FileCall.paths] using safe)).mapError).mono fun _ _ => trivial

/-! ## Runtime packages -/

/-- Reading the bundle of a package stays inside. -/
theorem readPackage_keeps (safe : Safe cwd packagesDir (getPackageOutPath name)) :
    Keeps cwd installed (fun _ => True) (readPackage name) :=
  (readToString_keeps (safe.join_name (by decide))).mono fun _ _ => trivial

/-- The directory of the entry that is bundled. -/
def entryDir (name : Text) : UnixPath :=
  getNodeModulesPath.join ((UnixPath.ofText "@solana-playground".toList).join (.ofText name))

/-- The paths of the bundler. -/
def bundlePaths (bundler : Bundler) (name : Text) : List UnixPath :=
  [(entryDir name).join (.ofText "index.js".toList),
    (getPackageOutPath name).join (.ofText "index.js".toList)] ++
      (bundler.requests (entryContent name)).flatMap (bundler.resolve (entryDir name))

/-- The places of a package that is bundled. -/
structure SafeBundle (cwd : List Text) (bundler : Bundler) (name : Text) : Prop where
  out : Safe cwd packagesDir (getPackageOutPath name)
  entry : Safe cwd packagesDir (entryDir name)
  requests : (entryDir name).hasNul = false → ∀ request ∈ bundler.requests (entryContent name),
    ∀ path ∈ bundler.resolve (entryDir name) request, Safe cwd packagesDir path

variable {bundler : Bundler}

/-- Bundling a package stays inside when all that the bundler is told does. -/
theorem buildPackage_keeps (safe : SafeBundle cwd bundler name) :
    Keeps cwd installed (fun _ => True) (buildPackage bundler name) := by
  have index : UnixPath.IsName "index.js".toList := by decide
  have created : Keeps cwd installed (fun _ => (entryDir name).hasNul = false)
      (orFail (FileCall.createDirAll (entryDir name)).io) :=
    ((io_keeps (by simpa [FileCall.paths] using safe.entry)).mapError).mono fun _ allowed =>
      allowed.1 _ List.mem_cons_self
  refine created.bind fun _ clean => ?_
  refine (write_keeps safe.entry index).bind fun _ _ => ?_
  have bundled : Keeps cwd installed (fun _ => True)
      (orFail (FileCall.run "yarn".toList (bundlePaths bundler name)).io) := by
    refine ((io_keeps ?_).mapError).mono fun _ _ => trivial
    intro path given
    rcases List.mem_append.mp given with told | asked
    · have both : Safe cwd packagesDir ((entryDir name).join (.ofText "index.js".toList)) ∧
          Safe cwd packagesDir ((getPackageOutPath name).join (.ofText "index.js".toList)) :=
        ⟨safe.entry.join_name index, safe.out.join_name index⟩
      rcases List.mem_cons.mp told with rfl | last
      · exact both.1
      · rw [List.mem_singleton.mp last]
        exact both.2
    · obtain ⟨request, found, looked⟩ := List.mem_flatMap.mp asked
      exact safe.requests clean request found path looked
  refine bundled.bind fun output _ => ?_
  split
  · split
    · exact .fail _
    · exact .fail _
  · exact (readPackage_keeps safe.out).mapError

/-- Serving a package stays inside, from the cache or from a new bundle. -/
theorem getPackage_keeps (safe : SafeBundle cwd bundler name) :
    Keeps cwd installed (fun _ => True) (getPackage bundler name) := by
  refine (readPackage_keeps safe.out).attempt.bind fun result _ => ?_
  split
  · exact buildPackage_keeps safe
  · exact .fail _
  · exact .pure trivial

/-! ## Type declarations -/

/-- The dependencies that a `package.json` names under the keys, up to the first
key whose value is not an object. -/
def dependencyNames (pkgJson : Json) : List Text → List Text
  | [] => []
  | depKey :: rest =>
      match field pkgJson depKey with
      | none => dependencyNames pkgJson rest
      | some (.object fields) => fields.map Prod.fst ++ dependencyNames pkgJson rest
      | some _ => []

/-- The package's `package.json` below a root. -/
def manifestPath (root : UnixPath) (name : Text) : UnixPath :=
  (root.join (.ofText name)).join (.ofText FileCall.manifestName)

/-- The package may say that its types start at `typeRoot`. -/
def Declares (installed : FileCall.Installed) (name : Text) (root : UnixPath) (json : Json)
    (typeRoot : Text) : Prop :=
  root ∈ pkgRoots ∧ (root.join (.ofText name)).hasNul = false ∧
    installed.manifest (manifestPath root name) json ∧ field json "types".toList = some (.string typeRoot)

/-- The packages whose types may be generated on the way from one package. -/
inductive Reaches (installed : FileCall.Installed) : Text → Text → Prop where
  | refl (name : Text) : Reaches installed name name
  | dependency {name dep target typeRoot : Text} {root : UnixPath} {json : Json}
      (declares : Declares installed name root json typeRoot)
      (clean : ((root.join (.ofText name)).join (.ofText typeRoot)).hasNul = false)
      (listed : dep ∈ dependencyNames json dependencyKeys)
      (later : Reaches installed dep target) : Reaches installed name target

/-- The places of a package. -/
structure SafeName (cwd : List Text) (name : Text) : Prop where
  out : Safe cwd packagesDir (getPackageOutPath name)
  builtIn : Safe cwd packagesDir (typesNodePath name)
  roots : ∀ root ∈ pkgRoots, Safe cwd packagesDir (root.join (.ofText name))

/-- The name is safe and so is every type root its `package.json` can name. -/
structure SafePackage (cwd : List Text) (installed : FileCall.Installed) (name : Text) : Prop where
  places : SafeName cwd name
  types : ∀ root json typeRoot, Declares installed name root json typeRoot →
    Safe cwd packagesDir ((root.join (.ofText name)).join (.ofText typeRoot))

/-- Reading a safe JSON file stays inside. -/
theorem readJson_keeps {α : Type} {decode : Json → Option α} (safe : Safe cwd packagesDir path) :
    Keeps cwd installed (fun _ => True) (readJson path decode) := by
  refine (io_keeps (by simpa [FileCall.paths] using safe)).bind fun bytes _ => ?_
  split
  · exact .pure trivial
  · exact .fail _

/-- Reading the saved declarations stays inside. -/
theorem readTypes_keeps (safe : Safe cwd packagesDir (getPackageOutPath name)) :
    Keeps cwd installed (fun _ => True) (readTypes name) := by
  refine (readJson_keeps (safe.join_name (by decide))).bind fun types _ => ?_
  refine (readJson_keeps (safe.join_name (by decide))).bind fun deps _ => ?_
  exact .pure trivial

variable {generate : Text → PackageM (Package.Files × List Text)}

/-- Generating the mentioned dependencies stays inside when each of them does. -/
theorem generateDependencies_keeps {files : Package.Files} {deps : List Text}
    (each : ∀ dep ∈ deps, Keeps cwd installed (fun _ => True) (generate dep)) :
    Keeps cwd installed (fun _ => True) (generateDependencies generate files deps) := by
  induction deps with
  | nil => exact .pure trivial
  | cons dep rest ih =>
      have others := ih fun other member => each other (List.mem_cons_of_mem _ member)
      rw [generateDependencies]
      split
      · refine (each dep List.mem_cons_self).attempt.bind fun generated _ => ?_
        refine others.bind fun deps _ => ?_
        split
        · exact .pure trivial
        · exact .pure trivial
      · exact others

/-- Generating the dependencies of a manifest stays inside when each of them does. -/
theorem generateAllDependencies_keeps {files : Package.Files} {pkgJson : Json} {keys : List Text}
    (each : ∀ dep ∈ dependencyNames pkgJson keys,
      Keeps cwd installed (fun _ => True) (generate dep)) :
    Keeps cwd installed (fun _ => True) (generateAllDependencies generate files pkgJson keys) := by
  induction keys with
  | nil => exact .pure trivial
  | cons depKey rest ih =>
      simp only [dependencyNames] at each
      rw [generateAllDependencies]
      split
      next missing =>
        simp only [missing] at each
        exact ih each
      next fields found =>
        simp only [found] at each
        refine (generateDependencies_keeps fun dep member =>
          each dep (List.mem_append_left _ member)).bind fun deps _ => ?_
        refine (ih fun dep member => each dep (List.mem_append_right _ member)).bind
          fun others _ => ?_
        exact .pure trivial
      next => exact .fail _

/-- Generating from a declared types file stays inside when the file and the dependencies do. -/
theorem generateFrom_keeps (knows : Knows cwd installed) {depth : Nat} {pkgPath : UnixPath} {pkgJson types : Json}
    (safe : SafeName cwd name)
    (roots : ∀ typeRoot, types = .string typeRoot →
      Safe cwd packagesDir (pkgPath.join (.ofText typeRoot)))
    (each : ∀ typeRoot, types = .string typeRoot →
      (pkgPath.join (.ofText typeRoot)).hasNul = false →
      ∀ dep ∈ dependencyNames pkgJson dependencyKeys,
        Keeps cwd installed (fun _ => True) (generate dep)) :
    Keeps cwd installed (fun _ => True)
      (generateFrom depth generate name pkgPath pkgJson types) := by
  cases types with
  | string typeRoot =>
      refine (getAllDeclarationFiles_keeps knows depth (roots typeRoot rfl)).mapError.bind
        fun found ⟨clean, all⟩ => ?_
      refine (convertFiles_keeps all).bind fun files _ => ?_
      refine (createDirAll_keeps safe.out).bind fun _ _ => ?_
      refine (write_keeps safe.out (by decide)).bind fun _ _ => ?_
      refine (generateAllDependencies_keeps (each typeRoot rfl clean)).bind fun deps _ => ?_
      refine (write_keeps safe.out (by decide)).bind fun _ _ => ?_
      exact .pure trivial
  | _ => exact .fail _

/-- The path of a manifest ends in the manifest's name. -/
theorem manifestPath_last (root : UnixPath) (name : Text) :
    (manifestPath root name).components.getLast? = some FileCall.manifestName := by
  rw [manifestPath, UnixPath.join_name (by decide)]
  simp [UnixPath.entry]

/-- The path of a manifest is as clean as the package's. -/
theorem manifestPath_hasNul (root : UnixPath) (name : Text) :
    (manifestPath root name).hasNul = (root.join (.ofText name)).hasNul := by
  rw [manifestPath, UnixPath.join_name (by decide), hasNul_entry]
  have plain : FileCall.manifestName.contains '\x00' = false := by decide
  rw [plain, Bool.or_false]

/-- The search through the package roots stays inside for a safe package. -/
theorem generateFromRoots_keeps (knows : Knows cwd installed) {depth : Nat} {roots : List UnixPath}
    (among : ∀ root ∈ roots, root ∈ pkgRoots) (safe : SafePackage cwd installed name)
    (each : ∀ root json typeRoot dep, Declares installed name root json typeRoot →
      ((root.join (.ofText name)).join (.ofText typeRoot)).hasNul = false →
      dep ∈ dependencyNames json dependencyKeys →
        Keeps cwd installed (fun _ => True) (generate dep)) :
    Keeps cwd installed (fun _ => True) (generateFromRoots depth generate name roots) := by
  induction roots with
  | nil => exact .fail _
  | cons root rest ih =>
      have isRoot := among root List.mem_cons_self
      have others := ih fun other member => among other (List.mem_cons_of_mem _ member)
      have here := (safe.places.roots root isRoot).join_name
        (show UnixPath.IsName FileCall.manifestName by decide)
      rw [generateFromRoots]
      refine (io_keeps (by simpa [FileCall.paths] using here)).attempt.bind fun found allowed => ?_
      change Except IoErrorKind FileBytes at found
      rcases found with (_ | _) | bytes
      · exact others
      · exact .fail _
      · dsimp only
        obtain ⟨clean, credible⟩ := allowed bytes rfl
        have noNul : (root.join (.ofText name)).hasNul = false := by
          rw [← manifestPath_hasNul]
          exact clean _ (by simp [FileCall.paths, manifestPath])
        split
        next => exact .fail _
        next pkgJson parsed =>
          have placed := credible pkgJson parsed (manifestPath_last root name)
          split
          next => exact others
          next types typed =>
            have declares : ∀ typeRoot, types = .string typeRoot →
                Declares installed name root pkgJson typeRoot := by
              rintro typeRoot rfl
              exact ⟨isRoot, noNul, placed, typed⟩
            exact generateFrom_keeps knows safe.places
              (fun typeRoot same => safe.types root pkgJson typeRoot (declares typeRoot same))
              (fun typeRoot same clean dep member =>
                each root pkgJson typeRoot dep (declares typeRoot same) clean member)

/-- Generating types stays inside when every package it reaches is safe, by induction on the
depth. -/
theorem generateTypes_keeps (knows : Knows cwd installed) (depth : Nat)
    (safe : ∀ target, Reaches installed name target → SafePackage cwd installed target) :
    Keeps cwd installed (fun _ => True) (generateTypes depth name) := by
  induction depth generalizing name with
  | zero => exact .fail _
  | succ depth ih =>
      have here := safe name (.refl name)
      have asked : Keeps cwd installed (fun _ => True)
          (orFail (FileCall.exists_ (typesNodePath name)).io) :=
        ((io_keeps (by simpa [FileCall.paths] using here.places.builtIn)).mapError).mono
          fun _ _ => trivial
      refine asked.bind fun builtIn _ => ?_
      split
      · refine (readToString_keeps here.places.builtIn).mapError.bind fun content _ => ?_
        refine (convertFiles_keeps (by simpa using here.places.builtIn)).bind fun files _ => ?_
        refine (createDirAll_keeps here.places.out).bind fun _ _ => ?_
        refine (write_keeps here.places.out (by decide)).bind fun _ _ => ?_
        refine (write_keeps here.places.out (by decide)).bind fun _ _ => ?_
        exact .pure trivial
      · refine generateFromRoots_keeps knows (fun _ member => member) here ?_
        intro root json typeRoot dep declares clean member
        exact ih fun target later => safe target (.dependency declares clean member later)

/-- Serving types stays inside when every package they reach is safe. -/
theorem getTypes_keeps (knows : Knows cwd installed) (depth : Nat)
    (safe : ∀ target, Reaches installed name target → SafePackage cwd installed target) :
    Keeps cwd installed (fun _ => True) (getTypes depth name) := by
  have here := safe name (.refl name)
  refine (readTypes_keeps here.places.out).attempt.bind fun result _ => ?_
  split
  · exact generateTypes_keeps knows depth safe
  · exact .fail _
  · exact .pure trivial

end Keeps

/-! ## Every place is reached

The answers that lead to a call: files are missing until the one that matters. -/

section Reached

variable {name : Text} {path base : UnixPath}

/-- Below a clean base a path is as clean as what is joined to it. -/
theorem hasNul_join (clean : base.hasNul = false) : (base.join path).hasNul = path.hasNul := by
  cases absolute : path.absolute with
  | true => rw [UnixPath.join_absolute absolute]
  | false =>
      rw [UnixPath.hasNul] at clean
      rw [UnixPath.join, absolute, if_neg (by simp)]
      simp only [UnixPath.hasNul, List.any_append, clean, Bool.false_or]

/-- A clean extension keeps a path clean. -/
theorem hasNul_withExtension {extension : Text} (clean : path.hasNul = false)
    (cleanExtension : extension.contains '\x00' = false) :
    (path.withExtension extension).hasNul = false := by
  simp only [UnixPath.withExtension]
  split
  next last found =>
    split
    · exact clean
    · simp only [UnixPath.hasNul, List.any_eq_false] at clean ⊢
      intro component member
      rcases List.mem_append.mp member with member | member
      · exact clean component (List.dropLast_subset _ member)
      · obtain rfl := List.mem_singleton.mp member
        have lastClean := clean last (List.mem_of_getLast? found)
        simp only [List.contains_eq_mem, List.mem_append, List.mem_cons, decide_eq_true_eq,
          decide_eq_false_iff_not] at lastClean cleanExtension ⊢
        rintro (inStem | dot | inExtension)
        · refine lastClean ?_
          unfold UnixPath.fileStem at inStem
          split at inStem
          · exact inStem
          · rw [List.mem_reverse] at inStem
            have := List.mem_of_mem_drop inStem
            exact List.mem_reverse.mp ((List.dropWhile_suffix _).subset this)
        · cases dot
        · exact cleanExtension inExtension
  next => exact clean

/-- An entry of another name than `dir` is safe only with its directory. -/
theorem Safe.of_join_name {dir : Text} (safe : Safe cwd dir (path.join (.ofText name)))
    (isName : UnixPath.IsName name) (other : name ≠ dir)
    (plain : name.contains '\x00' = false) : Safe cwd dir path := by
  rw [UnixPath.join_name isName] at safe
  rcases safe with nul | inside
  · rw [hasNul_entry, plain, Bool.or_false] at nul
    exact .inl nul
  · exact .inr ((UnixPath.inside_entry_iff isName.2.2.2 other).mp inside)

/-- A call that can be made on one path makes it safe. -/
theorem Safe.of_made {call : FileCall} {dir : Text} (confined : call.Confined cwd dir)
    (given : path ∈ call.paths) : Safe cwd dir path := confined path given

/-- The program makes this call under some answers the installed packages allow. -/
abbrev Makes {ε α : Type} (installed : FileCall.Installed) (program : FileCalls ε α)
    (made : FileCall) : Prop :=
  program.Makes (FileCall.Allowed installed) made

/-- The program returns this result under some answers the installed packages allow. -/
abbrev Returns {ε α : Type} (installed : FileCall.Installed) (program : FileCalls ε α)
    (result : Except ε α) : Prop :=
  program.Returns (FileCall.Allowed installed) result

/-- A call on clean paths may return every plausible value. -/
theorem returns_io_ok {call : FileCall} {value : call.Value}
    (clean : ∀ path ∈ call.paths, path.hasNul = false) (credible : call.Plausible installed value) :
    Returns installed call.io (.ok value) :=
  FileCall.returns_io.mpr ⟨clean, credible⟩

/-- A call may always fail. -/
theorem returns_io_error (call : FileCall) (kind : IoErrorKind) :
    Returns installed call.io (.error kind) :=
  FileCall.returns_io.mpr trivial

/-- A returned value passes through the error conversion. -/
theorem returns_orFail {α : Type} {call : FileCalls IoErrorKind α} {value : α}
    (returned : Returns installed call (.ok value)) :
    Returns installed (orFail call) (.ok value) :=
  Calls.returns_mapError_ok.mpr returned

/-- A call is made behind the error conversion as well. -/
theorem makes_orFail {α : Type} {call : FileCalls IoErrorKind α} {made : FileCall}
    (makes : Makes installed call made) : Makes installed (orFail call) made :=
  Calls.makes_mapError.mpr makes

section Sequence

variable {ε α β : Type} {first : FileCalls ε α} {next : α → FileCalls ε β} {made : FileCall}

/-- What the first program calls is called. -/
theorem makes_first (makes : Makes installed first made) :
    Makes installed (first >>= next) made :=
  Calls.makes_bind.mpr (.inl makes)

/-- What comes after a possible result is called. -/
theorem makes_next {value : α} (returned : Returns installed first (.ok value))
    (makes : Makes installed (next value) made) : Makes installed (first >>= next) made :=
  Calls.makes_bind.mpr (.inr ⟨value, returned, makes⟩)

end Sequence

/-- Reading a file reads its path. -/
theorem makes_readToString (path : UnixPath) :
    Makes installed (readToString path) (.read path) :=
  makes_first (FileCall.makes_io.mpr rfl)

/-- Reading a file may fail. -/
theorem readToString_returns_error (path : UnixPath) (kind : IoErrorKind) :
    Returns installed (readToString path) (.error kind) :=
  Calls.returns_bind_error (returns_io_error _ kind)

/-- Reading a file at a clean path may return any text. -/
theorem readToString_returns_ok (clean : path.hasNul = false) (text : Text) :
    Returns installed (readToString path) (.ok text) := by
  have read : Returns installed (FileCall.read path).io (.ok (⟨some text, none⟩ : FileBytes)) :=
    returns_io_ok (by simpa [FileCall.paths] using clean) (by rintro json ⟨⟩)
  exact Calls.returns_bind_ok read rfl

/-- A package is served inside only when the bundler is told nothing outside. -/
theorem getPackage_reaches {bundler : Bundler}
    (confined : ∀ made, Makes installed (getPackage bundler name) made →
      made.Confined cwd packagesDir) : SafeBundle cwd bundler name := by
  have missing : Returns installed ((readPackage name).attempt : PackageM _)
      (.ok (.error .notFound)) :=
    Calls.returns_attempt.mpr (readToString_returns_error _ _)
  refine ⟨?_, ?_, fun clean request found path looked => ?_⟩
  · have read := confined _ (makes_first (Calls.makes_attempt.mpr (makes_readToString _)))
    exact (Safe.of_made read List.mem_cons_self).of_join_name (by decide) (by decide) (by decide)
  · have created : Makes installed (buildPackage bundler name) (.createDirAll (entryDir name)) :=
      makes_first (makes_orFail (FileCall.makes_io.mpr rfl))
    exact Safe.of_made (confined _ (makes_next missing created)) List.mem_cons_self
  · have cleanIndex : ((entryDir name).join (.ofText "index.js".toList)).hasNul = false := by
      rw [UnixPath.join_name (by decide), hasNul_entry, clean]
      decide
    have created : Returns installed (orFail (FileCall.createDirAll (entryDir name)).io)
        (.ok (() : Unit)) :=
      returns_orFail (returns_io_ok (by simpa [FileCall.paths] using clean) trivial)
    have written : Returns installed (orFail (FileCall.write
        ((entryDir name).join (.ofText "index.js".toList)) (.text (entryContent name))).io)
          (.ok (() : Unit)) :=
      returns_orFail (returns_io_ok (by simpa [FileCall.paths] using cleanIndex) trivial)
    have bundled : Makes installed (buildPackage bundler name)
        (.run "yarn".toList (bundlePaths bundler name)) :=
      makes_next created (makes_next written (makes_first (makes_orFail (FileCall.makes_io.mpr rfl))))
    refine Safe.of_made (confined _ (makes_next missing bundled)) (List.mem_append_right _ ?_)
    exact List.mem_flatMap.mpr ⟨request, found, looked⟩

/-- A name's paths are clean when the name is. -/
theorem clean_paths (clean : (UnixPath.ofText name).hasNul = false) :
    (getPackageOutPath name).hasNul = false ∧ (typesNodePath name).hasNul = false := by
  constructor
  · exact (hasNul_join (by decide)).trans clean
  · exact hasNul_withExtension ((hasNul_join (by decide)).trans clean) (by decide)

/-- The package roots are clean. -/
theorem hasNul_root {root : UnixPath} (isRoot : root ∈ pkgRoots) : root.hasNul = false := by
  have all : pkgRoots.all (fun root => root.hasNul = false) = true := by decide
  simpa using List.all_eq_true.mp all root isRoot

section Types

variable {depth : Nat} {generate : Text → PackageM (Package.Files × List Text)} {root : UnixPath}
  {json types : Json} {made : FileCall}

/-- A built-in is not found, so the package roots are searched. -/
theorem makes_generateTypes (clean : (UnixPath.ofText name).hasNul = false)
    (makes : Makes installed (generateFromRoots depth (generateTypes depth) name pkgRoots) made) :
    Makes installed (generateTypes (depth + 1) name) made := by
  have missing : Returns installed (orFail (FileCall.exists_ (typesNodePath name)).io)
      (.ok (false : Bool)) :=
    returns_orFail (returns_io_ok (by simpa [FileCall.paths] using (clean_paths clean).2) trivial)
  exact makes_next missing makes

/-- The manifest of one root is missing. -/
theorem makes_nextRoot {rest : List UnixPath}
    (makes : Makes installed (generateFromRoots depth generate name rest) made) :
    Makes installed (generateFromRoots depth generate name (root :: rest)) made := by
  have missing : Returns installed
      ((FileCall.read (manifestPath root name)).io.attempt : PackageM _)
      (.ok (.error .notFound)) :=
    Calls.returns_attempt.mpr (returns_io_error _ _)
  exact makes_next missing makes

/-- The manifest of the first root is read. -/
theorem makes_readManifest {rest : List UnixPath} :
    Makes installed (generateFromRoots depth generate name (root :: rest))
      (.read (manifestPath root name)) :=
  makes_first (Calls.makes_attempt.mpr (FileCall.makes_io.mpr rfl))

/-- The manifest of the first root is what is installed. -/
theorem makes_generateFrom {rest : List UnixPath}
    (clean : (root.join (.ofText name)).hasNul = false)
    (placed : installed.manifest (manifestPath root name) json) (typed : field json "types".toList = some types)
    (makes : Makes installed
      (generateFrom depth generate name (root.join (.ofText name)) json types) made) :
    Makes installed (generateFromRoots depth generate name (root :: rest)) made := by
  have cleanManifest := (manifestPath_hasNul root name).trans clean
  have read : Returns installed
      ((FileCall.read (manifestPath root name)).io.attempt : PackageM _)
      (.ok (.ok (⟨none, some json⟩ : FileBytes))) := by
    refine Calls.returns_attempt.mpr (returns_io_ok ?_ ?_)
    · simpa [FileCall.paths] using cleanManifest
    · rintro found ⟨⟩ -
      exact placed
  refine makes_next read ?_
  simpa only [typed] using makes

/-- Either root's manifest can be the one that is found. -/
theorem makes_declared {typeRoot : Text} (declares : Declares installed name root json typeRoot)
    (makes : Makes installed
      (generateFrom depth generate name (root.join (.ofText name)) json (.string typeRoot)) made) :
    Makes installed (generateFromRoots depth generate name pkgRoots) made := by
  obtain ⟨isRoot, clean, placed, typed⟩ := declares
  rcases List.mem_cons.mp isRoot with rfl | second
  · exact makes_generateFrom clean placed typed makes
  · obtain rfl := List.mem_singleton.mp second
    exact makes_nextRoot (makes_generateFrom clean placed typed makes)

/-- A declared package has a clean name. -/
theorem Declares.clean {typeRoot : Text} (declares : Declares installed name root json typeRoot) :
    (UnixPath.ofText name).hasNul = false :=
  (hasNul_join (hasNul_root declares.1)).symm.trans declares.2.1

/-- Declarations are looked for at the type root. -/
theorem typeRoot_reached {pkgPath : UnixPath} {typeRoot : Text}
    (confined : ∀ made,
      Makes installed (generateFrom 1 generate name pkgPath json (.string typeRoot)) made →
        made.Confined cwd packagesDir) :
    Safe cwd packagesDir (pkgPath.join (.ofText typeRoot)) := by
  have asked : Makes installed (getAllDeclarationFiles 1 (pkgPath.join (.ofText typeRoot)))
      (.isFile (pkgPath.join (.ofText typeRoot))) := makes_first (FileCall.makes_io.mpr rfl)
  exact Safe.of_made (confined _ (makes_first (Calls.makes_mapError.mpr asked))) List.mem_cons_self

/-- A dependency that the declarations mention is generated, whatever becomes of
the others. -/
theorem makes_generateDependencies {files : Package.Files} {deps : List Text} {dep : Text}
    (ends : ∀ dep, ∃ result, Returns installed (generate dep) result)
    (mentioned : (files.any fun file => Text.includes file.2 dep) = true) (listed : dep ∈ deps)
    (makes : Makes installed (generate dep) made) :
    Makes installed (generateDependencies generate files deps) made := by
  induction deps with
  | nil => cases listed
  | cons first rest ih =>
      rw [generateDependencies]
      rcases List.mem_cons.mp listed with rfl | later
      · rw [if_pos mentioned]
        exact makes_first (Calls.makes_attempt.mpr makes)
      · split
        · obtain ⟨result, returned⟩ := ends first
          exact makes_next (Calls.returns_attempt.mpr returned) (makes_first (ih later))
        · exact ih later

/-- The dependencies may all be passed over. -/
theorem generateDependencies_ends {files : Package.Files} (deps : List Text)
    (ends : ∀ dep, ∃ result, Returns installed (generate dep) result) :
    ∃ generated, Returns installed (generateDependencies generate files deps) (.ok generated) := by
  induction deps with
  | nil => exact ⟨[], rfl⟩
  | cons first rest ih =>
      obtain ⟨others, returned⟩ := ih
      rw [generateDependencies]
      split
      · obtain ⟨result, attempted⟩ := ends first
        cases result with
        | ok value =>
            exact ⟨first :: others, Calls.returns_bind_ok (Calls.returns_attempt.mpr attempted)
              (Calls.returns_bind_ok returned rfl)⟩
        | error error =>
            exact ⟨others, Calls.returns_bind_ok (Calls.returns_attempt.mpr attempted)
              (Calls.returns_bind_ok returned rfl)⟩
      · exact ⟨others, returned⟩

/-- Every mentioned and listed dependency may be generated. -/
theorem makes_generateAllDependencies {files : Package.Files} {keys : List Text} {dep : Text}
    (ends : ∀ dep, ∃ result, Returns installed (generate dep) result)
    (mentioned : (files.any fun file => Text.includes file.2 dep) = true)
    (listed : dep ∈ dependencyNames json keys) (makes : Makes installed (generate dep) made) :
    Makes installed (generateAllDependencies generate files json keys) made := by
  induction keys with
  | nil => cases listed
  | cons depKey rest ih =>
      rw [dependencyNames] at listed
      rw [generateAllDependencies]
      split
      next missing =>
        simp only [missing] at listed
        exact ih listed
      next fields found =>
        simp only [found, List.mem_append] at listed
        rcases listed with here | later
        · exact makes_first (makes_generateDependencies ends mentioned here makes)
        · obtain ⟨generated, returned⟩ :=
            @generateDependencies_ends installed generate files (fields.map Prod.fst) ends
          exact makes_next returned (makes_first (ih later))
      next other notObject found =>
        simp only [found] at listed
        cases listed

/-- A text includes itself. -/
theorem includes_self (text : Text) : Text.includes text text = true := by
  rw [Text.includes, List.any_eq_true]
  refine ⟨text, ?_, ?_⟩
  · rw [List.mem_tails]
  · rw [List.isPrefixOf_iff_prefix]

/-- The directory at the type root holds one declaration file. -/
theorem getAllDeclarationFiles_returns (clean : path.hasNul = false) (content : Text) :
    Returns installed (getAllDeclarationFiles (depth + 1) path)
      (.ok [(path.entry "x.d.ts".toList, content)]) := by
  have isFile : Returns installed (FileCall.isFile path).io (.ok (false : Bool)) :=
    returns_io_ok (by simpa [FileCall.paths] using clean) (by rintro ⟨⟩)
  have listed : Returns installed (FileCall.readDir path).io
      (.ok ([.ok ⟨"x.d.ts".toList, .ok false⟩] : List (Except IoErrorKind DirEntry))) := by
    refine returns_io_ok (by simpa [FileCall.paths] using clean) ?_
    intro entry member
    obtain rfl := Except.ok.inj (List.mem_singleton.mp member)
    decide
  have different : path.entry "x.d.ts".toList ≠ path := by
    intro same
    have lengths := congrArg (fun path => path.components.length) same
    simp [UnixPath.entry] at lengths
  have cleanEntry : (path.entry "x.d.ts".toList).hasNul = false := by
    rw [hasNul_entry, clean]
    decide
  have one : Returns installed (declarationEntry (getAllDeclarationFiles depth) path path
      (.ok ⟨"x.d.ts".toList, .ok false⟩)) (.ok [(path.entry "x.d.ts".toList, content)]) := by
    rw [declarationEntry]
    simp only [if_neg different]
    rw [if_pos (by decide)]
    exact Calls.returns_bind_ok (readToString_returns_ok cleanEntry content) rfl
  refine Calls.returns_bind_ok isFile ?_
  rw [if_neg (by decide)]
  refine Calls.returns_bind_ok listed ?_
  rw [List.mapM_cons, List.mapM_nil]
  exact Calls.returns_bind_ok (Calls.returns_bind_ok one rfl) rfl

/-- A single file may be converted to a path of its own. -/
theorem convertFiles_returns (clean : path.hasNul = false) (content : Text) :
    Returns installed (convertFiles [(path, content)]) (.ok [(nodeModules, content)]) := by
  have canonical : Returns installed (orFail (FileCall.canonicalize path).io)
      (.ok (some nodeModules : Option Text)) :=
    returns_orFail (returns_io_ok (by simpa [FileCall.paths] using clean) trivial)
  rw [convertFiles, List.mapM_cons, List.mapM_nil]
  refine Calls.returns_bind_ok (Calls.returns_bind_ok canonical ?_) rfl
  have last : fromLast nodeModules nodeModules = some nodeModules := by decide
  simp only [last]
  rfl

/-- The dependencies of a package are generated after its declarations. -/
theorem makes_dependency {pkgPath : UnixPath} {typeRoot dep : Text}
    (ends : ∀ dep, ∃ result, Returns installed (generate dep) result)
    (cleanName : (UnixPath.ofText name).hasNul = false)
    (clean : (pkgPath.join (.ofText typeRoot)).hasNul = false)
    (listed : dep ∈ dependencyNames json dependencyKeys)
    (makes : Makes installed (generate dep) made) :
    Makes installed (generateFrom (depth + 1) generate name pkgPath json (.string typeRoot)) made := by
  have cleanOut := (clean_paths cleanName).1
  have cleanTypes : (getPackageTypesPath name).hasNul = false := by
    rw [getPackageTypesPath, UnixPath.join_name (by decide), hasNul_entry, cleanOut]
    decide
  have cleanEntry :
      ((pkgPath.join (.ofText typeRoot)).entry "x.d.ts".toList).hasNul = false := by
    rw [hasNul_entry, clean]
    decide
  refine makes_next (Calls.returns_mapError_ok.mpr (getAllDeclarationFiles_returns clean dep)) ?_
  refine makes_next (convertFiles_returns cleanEntry dep) ?_
  have made : Returns installed (orFail (FileCall.createDirAll (getPackageOutPath name)).io)
      (.ok (() : Unit)) :=
    returns_orFail (returns_io_ok (by simpa [FileCall.paths] using cleanOut) trivial)
  have written : ∀ content, Returns installed
      (orFail (FileCall.write (getPackageTypesPath name) content).io) (.ok (() : Unit)) :=
    fun content => returns_orFail (returns_io_ok (by simpa [FileCall.paths] using cleanTypes) trivial)
  refine makes_next made (makes_next (written _) ?_)
  exact makes_first (makes_generateAllDependencies ends (by simp [includes_self]) listed makes)

/-- Generating types may end, whatever is installed. -/
theorem generateTypes_ends (depth : Nat) (name : Text) :
    ∃ result, Returns installed (generateTypes depth name) result := by
  cases depth with
  | zero => exact ⟨_, rfl⟩
  | succ depth =>
      exact ⟨_, Calls.returns_bind_error
        (Calls.returns_mapError_error (returns_io_error (.exists_ _) .other))⟩

/-- What happens for a dependency happens for the package. -/
theorem makes_of_dependency {typeRoot dep : Text}
    (declares : Declares installed name root json typeRoot)
    (clean : ((root.join (.ofText name)).join (.ofText typeRoot)).hasNul = false)
    (listed : dep ∈ dependencyNames json dependencyKeys)
    (makes : Makes installed (generateTypes depth dep) made) :
    ∃ depth, Makes installed (generateTypes depth name) made := by
  cases depth with
  | zero => exact makes.elim
  | succ depth =>
      exact ⟨depth + 2, makes_generateTypes declares.clean (makes_declared declares
        (makes_dependency (generateTypes_ends _) declares.clean clean listed makes))⟩

/-- What holds of the calls for a package holds of those for every package that
it reaches. -/
theorem confined_of_reaches {target : Text} (reaches : Reaches installed name target)
    (confined : ∀ depth made, Makes installed (generateTypes depth name) made →
      made.Confined cwd packagesDir) :
    ∀ depth made, Makes installed (generateTypes depth target) made →
      made.Confined cwd packagesDir := by
  induction reaches with
  | refl name => exact confined
  | dependency declares clean listed later ih =>
      refine ih fun depth made makes => ?_
      obtain ⟨deeper, makes⟩ := makes_of_dependency declares clean listed makes
      exact confined deeper made makes

/-- Every place of a package is reached. -/
theorem generateTypes_reaches
    (confined : ∀ depth made, Makes installed (generateTypes depth name) made →
      made.Confined cwd packagesDir) : SafePackage cwd installed name := by
  have first := confined 1 _ (makes_first (makes_orFail (FileCall.makes_io.mpr rfl)))
  have builtIn := Safe.of_made first List.mem_cons_self
  rcases clean : (UnixPath.ofText name).hasNul with _ | _
  · have places := clean_paths clean
    refine ⟨⟨?_, builtIn, ?_⟩, ?_⟩
    · have found : Returns installed (orFail (FileCall.exists_ (typesNodePath name)).io)
          (.ok (true : Bool)) :=
        returns_orFail (returns_io_ok (by simpa [FileCall.paths] using places.2) trivial)
      have created : Makes installed (generateTypes 1 name)
          (.createDirAll (getPackageOutPath name)) := by
        refine makes_next found ?_
        rw [if_pos rfl]
        refine makes_next (returns_orFail (readToString_returns_ok places.2 [])) ?_
        refine makes_next (convertFiles_returns places.2 []) ?_
        exact makes_first (makes_orFail (FileCall.makes_io.mpr rfl))
      exact Safe.of_made (confined 1 _ created) List.mem_cons_self
    · intro root isRoot
      have read : Makes installed (generateTypes 1 name) (.read (manifestPath root name)) := by
        refine makes_generateTypes clean ?_
        rcases List.mem_cons.mp isRoot with rfl | second
        · exact makes_readManifest
        · obtain rfl := List.mem_singleton.mp second
          exact makes_nextRoot makes_readManifest
      exact (Safe.of_made (confined 1 _ read) List.mem_cons_self).of_join_name (by decide)
        (by decide) (by decide)
    · intro root json typeRoot declares
      have inner : ∀ made, Makes installed (generateFrom 1 (generateTypes 1) name
          (root.join (.ofText name)) json (.string typeRoot)) made →
            made.Confined cwd packagesDir := fun made makes =>
        confined 2 made (makes_generateTypes clean (makes_declared declares makes))
      exact typeRoot_reached inner
  · have nul : ∀ base : UnixPath, base.hasNul = false →
        Safe cwd packagesDir (base.join (.ofText name)) :=
      fun base cleanBase => .inl ((hasNul_join cleanBase).trans clean)
    refine ⟨⟨nul _ (by decide), builtIn, fun root isRoot => nul _ (hasNul_root isRoot)⟩, ?_⟩
    intro root json typeRoot declares
    simp [declares.clean] at clean

/-- Types are served inside only when every package they reach is safe. -/
theorem getTypes_reaches
    (confined : ∀ depth made, Makes installed (getTypes depth name) made →
      made.Confined cwd packagesDir) :
    ∀ target, Reaches installed name target → SafePackage cwd installed target := by
  intro target reaches
  refine generateTypes_reaches (confined_of_reaches reaches fun depth made makes => ?_)
  have missing : Returns installed ((readTypes name).attempt : PackageM _)
      (.ok (.error .notFound)) :=
    Calls.returns_attempt.mpr
      (Calls.returns_bind_error (Calls.returns_bind_error (returns_io_error _ _)))
  exact confined depth made (makes_next missing makes)

end Types

end Reached

end Solpg.Server.Confinement
