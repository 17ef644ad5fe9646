import Solpg.Server.PackageConfinement

/-!
# Which packages are visited

`generate_types` calls itself for each dependency that the declarations mention, whether or not
the types of that package have been generated before. It comes to an end exactly when no chain of
such dependencies goes on forever.
-/

namespace Solpg.Server.Package

open Solpg.Std
open Calls Filter

/-- The answers to the file calls while types are generated. -/
abbrev Answers := (call : FileCall) → call.Answer

/-- The directory is an entry of the parent. A link is never a directory there. -/
def IsSubdirectory (answers : Answers) (child parent : UnixPath) : Prop :=
  ∃ (entries : List (Except IoErrorKind DirEntry)) (entry : DirEntry),
    answers (.readDir parent) = .ok entries ∧ .ok entry ∈ entries ∧ entry.isDir = .ok true ∧
      child = parent.entry entry.name

/-- What is installed, as the file calls show it. Nothing that they show changes while types are
generated, which are kept elsewhere. The directories are finite, and none of them is a file. -/
structure Modules where
  answers : Answers
  finite : WellFounded (IsSubdirectory answers)
  noFile : ∀ {child parent}, IsSubdirectory answers child parent →
    answers (.isFile child) ≠ .ok (true : Bool)

variable {modules : Modules} {name dep : Text} {path : UnixPath} {json : Json} {files : Files}

/-- With a bound that is large enough the result and the calls are always the same. -/
def Terminates (modules : Modules) (name : Text) : Prop :=
  ∃ depth, ∀ deeper, depth ≤ deeper →
    (generateTypes deeper name).run modules.answers = (generateTypes depth name).run modules.answers

/-! ## Declaration files -/

/-- An entry is settled when what is below it is. -/
theorem settled_declarationEntry {recurse : Nat → UnixPath → FileCalls IoErrorKind (List (UnixPath × Text))}
    {initialPath : UnixPath} (entry : Except IoErrorKind DirEntry)
    (recurses : ∀ found, entry = .ok found → found.isDir = .ok true →
      Settled modules.answers fun depth => recurse depth (path.entry found.name)) :
    Settled modules.answers fun depth => declarationEntry (recurse depth) initialPath path entry := by
  cases entry with
  | error kind => exact settled_const _
  | ok found =>
      simp only [declarationEntry]
      by_cases here : path.entry found.name = initialPath
      · simp only [if_pos here]
        exact settled_const _
      · simp only [if_neg here]
        rcases type : found.isDir with kind | _ | _
        · exact settled_const _
        · exact settled_const _
        · by_cases installed : found.name = nodeModules
          · simp only [if_pos installed]
            exact settled_const _
          · simp only [if_neg installed]
            exact recurses found rfl type

/-- A directory is settled when its subdirectories are. -/
theorem settled_listed {recurse : Nat → UnixPath → FileCalls IoErrorKind (List (UnixPath × Text))}
    (initialPath : UnixPath)
    (recurses : ∀ child, IsSubdirectory modules.answers child path →
      Settled modules.answers fun depth => recurse depth child)
    (finish : List (List (UnixPath × Text)) → List (UnixPath × Text)) :
    Settled modules.answers fun depth => (do
      let entries : List (Except IoErrorKind DirEntry) ← (FileCall.readDir path).io
      let files ← entries.mapM (declarationEntry (recurse depth) initialPath path)
      pure (finish files) : FileCalls IoErrorKind (List (UnixPath × Text))) := by
  refine Settled.bind (settled_const _) fun entries calls read => ?_
  refine Settled.bind (Settled.mapM fun entry member => ?_) fun _ _ _ => settled_const _
  refine settled_declarationEntry entry fun found same isDir => recurses _ ?_
  obtain ⟨depth, ran⟩ := read.exists
  exact ⟨entries, found, congrArg Prod.fst ran, same ▸ member, isDir, rfl⟩

/-- A directory that is no file ends with what is below it. -/
theorem settled_subdirectory (path : UnixPath)
    (noFile : modules.answers (.isFile path) ≠ .ok (true : Bool)) :
    Settled modules.answers fun depth => getAllDeclarationFiles depth path := by
  induction path using modules.finite.induction with
  | _ path ih =>
      refine Settled.of_succ ?_
      simp only [getAllDeclarationFiles]
      refine Settled.bind (settled_const _) fun isFile calls asked => ?_
      obtain ⟨depth, ran⟩ := asked.exists
      have directory : isFile = false := by
        rw [← Bool.not_eq_true]
        rintro rfl
        exact noFile (congrArg Prod.fst ran)
      subst directory
      exact settled_listed path (fun child below => ih child below (modules.noFile below)) _

/-- The search for declarations settles. -/
theorem settled_getAllDeclarationFiles (path : UnixPath) :
    Settled modules.answers fun depth => getAllDeclarationFiles depth path := by
  refine Settled.of_succ ?_
  simp only [getAllDeclarationFiles]
  refine Settled.bind (settled_const _) fun isFile calls asked => ?_
  have below : ∀ child parent, IsSubdirectory modules.answers child parent →
      Settled modules.answers fun depth => getAllDeclarationFiles depth child :=
    fun child _ below => settled_subdirectory child (modules.noFile below)
  cases isFile with
  | false => exact settled_listed path (fun child => below child path) _
  | true =>
      refine Settled.bind (settled_const _) fun content _ _ => ?_
      cases path.parent with
      | none => exact settled_const _
      | some parent => exact settled_listed path (fun child => below child parent) _

/-! ## Dependencies -/

/-- The root of the package whose `package.json` is the first that names types, with it and with
what it names. -/
def typesManifest (answers : Answers) (name : Text) : List UnixPath → Option (UnixPath × Json × Json)
  | [] => none
  | root :: rest =>
      match answers (.read ((root.join (.ofText name)).join (.ofText FileCall.manifestName))) with
      | .error .notFound => typesManifest answers name rest
      | .error .other => none
      | .ok bytes =>
          match bytes.json with
          | none => none
          | some json =>
              match field json "types".toList with
              | none => typesManifest answers name rest
              | some types => some (root, json, types)

/-- The declarations of the package are found and saved. -/
structure Declares (modules : Modules) (name : Text) (json : Json) (files : Files) : Prop where
  notBuiltIn : modules.answers (.exists_ (typesNodePath name)) = .ok (false : Bool)
  found : ∃ root typeRoot paths calls,
    typesManifest modules.answers name pkgRoots = some (root, json, .string typeRoot) ∧
      Settles modules.answers (fun depth =>
        getAllDeclarationFiles depth ((root.join (.ofText name)).join (.ofText typeRoot)))
        (.ok paths, calls) ∧
      ((convertFiles paths).run modules.answers).1 = .ok files
  directory : modules.answers (.createDirAll (getPackageOutPath name)) = .ok (() : Unit)
  saved : modules.answers (.write (getPackageTypesPath name)
    (.json (.array (files.map fun file => .array [.string file.1, .string file.2])))) =
      .ok (() : Unit)

/-- The dependency is listed and mentioned in the declarations of the package. -/
def DependsOn (modules : Modules) (name dep : Text) : Prop :=
  ∃ json files, Declares modules name json files ∧
    dep ∈ Confinement.dependencyNames json dependencyKeys ∧
      (files.any fun file => Text.includes file.2 dep) = true

variable {generate : Nat → Text → PackageM (Files × List Text)}

/-- Dependencies are settled when each is. -/
theorem settled_generateDependencies
    {deps : List Text} (each : ∀ dep ∈ deps, (files.any fun file => Text.includes file.2 dep) = true →
      Settled modules.answers fun depth => generate depth dep) :
    Settled modules.answers fun depth => generateDependencies (generate depth) files deps := by
  induction deps with
  | nil => exact settled_const _
  | cons dep rest ih =>
      have others := ih fun other member => each other (List.mem_cons_of_mem _ member)
      simp only [generateDependencies]
      by_cases mentioned : (files.any fun file => Text.includes file.2 dep) = true
      · simp only [if_pos mentioned]
        refine Settled.bind (each dep List.mem_cons_self mentioned).attempt fun generated _ _ => ?_
        refine Settled.bind others fun deps _ _ => ?_
        cases generated with
        | ok _ => exact settled_const _
        | error _ => exact settled_const _
      · simp only [if_neg mentioned]
        exact others

/-- All dependencies are settled when each is. -/
theorem settled_generateAllDependencies
    {keys : List Text} (each : ∀ dep ∈ Confinement.dependencyNames json keys,
      (files.any fun file => Text.includes file.2 dep) = true →
        Settled modules.answers fun depth => generate depth dep) :
    Settled modules.answers fun depth => generateAllDependencies (generate depth) files json keys := by
  induction keys with
  | nil => exact settled_const _
  | cons depKey rest ih =>
      simp only [Confinement.dependencyNames] at each
      simp only [generateAllDependencies]
      cases found : field json depKey with
      | none =>
          rw [found] at each
          exact ih each
      | some value =>
          rw [found] at each
          cases value with
          | object fields =>
              refine Settled.bind (settled_generateDependencies fun dep member =>
                each dep (List.mem_append_left _ member)) fun deps _ _ => ?_
              refine Settled.bind (ih fun dep member => each dep (List.mem_append_right _ member))
                fun others _ _ => ?_
              exact settled_const _
          | _ => exact settled_const _

/-- The run of a call that is passed on with `?`. -/
theorem run_orFail {call : FileCall} :
    ((orFail call.io : PackageM call.Value)).run modules.answers =
      ((modules.answers call).mapError .io, [call]) :=
  run_mapError

/-- A call that settles with a value has it for its answer. -/
theorem answer_of_settles {call : FileCall} {value : call.Value} {calls : List FileCall}
    (settles : Settles modules.answers (fun _ => (orFail call.io : PackageM call.Value))
      (.ok value, calls)) : modules.answers call = .ok value := by
  obtain ⟨depth, ran⟩ := settles.exists
  have answered := congrArg Prod.fst (run_orFail.symm.trans ran)
  cases answer : modules.answers call with
  | error kind =>
      rw [answer] at answered
      cases answered
  | ok other =>
      rw [answer] at answered
      cases answered
      rfl

/-- A call that is attempted settles with its answer. -/
theorem answer_of_attempt {call : FileCall} {answer : call.Answer} {calls : List FileCall}
    (settles : Settles modules.answers (fun _ => (call.io.attempt : PackageM call.Answer))
      (.ok answer, calls)) : modules.answers call = answer := by
  obtain ⟨depth, ran⟩ := settles.exists
  exact Except.ok.inj (congrArg Prod.fst ran)

/-- A package is settled when what it depends on is. -/
theorem settled_generateFrom {root : UnixPath} {types : Json}
    (notBuiltIn : modules.answers (.exists_ (typesNodePath name)) = .ok (false : Bool))
    (first : typesManifest modules.answers name pkgRoots = some (root, json, types))
    (each : ∀ dep, DependsOn modules name dep →
      Settled modules.answers fun depth => generate depth dep) :
    Settled modules.answers fun depth =>
      generateFrom depth (generate depth) name (root.join (.ofText name)) json types := by
  cases types with
  | string typeRoot =>
      refine Settled.bind (settled_getAllDeclarationFiles _).mapError fun paths calls found => ?_
      refine Settled.bind (settled_const _) fun files _ converted => ?_
      refine Settled.bind (settled_const _) fun _ _ created => ?_
      refine Settled.bind (settled_const _) fun _ _ written => ?_
      refine Settled.bind (settled_generateAllDependencies fun dep listed mentioned =>
        each dep ⟨json, files, ?_, listed, mentioned⟩) fun deps _ _ => settled_const _
      obtain ⟨⟨result, calls⟩, settles⟩ :=
        settled_getAllDeclarationFiles ((root.join (.ofText name)).join (.ofText typeRoot))
      obtain ⟨depth, same, ran⟩ := (settles.mapError.and found).exists
      obtain ⟨_, convertedTo⟩ := converted.exists
      have isPaths : result = .ok paths := by
        have ends := congrArg Prod.fst (same.symm.trans ran)
        cases result with
        | error kind => cases ends
        | ok _ =>
            cases ends
            rfl
      subst isPaths
      exact ⟨notBuiltIn, ⟨root, typeRoot, paths, calls, first, settles, congrArg Prod.fst convertedTo⟩,
        answer_of_settles created, answer_of_settles written⟩
  | _ => exact settled_const _

/-- A package is settled from each of its roots. -/
theorem settled_generateFromRoots
    (notBuiltIn : modules.answers (.exists_ (typesNodePath name)) = .ok (false : Bool))
    (each : ∀ dep, DependsOn modules name dep →
      Settled modules.answers fun depth => generate depth dep)
    (roots : List UnixPath)
    (first : typesManifest modules.answers name pkgRoots = typesManifest modules.answers name roots) :
    Settled modules.answers fun depth => generateFromRoots depth (generate depth) name roots := by
  induction roots with
  | nil => exact settled_const _
  | cons root rest ih =>
      simp only [generateFromRoots]
      refine Settled.bind (settled_const _) fun manifest _ read => ?_
      have answer := answer_of_attempt read
      rw [typesManifest, answer] at first
      rcases manifest with (_ | _) | bytes
      · exact ih first
      · exact settled_const _
      · simp only at first ⊢
        cases parsed : bytes.json with
        | none => exact settled_const _
        | some json =>
            rw [parsed] at first
            simp only at first ⊢
            cases typed : field json "types".toList with
            | none =>
                rw [typed] at first
                exact ih first
            | some types =>
                rw [typed] at first
                exact settled_generateFrom notBuiltIn first each

/-- Where no chain of dependencies goes on forever, the recursion ends. -/
theorem settled_generateTypes (ends : Acc (fun dep name => DependsOn modules name dep) name) :
    Settled modules.answers fun depth => generateTypes depth name := by
  induction ends with
  | intro name _ ih =>
      refine Settled.of_succ ?_
      simp only [generateTypes]
      refine Settled.bind (settled_const _) fun builtIn _ asked => ?_
      have answer := answer_of_settles asked
      cases builtIn with
      | true => exact settled_const _
      | false => exact settled_generateFromRoots answer ih pkgRoots rfl

/-! ## Chains of dependencies -/

section Chains

variable {generate : Text → PackageM (Files × List Text)} {count : Nat}

/-- Whatever becomes of the dependencies, the loop goes on. -/
theorem generateDependencies_ok (deps : List Text) : ∃ generated,
    ((generateDependencies generate files deps).run modules.answers).1 = .ok generated := by
  induction deps with
  | nil => exact ⟨[], rfl⟩
  | cons dep rest ih =>
      obtain ⟨others, ran⟩ := ih
      simp only [generateDependencies]
      split
      · rw [run_bind_ok run_attempt, run_bind_ok (Prod.ext ran rfl)]
        cases ((generate dep).run modules.answers).1 with
        | ok _ => exact ⟨dep :: others, rfl⟩
        | error _ => exact ⟨others, rfl⟩
      · exact ⟨others, ran⟩

/-- Dependencies make as many calls as one that is mentioned. -/
theorem long_generateDependencies {deps : List Text}
    (long : count ≤ ((generate dep).run modules.answers).2.length) (listed : dep ∈ deps)
    (mentioned : (files.any fun file => Text.includes file.2 dep) = true) :
    count ≤ ((generateDependencies generate files deps).run modules.answers).2.length := by
  induction deps with
  | nil => cases listed
  | cons first rest ih =>
      simp only [generateDependencies]
      rcases List.mem_cons.mp listed with rfl | later
      · rw [if_pos mentioned]
        refine le_length_bind ?_
        rwa [run_attempt]
      · split
        · refine (Nat.le_add_left _ _).trans (le_length_bind_next run_attempt ?_)
          exact le_length_bind (ih later)
        · exact ih later

/-- All dependencies make as many calls as one that is mentioned. -/
theorem long_generateAllDependencies {keys : List Text}
    (long : count ≤ ((generate dep).run modules.answers).2.length)
    (listed : dep ∈ Confinement.dependencyNames json keys)
    (mentioned : (files.any fun file => Text.includes file.2 dep) = true) :
    count ≤ ((generateAllDependencies generate files json keys).run modules.answers).2.length := by
  induction keys with
  | nil => cases listed
  | cons depKey rest ih =>
      simp only [Confinement.dependencyNames] at listed
      simp only [generateAllDependencies]
      rcases found : field json depKey with _ | value
      · rw [found] at listed
        exact ih listed
      · rw [found] at listed
        cases value with
        | object fields => ?_
        | _ => cases listed
        rcases List.mem_append.mp listed with here | later
        · exact le_length_bind (long_generateDependencies long here mentioned)
        · obtain ⟨generated, ran⟩ :=
            @generateDependencies_ok modules files generate (fields.map Prod.fst)
          exact (Nat.le_add_left _ _).trans
            (le_length_bind_next (Prod.ext ran rfl) (le_length_bind (ih later)))

/-- The program only reads before it goes on like the other one. -/
def ReadsFirst {α : Type} (answers : Answers) (program other : PackageM α) : Prop :=
  ∃ reads : List FileCall, (∀ call ∈ reads, call.isWrite = false) ∧
    program.run answers = ((other.run answers).1, reads ++ (other.run answers).2)

/-- One more read comes first. -/
theorem ReadsFirst.bind {α β : Type} {answers : Answers} {read : PackageM α} {next : α → PackageM β}
    {other : PackageM β} {value : α} {path : UnixPath}
    (ran : read.run answers = (.ok value, [.read path]))
    (later : ReadsFirst answers (next value) other) : ReadsFirst answers (read >>= next) other := by
  obtain ⟨reads, quiet, same⟩ := later
  refine ⟨.read path :: reads, List.forall_mem_cons.mpr ⟨rfl, quiet⟩, ?_⟩
  rw [run_bind_ok ran, same]
  rfl

/-- The manifests are only read until the one that is found. -/
theorem readsFirst_generateFromRoots {answers : Answers} {depth : Nat} {root : UnixPath}
    {types : Json} {roots : List UnixPath}
    (first : typesManifest answers name roots = some (root, json, types)) :
    ReadsFirst answers (generateFromRoots depth generate name roots)
      (generateFrom depth generate name (root.join (.ofText name)) json types) := by
  induction roots with
  | nil => cases first
  | cons next rest ih =>
      rw [typesManifest] at first
      simp only [generateFromRoots]
      have read : ((FileCall.read ((next.join (.ofText name)).join
          (.ofText FileCall.manifestName))).io.attempt : PackageM _).run answers =
            (.ok (answers (.read _)), [.read _]) := rfl
      refine .bind read ?_
      rcases answer : answers (.read ((next.join (.ofText name)).join
        (.ofText FileCall.manifestName))) with (_ | _) | bytes
      · rw [answer] at first
        exact ih first
      · rw [answer] at first
        cases first
      · rw [answer] at first
        simp only at first ⊢
        cases parsed : bytes.json with
        | none =>
            rw [parsed] at first
            cases first
        | some manifest =>
            rw [parsed] at first
            simp only at first ⊢
            cases typed : field manifest "types".toList with
            | none =>
                rw [typed] at first
                exact ih first
            | some found =>
                rw [typed] at first
                cases first
                exact ⟨[], fun _ member => absurd member List.not_mem_nil, rfl⟩

/-- A package makes one call more than a package that it depends on. -/
theorem long_generateTypes (depends : DependsOn modules name dep)
    (long : ∀ᶠ depth in atTop, count ≤ ((generateTypes depth dep).run modules.answers).2.length) :
    ∀ᶠ depth in atTop, count + 1 ≤ ((generateTypes depth name).run modules.answers).2.length := by
  obtain ⟨json, files, declares, listed, mentioned⟩ := depends
  obtain ⟨root, typeRoot, paths, calls, first, found, converted⟩ := declares.found
  obtain ⟨bound, all⟩ := eventually_atTop.mp (long.and found)
  refine eventually_atTop.mpr ⟨bound + 1, fun depth above => ?_⟩
  obtain ⟨depth, rfl⟩ := Nat.exists_eq_add_of_le' above
  obtain ⟨longer, paths_⟩ := all (depth + bound) (Nat.le_add_left _ _)
  rw [← Nat.add_assoc, generateTypes, Nat.add_comm count]
  refine le_length_bind_next (run_orFail.trans (by rw [declares.notBuiltIn]; rfl)) ?_
  rw [if_neg (by simp)]
  obtain ⟨reads, -, ran⟩ := readsFirst_generateFromRoots first
  rw [ran, List.length_append]
  refine le_trans ?_ (Nat.le_add_left _ _)
  have shown : ((getAllDeclarationFiles (depth + bound)
      ((root.join (.ofText name)).join (.ofText typeRoot))).mapError fun kind =>
        Error.context ("Failed to get type paths: `".toList ++ name ++ "`".toList) kind).run
          modules.answers = (.ok paths, calls) := by
    rw [run_mapError, show run modules.answers _ = _ from paths_]
    rfl
  refine (Nat.le_add_left _ _).trans (le_length_bind_next shown ?_)
  refine (Nat.le_add_left _ _).trans (le_length_bind_next (Prod.ext converted rfl) ?_)
  refine (Nat.le_add_left _ _).trans (le_length_bind_next
    (run_orFail.trans (by rw [declares.directory]; rfl)) ?_)
  refine (Nat.le_add_left _ _).trans (le_length_bind_next
    (run_orFail.trans (by rw [declares.saved]; rfl)) ?_)
  exact le_length_bind (long_generateAllDependencies longer listed mentioned)

/-- Along a chain of dependencies without an end the calls never end. -/
theorem not_settled_of_chain {chain : Nat → Text}
    (depends : ∀ index, DependsOn modules (chain index) (chain (index + 1))) :
    ¬ Settled modules.answers fun depth => generateTypes depth (chain 0) := by
  have long : ∀ count index, ∀ᶠ depth in atTop,
      count ≤ ((generateTypes depth (chain index)).run modules.answers).2.length := by
    intro count
    induction count with
    | zero => exact fun _ => Eventually.of_forall fun _ => Nat.zero_le _
    | succ count ih => exact fun index => long_generateTypes (depends index) (ih (index + 1))
  rintro ⟨run, settles⟩
  obtain ⟨depth, longer, same⟩ := ((long (run.2.length + 1) 0).and settles).exists
  rw [same] at longer
  omega

end Chains

/-- Generating types ends exactly when no chain of dependencies that the declarations mention
goes on forever. -/
theorem terminates_iff (modules : Modules) (name : Text) : Terminates modules name ↔
    ¬ ∃ chain : Nat → Text, chain 0 = name ∧
      ∀ index, DependsOn modules (chain index) (chain (index + 1)) := by
  refine settled_iff.symm.trans ⟨?_, fun ends => ?_⟩
  · rintro settled ⟨chain, rfl, depends⟩
    exact not_settled_of_chain depends settled
  · refine settled_generateTypes ?_
    by_contra endless
    obtain ⟨chain, start, descends⟩ := not_acc_iff_exists_descending_chain.mp endless
    exact ends ⟨chain, start, descends⟩

/-- A package that depends on itself. -/
def selfManifest : Json :=
  .object [("types".toList, .string "a.d.ts".toList),
    ("dependencies".toList, .object [("a".toList, .string "1".toList)])]

/-- The answers for a package that depends on itself. -/
def selfAnswers : Answers
  | .exists_ _ => .ok (false : Bool)
  | .read path =>
      if path = Confinement.manifestPath getNodeModulesPath "a".toList then
        .ok (⟨none, some selfManifest⟩ : FileBytes)
      else .ok (⟨some "a".toList, none⟩ : FileBytes)
  | .isFile _ => .ok (true : Bool)
  | .readDir _ => .ok ([] : List (Except IoErrorKind DirEntry))
  | .canonicalize _ => .ok (some nodeModules : Option Text)
  | .write _ _ | .createDirAll _ | .removeDirAll _ | .copy _ _ => .ok (() : Unit)
  | .run _ _ => .error .other

/-- They have no subdirectories. -/
theorem selfAnswers_noSubdirectory (child parent : UnixPath) :
    ¬ IsSubdirectory selfAnswers child parent := by
  rintro ⟨entries, entry, read, member, -⟩
  cases read
  cases member

/-- The modules of the package. -/
def selfModules : Modules where
  answers := selfAnswers
  finite := ⟨fun path => ⟨path, fun child below =>
    absurd below (selfAnswers_noSubdirectory child path)⟩⟩
  noFile below := absurd below (selfAnswers_noSubdirectory _ _)

/-- The package depends on itself. -/
theorem selfModules_dependsOn : DependsOn selfModules "a".toList "a".toList := by
  let typeRoot : UnixPath := (getNodeModulesPath.join (.ofText "a".toList)).join
    (.ofText "a.d.ts".toList)
  have found : Settles selfAnswers (fun depth => getAllDeclarationFiles depth typeRoot)
      (.ok [(typeRoot, "a".toList)], [.isFile typeRoot, .read typeRoot,
        .readDir (getNodeModulesPath.join (.ofText "a".toList))]) := by
    refine eventually_atTop.mpr ⟨1, fun depth above => ?_⟩
    obtain ⟨depth, rfl⟩ := Nat.exists_eq_add_of_le' above
    rfl
  refine ⟨selfManifest, [(nodeModules, "a".toList)], ⟨rfl, ?_, rfl, rfl⟩, by decide, by decide⟩
  exact ⟨getNodeModulesPath, "a.d.ts".toList, _, _, rfl, found, rfl⟩

/-- The package is visited over and over again. -/
theorem not_always_terminates : ¬ ∀ modules name, Terminates modules name := fun always =>
  @not_settled_of_chain selfModules (fun _ => "a".toList) (fun _ => selfModules_dependsOn)
    (settled_iff.mpr (always selfModules "a".toList))

end Solpg.Server.Package
