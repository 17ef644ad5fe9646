import Solpg.Client.Frameworks.RoundTrip

/-!
# Projects that are imported and exported

A playground project that is exported to a framework and imported again has its paths back exactly
when each path comes back for itself: no path is led to a longer one, so that paths cannot take
each other's places.
-/

namespace Solpg.Client.Frameworks

open Solpg.Std Solpg.Client.Utils PgCommon

variable {path place inner base : Text} {client : Surroundings} {files exported : TupleFiles}
  {choice : List Text → Option Text}

/-! ## All paths -/

/-- The paths come back exactly when each one comes back for itself. -/
theorem samePaths_iff (back : Text → Option Text) {paths places : List Text}
    (reached : ∀ place, place ∈ places ↔ ∃ path ∈ paths, back path = some place)
    (shrinks : ∀ path ∈ paths, Shrinks path (back path)) :
    (∀ path, path ∈ places ↔ path ∈ paths) ↔ ∀ path ∈ paths, back path = some path := by
  constructor
  · intro same
    refine fixed_of_shrinks List.length shrinks fun path among => ?_
    exact (reached path).mp ((same path).mpr among)
  · intro fixed path
    rw [reached]
    constructor
    · rintro ⟨source, among, goes⟩
      obtain rfl : source = path := by simpa [fixed source among] using goes
      exact among
    · exact fun among => ⟨path, among, fixed path among⟩

/-- The files of a project are where the playground has them. -/
def IsPlayground (files : TupleFiles) : Prop := ∀ file ∈ files, PlaygroundPath file.1

/-- The sources have no source directory and the clients no client directory below their own, and
no test has anything of the clients or a directory of tests below its own. -/
structure Returns (path : Text) : Prop where
  source : ∀ inner, path = below srcDirname inner → Free (srcDirname ++ slash) inner
  client : ∀ inner, path = below clientDirname inner → Free (clientDirname ++ slash) inner
  test : ∀ inner, path = below testsDirname inner →
    Free clientDirname inner ∧ ¬ testsDirname ++ slash <:+: inner

/-- A source file comes back when its path has no second source directory. -/
theorem returns_source_iff : Returns (below srcDirname inner) ↔ Free (srcDirname ++ slash) inner := by
  constructor
  · exact fun returns => returns.source inner rfl
  · intro free
    refine ⟨fun other same => ?_, fun _ same => ?_, fun _ same => ?_⟩
    · obtain rfl : inner = other := by simpa [below] using same
      exact free
    · simp [below, srcDirname, clientDirname] at same
    · simp [below, srcDirname, testsDirname] at same

/-- A client file comes back when its path has no second client directory. -/
theorem returns_client_iff :
    Returns (below clientDirname inner) ↔ Free (clientDirname ++ slash) inner := by
  constructor
  · exact fun returns => returns.client inner rfl
  · intro free
    refine ⟨fun _ same => ?_, fun other same => ?_, fun _ same => ?_⟩
    · simp [below, srcDirname, clientDirname] at same
    · obtain rfl : inner = other := by simpa [below] using same
      exact free
    · simp [below, clientDirname, testsDirname] at same

/-- A test comes back when its path has neither a client nor a second test directory. -/
theorem returns_test_iff : Returns (below testsDirname inner) ↔
    Free clientDirname inner ∧ ¬ testsDirname ++ slash <:+: inner := by
  constructor
  · exact fun returns => returns.test inner rfl
  · intro free
    refine ⟨fun _ same => ?_, fun _ same => ?_, fun other same => ?_⟩
    · simp [below, srcDirname, testsDirname] at same
    · simp [below, clientDirname, testsDirname] at same
    · obtain rfl : inner = other := by simpa [below] using same
      exact free

/-- A path with a slash appended is a directory. -/
theorem isDirectory_appendSlash (path : Text) : IsDirectory (appendSlash path) :=
  .inr (List.isSuffixOf_iff_suffix.mp (endsWith_appendSlash path))

/-- A file that is neither a source nor a script has no place. -/
theorem playgroundPath_other (name : Text) (within : name <:+ path) (long : 3 ≤ name.length)
    (other : ∀ ending ∈ rustEndings ++ jsEndings, ¬ ending <:+ name) : playgroundPath path = none := by
  have misfits : ∀ (word : Text) (endings : List Text), endings ⊆ rustEndings ++ jsEndings →
      firstTail (matchesToEnd word endings) path = none := by
    intro word endings among
    rw [firstTail_misfits]
    rintro _ suffix ⟨rest, rfl, -, -, ending, isEnding, ends⟩
    have short : ending.length ≤ 3 := by
      have all : ∀ ending ∈ rustEndings ++ jsEndings, ending.length ≤ 3 := by decide
      exact all ending (among isEnding)
    refine other ending (among isEnding) (List.suffix_of_suffix_length_le ?_ within (by omega))
    exact ends.trans ((List.suffix_append _ _).trans suffix)
  rw [playgroundPath, misfits _ _ (List.subset_append_left _ _),
    misfits _ _ (List.subset_append_right _ _), misfits _ _ (List.subset_append_right _ _)]
  rfl

namespace Anchor

/-- A source file is exported below the program. -/
theorem frameworkPath_source (programPath : Text) :
    frameworkPath programPath (below srcDirname inner) =
      some (appendSlash programPath ++ below srcDirname inner) := rfl

/-- A client file is exported under its own path. -/
theorem frameworkPath_client (programPath : Text) :
    frameworkPath programPath (below clientDirname inner) = some (below clientDirname inner) := rfl

/-- A test is exported under the name of an exported test. -/
theorem frameworkPath_test (programPath : Text) :
    frameworkPath programPath (below testsDirname inner) =
      some (exportedTest (below testsDirname inner)) := rfl

/-- Every path of a playground project is exported. -/
theorem exports (programPath : Text) (isPath : PlaygroundPath path) :
    ∃ exported, frameworkPath programPath path = some exported := by
  cases isPath with
  | source => exact ⟨_, frameworkPath_source programPath⟩
  | client => exact ⟨_, frameworkPath_client programPath⟩
  | test => exact ⟨_, frameworkPath_test programPath⟩

/-- A path that goes out and in again never grows. -/
theorem shrinks {programPath exported : Text} (isPath : PlaygroundPath path)
    (goes : frameworkPath programPath path = some exported) :
    Shrinks path (playgroundPath exported) := by
  cases isPath with
  | source inner rust =>
      obtain rfl := Option.some.inj (frameworkPath_source programPath ▸ goes)
      exact source_shrinks (isDirectory_appendSlash programPath) rust
  | client inner script =>
      obtain rfl := Option.some.inj (frameworkPath_client programPath ▸ goes)
      exact client_shrinks script
  | test inner test =>
      obtain rfl := Option.some.inj (frameworkPath_test programPath ▸ goes)
      intro place found
      exact (anchor_test_goes (suffix_below test) found).imp_left And.left

/-- A path comes back exactly when it returns and lies outside other programs. -/
theorem returns_iff {programPath exported : Text} (isPath : PlaygroundPath path)
    (goes : frameworkPath programPath path = some exported) :
    playgroundPath exported = some path ↔
      Returns path ∧ ∀ inner, path = below testsDirname inner → EndsOnce path := by
  cases isPath with
  | source inner rust =>
      obtain rfl := Option.some.inj (frameworkPath_source programPath ▸ goes)
      rw [playgroundPath_source (isDirectory_appendSlash programPath) rust, returns_source_iff]
      refine (and_iff_left fun other same => ?_).symm
      simp [below, srcDirname, testsDirname] at same
  | client inner script =>
      obtain rfl := Option.some.inj (frameworkPath_client programPath ▸ goes)
      rw [client_returns_iff script, returns_client_iff]
      refine (and_iff_left fun other same => ?_).symm
      simp [below, clientDirname, testsDirname] at same
  | test inner test =>
      obtain rfl := Option.some.inj (frameworkPath_test programPath ▸ goes)
      rw [anchor_test_returns_iff test, returns_test_iff]
      exact and_congr_right fun _ => ⟨fun once _ _ => once, fun once => once _ rfl⟩

end Anchor

namespace Native

/-- A path that goes out and in again never grows. -/
theorem shrinks {exported : Text} (isPath : PlaygroundPath path)
    (goes : frameworkPath path = some exported) : Shrinks path (playgroundPath exported) := by
  cases isPath with
  | source inner rust =>
      obtain rfl : appendSlash programPath ++ below srcDirname inner = exported := Option.some.inj goes
      exact source_shrinks (isDirectory_appendSlash programPath) rust
  | client inner script =>
      obtain rfl : below clientDirname inner = exported := Option.some.inj goes
      exact client_shrinks script
  | test inner test =>
      obtain rfl : below testsDirname inner = exported := Option.some.inj goes
      intro place found
      exact (native_test_goes test found).imp_left And.left

/-- A path comes back exactly when it returns. -/
theorem returns_iff {exported : Text} (isPath : PlaygroundPath path)
    (goes : frameworkPath path = some exported) :
    playgroundPath exported = some path ↔ Returns path := by
  cases isPath with
  | source inner rust =>
      obtain rfl : appendSlash programPath ++ below srcDirname inner = exported := Option.some.inj goes
      rw [playgroundPath_source (isDirectory_appendSlash programPath) rust, returns_source_iff]
      rfl
  | client inner script =>
      obtain rfl : below clientDirname inner = exported := Option.some.inj goes
      rw [client_returns_iff script, returns_client_iff]
  | test inner test =>
      obtain rfl : below testsDirname inner = exported := Option.some.inj goes
      rw [native_test_returns_iff test, returns_test_iff]

end Native

/-- A user selects one of the programs. -/
def Selects (choice : List Text → Option Text) : Prop :=
  ∀ names, 1 < names.length → ∃ name ∈ names, choice names = some name

/-- The files come back with the paths that they had. -/
def SamePaths (result : Except Text TupleFiles) (files : TupleFiles) : Prop :=
  ∃ places, result = .ok places ∧ ∀ path, path ∈ places.map Prod.fst ↔ path ∈ files.map Prod.fst

/-- What an import makes of a project whose files are exported one by one, with files added that
have no place: the same paths exactly when each exported path is left and leads back. -/
theorem imported_iff (keep : Text → Bool) {paths added : List Text}
    {exportPath : Text → Option Text}
    (shrinks : ∀ path ∈ paths, ∀ place, exportPath path = some place →
      Shrinks path (playgroundPath place))
    (exports : ∀ path ∈ paths, ∃ place, exportPath path = some place)
    (parts : exported.map Prod.fst = paths.filterMap exportPath ++ added)
    (nowhere : ∀ path ∈ added, playgroundPath path = none) :
    (∀ path, path ∈ (convertToPlaygroundCommon
        (exported.filter fun file => keep file.1)).map Prod.fst ↔ path ∈ paths) ↔
      ∀ path ∈ paths, ∀ place, exportPath path = some place →
        keep place = true ∧ playgroundPath place = some path := by
  let back (path : Text) : Option Text :=
    (exportPath path).bind fun place => if keep place then playgroundPath place else none
  have among : ∀ path, (∃ file ∈ exported, file.1 = path) ↔
      (∃ source ∈ paths, exportPath source = some path) ∨ path ∈ added := by
    intro path
    rw [← List.mem_filterMap, ← List.mem_append, ← parts, List.mem_map]
  rw [samePaths_iff back]
  · constructor
    · intro fixed path within place goes
      have returns := fixed path within
      simp only [back, goes, Option.bind_some, ite_eq_iff, reduceCtorEq, and_false, or_false]
        at returns
      exact returns
    · intro returns path within
      obtain ⟨place, goes⟩ := exports path within
      obtain ⟨kept, leads⟩ := returns path within place goes
      simp [back, goes, kept, leads]
  · intro place
    rw [mem_places]
    constructor
    · rintro ⟨file, found, leads⟩
      obtain ⟨inside, kept⟩ := List.mem_filter.mp found
      rcases (among file.1).mp ⟨file, inside, rfl⟩ with ⟨source, within, goes⟩ | extra
      · exact ⟨source, within, by simp only [back, goes, Option.bind_some, kept, if_true, leads]⟩
      · simp [nowhere _ extra] at leads
    · rintro ⟨source, within, leads⟩
      simp only [back, Option.bind_eq_some_iff, ite_eq_iff, reduceCtorEq, and_false, or_false]
        at leads
      obtain ⟨path, goes, kept, leads⟩ := leads
      obtain ⟨file, inside, rfl⟩ := (among path).mpr (.inl ⟨source, within, goes⟩)
      exact ⟨file, List.mem_filter.mpr ⟨inside, kept⟩, leads⟩
  · intro path within place leads
    simp only [back, Option.bind_eq_some_iff, ite_eq_iff, reduceCtorEq, and_false, or_false]
      at leads
    obtain ⟨exportedPath, goes, -, leads⟩ := leads
    exact shrinks path within exportedPath goes place leads

namespace Anchor

/-- The paths of the exported project. -/
def exportedPaths (client : Surroundings) (programName : Text) (files : TupleFiles) : List Text :=
  (files.map Prod.fst).filterMap (frameworkPath (programPathOf programName)) ++
    addedPaths client programName

/-- The names of programs that are read off paths. -/
def readNames (paths : List Text) : List Text := (paths.filterMap programName).eraseDups

/-- The program names are read from the paths alone. -/
theorem programNames_eq (files : TupleFiles) : programNames files = readNames (files.map Prod.fst) := by
  rw [programNames, readNames, List.filterMap_map]
  rfl

/-- No added file has a place in the playground. -/
theorem added_nowhere {programName : Text}
    (among : path ∈ addedPaths client programName) : playgroundPath path = none := by
  simp only [addedPaths, List.mem_append, List.mem_cons, List.not_mem_nil, or_false] at among
  rcases among with fixed | keypair
  · rcases fixed with rfl | rfl | rfl | rfl | rfl | rfl | rfl | rfl | rfl | rfl
    case inr.inl => decide
    case inr.inr.inl =>
      exact playgroundPath_other Native.cargoToml (List.suffix_append _ _) (by decide) (by decide)
    case inr.inr.inr.inl =>
      exact playgroundPath_other "Xargo.toml".toList (List.suffix_append _ _) (by decide) (by decide)
    all_goals exact playgroundPath_other _ List.suffix_rfl (by decide) (by decide)
  · split at keypair
    · obtain rfl := List.mem_singleton.mp keypair
      refine playgroundPath_other "keypair.json".toList ?_ (by decide) (by decide)
      refine List.IsSuffix.trans ?_ (List.suffix_append _ _)
      cases programName with
      | nil => exact ⟨['-'], rfl⟩
      | cons first rest =>
          have within : "keypair.json".toList <:+ rest ++ "-keypair.json".toList :=
            List.IsSuffix.trans ⟨['-'], rfl⟩ (List.suffix_append _ _)
          by_cases isSlash : first = '/'
          · subst isSlash
            exact within
          · rw [List.cons_append, withoutPreSlash.eq_2 _ fun _ same => isSlash (List.cons.inj same).1]
            exact within.trans (List.suffix_cons _ _)
    · cases keypair

/-- The exported paths are those of the files beside the generated ones. -/
theorem paths_exported {content : Text}
    (found : libContent files = some content)
    (converted : convertFromPlayground client files = .ok exported) :
    exported.map Prod.fst = exportedPaths client (programNameOf client content) files := by
  rw [convertFromPlayground, found] at converted
  obtain rfl := Except.ok.inj converted
  rw [exportedPaths, List.map_append, List.map_filterMap, List.filterMap_map, List.map_map]
  congr 1
  · apply List.filterMap_congr
    intro file _
    simp [Function.comp_def]
  · simp [Function.comp_def]

/-- The paths come back from the files that are kept when every file is kept and leads back. -/
theorem imports_iff {content : Text}
    (isPlayground : IsPlayground files) (found : libContent files = some content)
    (converted : convertFromPlayground client files = .ok exported) (keep : Text → Bool) :
    (∀ path, path ∈ (convertToPlaygroundCommon
        (exported.filter fun file => keep file.1)).map Prod.fst ↔ path ∈ files.map Prod.fst) ↔
      ∀ file ∈ files,
        (∀ place, frameworkPath (programPathOf (programNameOf client content)) file.1 = some place →
          keep place = true) ∧
        Returns file.1 ∧ ∀ inner, file.1 = below testsDirname inner → EndsOnce file.1 := by
  have isPath : ∀ path ∈ files.map Prod.fst, PlaygroundPath path := by
    intro path among
    obtain ⟨file, within, rfl⟩ := List.mem_map.mp among
    exact isPlayground file within
  rw [imported_iff keep (fun path among _ => shrinks (isPath path among))
    (fun path among => exports _ (isPath path among)) (paths_exported found converted)
    fun _ => added_nowhere]
  refine List.forall_mem_map.trans (forall₂_congr fun file among => ?_)
  constructor
  · intro leads
    obtain ⟨place, goes⟩ := exports (programPathOf (programNameOf client content))
      (isPlayground file among)
    refine ⟨fun other exported => (leads other exported).1, ?_⟩
    exact (returns_iff (isPlayground file among) goes).mp (leads place goes).2
  · rintro ⟨kept, returns⟩ place goes
    exact ⟨kept place goes, (returns_iff (isPlayground file among) goes).mpr returns⟩

/-- With several programs the chosen one is converted. -/
theorem convertToPlayground_several {name : Text} (several : 1 < (programNames files).length)
    (chosen : choice (programNames files) = some name) (named : name ≠ []) :
    convertToPlayground choice files =
      .ok (convertToPlaygroundCommon (files.filter fun file => keeps name file.1)) := by
  have selected : selectProgram choice (programNames files) = .ok name := by
    simp [selectProgram, chosen, named]
  rw [convertToPlayground, kept]
  simp only [several, if_true, selected]
  rfl

/-- With several programs and none chosen the conversion fails. -/
theorem convertToPlayground_unnamed
    (several : 1 < (programNames files).length) (chosen : choice (programNames files) = some []) :
    convertToPlayground choice files = .error "Program not selected".toList := by
  have selected : selectProgram choice (programNames files) =
      .error "Program not selected".toList := by simp [selectProgram, chosen]
  rw [convertToPlayground, kept]
  simp only [several, if_true, selected]
  rfl

/-- A single program is converted without a choice. -/
theorem convertToPlayground_single (single : ¬ 1 < (programNames files).length) :
    convertToPlayground choice files = .ok (convertToPlaygroundCommon files) := by
  rw [convertToPlayground, kept]
  simp only [single, if_false]
  rfl

/-- A user who selects a given program wherever it can be selected. -/
theorem exists_selects (name : Text) :
    ∃ choice, Selects choice ∧ ∀ names, name ∈ names → choice names = some name := by
  refine ⟨fun names => if name ∈ names then some name else names.head?, ?_, ?_⟩
  · intro names several
    by_cases among : name ∈ names
    · exact ⟨name, among, if_pos among⟩
    · cases names with
      | nil => simp at several
      | cons first rest => exact ⟨first, List.mem_cons_self, if_neg among⟩
  · exact fun names among => if_pos among

/-- There is a library with a content, the paths of the exported project read as one program at
most or all of them belong to each program they read as, and each path comes back for itself. -/
def Exportable (client : Surroundings) (files : TupleFiles) : Prop :=
  ∃ content, libContent files = some content ∧
    (1 < (readNames (exportedPaths client (programNameOf client content) files)).length →
      ∀ name ∈ readNames (exportedPaths client (programNameOf client content) files),
        name ≠ [] ∧ ∀ file ∈ files, ∀ exported,
          frameworkPath (programPathOf (programNameOf client content)) file.1 = some exported →
            keeps name exported = true) ∧
    ∀ file ∈ files, Returns file.1 ∧ ∀ inner, file.1 = below testsDirname inner → EndsOnce file.1

/-- What the export and import again of an Anchor project give back. -/
theorem roundTrip_iff (isPlayground : IsPlayground files) :
    (∀ choice, Selects choice →
        SamePaths (convertFromPlayground client files >>= convertToPlayground choice) files) ↔
      Exportable client files := by
  unfold Exportable
  cases found : libContent files with
  | none =>
      have failed : convertFromPlayground client files = .error "lib.rs not found".toList := by
        rw [convertFromPlayground, found]
      constructor
      · intro same
        obtain ⟨choice, selects, -⟩ := exists_selects []
        obtain ⟨places, converted, -⟩ := same choice selects
        rw [failed] at converted
        cases converted
      · rintro ⟨content, other, -⟩
        cases other
  | some content =>
      obtain ⟨exported, converted⟩ : ∃ exported, convertFromPlayground client files = .ok exported := by
        rw [convertFromPlayground, found]
        exact ⟨_, rfl⟩
      have names : readNames (exportedPaths client (programNameOf client content) files) =
          programNames exported := by
        rw [programNames_eq, paths_exported found converted]
      have imports := imports_iff isPlayground found converted
      simp only [Option.some.injEq, exists_eq_left', names, converted]
      constructor
      · intro same
        by_cases several : 1 < (programNames exported).length
        · have each : ∀ name ∈ programNames exported, name ≠ [] ∧ ∀ file ∈ files,
              (∀ place, frameworkPath (programPathOf (programNameOf client content)) file.1 =
                some place → keeps name place = true) ∧
              Returns file.1 ∧ ∀ inner, file.1 = below testsDirname inner → EndsOnce file.1 := by
            intro name among
            obtain ⟨choice, selects, chooses⟩ := exists_selects name
            obtain ⟨places, result, samePaths⟩ := same choice selects
            have named : name ≠ [] := by
              rintro rfl
              have failed := convertToPlayground_unnamed several (chooses _ among)
              cases failed.symm.trans result
            have imported := convertToPlayground_several several (chooses _ among) named
            obtain rfl := Except.ok.inj (imported.symm.trans result)
            exact ⟨named, (imports (keeps name)).mp samePaths⟩
          obtain ⟨name, among⟩ := List.exists_mem_of_length_pos (Nat.zero_lt_of_lt several)
          refine ⟨fun _ name among => ⟨(each name among).1, fun file within =>
            ((each name among).2 file within).1⟩, fun file within => ?_⟩
          exact ((each name among).2 file within).2
        · obtain ⟨choice, selects, -⟩ := exists_selects []
          obtain ⟨places, result, samePaths⟩ := same choice selects
          obtain rfl := Except.ok.inj ((convertToPlayground_single several).symm.trans result)
          refine ⟨fun more => absurd more several, fun file within => ?_⟩
          have all := imports fun _ => true
          rw [List.filter_true] at all
          exact (all.mp samePaths file within).2
      · rintro ⟨kept, returns⟩ choice selects
        by_cases several : 1 < (programNames exported).length
        · obtain ⟨name, among, chosen⟩ := selects _ several
          obtain ⟨named, keepsAll⟩ := kept several name among
          refine ⟨_, convertToPlayground_several several chosen named, ?_⟩
          exact (imports (keeps name)).mpr fun file within =>
            ⟨keepsAll file within, returns file within⟩
        · refine ⟨_, convertToPlayground_single several, ?_⟩
          have all := imports fun _ => true
          rw [List.filter_true] at all
          exact all.mpr fun file within => ⟨fun _ _ => rfl, returns file within⟩

end Anchor

namespace Native

/-- Names and versions of crates have no bracket. -/
def PlainCrates (client : Surroundings) : Prop :=
  ∀ files, ∀ crate ∈ client.crates files, '[' ∉ crate.1 ∧ '[' ∉ crate.2

/-- A text without a bracket has no workspace section. -/
theorem not_infix_of_free {text : Text} (free : '[' ∉ text) : ¬ "[workspace]".toList <:+: text :=
  fun within => free (within.subset (by decide))

/-- Plain dependencies write no workspace section. -/
theorem dependencies_plain {dependencies : List (Text × Text)} {acc : Text}
    (plain : ∀ crate ∈ dependencies, '[' ∉ crate.1 ∧ '[' ∉ crate.2)
    (start : ¬ "[workspace]".toList <:+: acc) :
    ¬ "[workspace]".toList <:+: dependencies.foldl (fun acc crate =>
      acc ++ ('\n' :: crate.1 ++ " = \"".toList ++ crate.2 ++ ['"'])) acc := by
  induction dependencies generalizing acc with
  | nil => exact start
  | cons crate rest ih =>
      refine ih (fun crate among => plain crate (List.mem_cons_of_mem _ among)) ?_
      obtain ⟨name, version⟩ := plain crate List.mem_cons_self
      simp only [List.cons_append]
      rw [infix_append_cons (by decide)]
      rintro (within | within)
      · exact start within
      · refine not_infix_of_free ?_ within
        simp [name, version]

/-- Lines without a workspace section write none. -/
theorem lines_plain {lines : List Text} {rest : Text}
    (plain : ∀ line ∈ lines, ¬ "[workspace]".toList <:+: line)
    (after : ¬ "[workspace]".toList <:+: rest) :
    ¬ "[workspace]".toList <:+: lines.flatMap (· ++ ['\n']) ++ rest := by
  induction lines with
  | nil => exact after
  | cons line lines ih =>
      simp only [List.flatMap_cons, List.append_assoc, List.cons_append,
        List.nil_append]
      rw [infix_append_cons (by decide)]
      exact not_or.mpr ⟨plain line List.mem_cons_self,
        ih fun line among => plain line (List.mem_cons_of_mem _ among)⟩

/-- The manifest of a program is not the one of a workspace. -/
theorem manifest_plain (plain : PlainCrates client) (files : TupleFiles) :
    ¬ "[workspace]".toList <:+: manifest client files := by
  have kebab : '[' ∉ toKebabFromTitle client.toLowerCase
      (client.currentWorkspaceName.getD "solpg".toList) := by
    intro among
    rcases mem_toKebabFromTitle among with word | dash
    · exact absurd word (by decide)
    · exact absurd dash (by decide)
  rw [manifest]
  refine lines_plain (fun line among => ?_) ?_
  · simp only [manifestLines, List.mem_cons, List.not_mem_nil, or_false] at among
    rcases among with rfl | rfl | rfl | rfl | rfl | rfl | rfl | rfl | rfl | rfl | rfl | rfl
    · decide
    · refine not_infix_of_free ?_
      rw [List.mem_append, List.mem_append, not_or, not_or]
      exact ⟨⟨by decide, kebab⟩, by decide⟩
    all_goals first | exact not_infix_of_free (by decide) | decide
  · have dependencies := dependencies_plain (plain files)
      (show ¬ "[workspace]".toList <:+: "[dependencies]".toList by decide)
    rw [infix_append_cons (by decide)]
    exact not_or.mpr ⟨dependencies, by decide⟩

/-- An exported path is one of a source or of a script. -/
theorem exported_ending {exported : Text} (isPath : PlaygroundPath path)
    (goes : frameworkPath path = some exported) : ¬ cargoToml <:+ exported := by
  have other : ∀ ending : Text, ending <:+ exported → ending.length ≤ cargoToml.length →
      ¬ ending <:+ cargoToml → ¬ cargoToml <:+ exported := fun _ ends short wrong manifest =>
    wrong (List.suffix_of_suffix_length_le ends manifest short)
  cases isPath with
  | source inner rust =>
      obtain rfl : appendSlash programPath ++ below srcDirname inner = exported := Option.some.inj goes
      exact other _ (rust_below rust) (by decide) (by decide)
  | client inner script =>
      obtain rfl : below clientDirname inner = exported := Option.some.inj goes
      exact other _ (suffix_below script) (by decide) (by decide)
  | test inner test =>
      obtain rfl : below testsDirname inner = exported := Option.some.inj goes
      exact other _ (suffix_below (script_of_test test)) (by decide) (by decide)

/-- Every path of a playground project is exported. -/
theorem exports (isPath : PlaygroundPath path) : ∃ exported, frameworkPath path = some exported := by
  cases isPath with
  | source => exact ⟨_, rfl⟩
  | client => exact ⟨_, rfl⟩
  | test => exact ⟨_, rfl⟩

/-- No added file has a place in the playground. -/
theorem added_nowhere (among : path ∈ joinPaths programPath cargoToml :: addedPaths) :
    playgroundPath path = none := by
  simp only [addedPaths, List.mem_cons, List.not_mem_nil, or_false] at among
  rcases among with rfl | rfl | rfl | rfl | rfl <;>
    exact playgroundPath_other _ List.suffix_rfl (by decide) (by decide)

/-- Nothing of an exported project reads as the manifest of a workspace. -/
theorem programNames_exported (parse : Text → Except Text (List Text)) (plain : PlainCrates client)
    (isPlayground : IsPlayground files) :
    programNames parse (convertFromPlayground client files) = .ok [] := by
  have none : ∀ file ∈ convertFromPlayground client files,
      (Text.endsWith file.1 cargoToml && Text.includes file.2 "[workspace]".toList) = false := by
    intro file among
    rw [convertFromPlayground, List.mem_append, List.mem_cons, List.mem_filterMap] at among
    rcases among with ⟨source, within, exported⟩ | rfl | added
    · obtain ⟨place, goes, rfl⟩ := Option.map_eq_some_iff.mp exported
      have notManifest := exported_ending (isPlayground source within) goes
      rw [← List.isSuffixOf_iff_suffix, Bool.not_eq_true] at notManifest
      rw [Text.endsWith, notManifest, Bool.false_and]
    · have notWorkspace := manifest_plain plain files
      rw [← Text.includes_iff, Bool.not_eq_true] at notWorkspace
      rw [notWorkspace, Bool.and_false]
    · obtain ⟨path, within, rfl⟩ := List.mem_map.mp added
      have notManifest : ∀ path ∈ addedPaths, Text.endsWith path cargoToml = false := by decide
      rw [notManifest path within, Bool.false_and]
  have nothing : workspaceManifest (convertFromPlayground client files) = Option.none := by
    rw [workspaceManifest, List.filter_eq_nil_iff.mpr fun file among => Bool.not_eq_true _ ▸ none file among]
    simp
  rw [programNames, nothing]
  rfl

/-- What the export and import again of a native project give back. -/
theorem roundTrip_iff (parse : Text → Except Text (List Text)) (choice : List Text → Option Text)
    (plain : PlainCrates client) (isPlayground : IsPlayground files) :
    SamePaths (convertToPlayground parse choice (convertFromPlayground client files)) files ↔
      ∀ file ∈ files, Returns file.1 := by
  have imported : convertToPlayground parse choice (convertFromPlayground client files) =
      .ok (convertToPlaygroundCommon (convertFromPlayground client files)) := by
    rw [convertToPlayground, kept, programNames_exported parse plain isPlayground]
    rfl
  have parts : (convertFromPlayground client files).map Prod.fst =
      (files.map Prod.fst).filterMap frameworkPath ++ joinPaths programPath cargoToml :: addedPaths := by
    rw [convertFromPlayground, List.map_append, List.map_filterMap, List.filterMap_map,
      List.map_cons, List.map_map]
    congr 1
    apply List.filterMap_congr
    intro file _
    simp [Function.comp_def]
  have isPath : ∀ path ∈ files.map Prod.fst, PlaygroundPath path := by
    intro path among
    obtain ⟨file, within, rfl⟩ := List.mem_map.mp among
    exact isPlayground file within
  have all := imported_iff (fun _ => true)
    (fun path among _ => shrinks (isPath path among)) (fun path among => exports (isPath path among))
    parts fun _ => added_nowhere
  rw [List.filter_true] at all
  rw [SamePaths, imported]
  simp only [Except.ok.injEq, exists_eq_left', all]
  refine List.forall_mem_map.trans (forall₂_congr fun file among => ?_)
  obtain ⟨place, goes⟩ := exports (isPlayground file among)
  rw [← returns_iff (isPlayground file among) goes]
  simp [goes]

end Native

/-! ## Frameworks -/

/-- An import that leaves some of the files and converts them faithfully. -/
def Imports (kept converted : Except Text TupleFiles) (program : Text) (foreign : Text → Prop)
    (files : TupleFiles) : Prop :=
  ∃ left, kept = .ok left ∧ converted = .ok (convertToPlaygroundCommon left) ∧
    Faithful program foreign files left

namespace Anchor

/-- The directory of a program. -/
def directory (root name : Text) : Text := root ++ (programsDirname ++ slash) ++ (name ++ slash)

/-- What is in the directory of another program. -/
def Foreign (files : TupleFiles) (name path : Text) : Prop :=
  ∃ root, IsDirectory root ∧ ∃ other ∈ programNames files, other ≠ name ∧ directory root other <+: path

/-- The files that the selection of a program leaves. -/
def left (name : Text) (files : TupleFiles) : TupleFiles :=
  if 1 < (programNames files).length then files.filter fun file => keeps name file.1 else files

/-- An Anchor project is imported faithfully exactly when the chosen program separates from the
others. -/
theorem imports_iff_separable {root name : Text} (selected : 1 < (programNames files).length →
      choice (programNames files) = some name ∧ name ≠ []) :
    Imports (kept choice files) (convertToPlayground choice files) (directory root name)
        (Foreign files name) files ↔
      Separable (directory root name) (Foreign files name) files (left name files) := by
  have leaves : kept choice files = .ok (left name files) := by
    by_cases several : 1 < (programNames files).length
    · obtain ⟨chosen, named⟩ := selected several
      have picks : selectProgram choice (programNames files) = .ok name := by
        simp [selectProgram, chosen, named]
      simp only [kept, left, several, if_true, picks]
      rfl
    · simp only [kept, left, several, if_false]
  have isDirectory : IsDirectory (directory root name) := isDirectory_append
  rw [← faithful_iff isDirectory]
  constructor
  · rintro ⟨files, remains, -, faithful⟩
    obtain rfl := Except.ok.inj (leaves.symm.trans remains)
    exact faithful
  · intro faithful
    refine ⟨_, leaves, ?_, faithful⟩
    rw [convertToPlayground, leaves]
    rfl

end Anchor

namespace Native

/-- What is in the directory of another program of the workspace. -/
def Foreign (parse : Text → Except Text (List Text)) (files : TupleFiles) (name path : Text) : Prop :=
  ∃ names, programNames parse files = .ok names ∧ ∃ root, IsDirectory root ∧
    ∃ other ∈ names, other ≠ name ∧ root ++ (other ++ slash) <+: path

/-- The files that the selection of a program leaves. -/
def left (names : List Text) (name : Text) (files : TupleFiles) : TupleFiles :=
  if 1 < names.length then files.filter fun file => Text.includes file.1 name else files

/-- A native project is imported faithfully exactly when the chosen program separates from the
others. -/
theorem imports_iff_separable {parse : Text → Except Text (List Text)}
    {program name : Text}
    (isDirectory : IsDirectory program)
    (selected : ∀ names, programNames parse files = .ok names → 1 < names.length →
      choice names = some name ∧ name ≠ []) :
    Imports (kept parse choice files) (convertToPlayground parse choice files) program
        (Foreign parse files name) files ↔
      ∃ names, programNames parse files = .ok names ∧
        Separable program (Foreign parse files name) files (left names name files) := by
  cases read : programNames parse files with
  | error text =>
      constructor
      · rintro ⟨left, remains, -⟩
        rw [kept, read] at remains
        cases remains
      · rintro ⟨names, wrong, -⟩
        cases wrong
  | ok names =>
      have leaves : kept parse choice files = .ok (left names name files) := by
        rw [kept, read]
        by_cases several : 1 < names.length
        · obtain ⟨chosen, named⟩ := selected names read several
          have picks : selectProgram choice names = .ok name := by
            simp [selectProgram, chosen, named]
          simp only [left, several, if_true, bind, Except.bind, picks]
        · simp only [left, several, if_false, bind, Except.bind]
      simp only [Except.ok.injEq, exists_eq_left', ← faithful_iff isDirectory]
      constructor
      · rintro ⟨files, remains, -, faithful⟩
        obtain rfl := Except.ok.inj (leaves.symm.trans remains)
        exact faithful
      · intro faithful
        refine ⟨_, leaves, ?_, faithful⟩
        rw [convertToPlayground, leaves]
        rfl

end Native

/-- When the imports lose and mix nothing, and when an export and an import give the paths back. -/
theorem frameworks_iff (client : Surroundings) (parse : Text → Except Text (List Text))
    (choice : List Text → Option Text) (files : TupleFiles) (root program name : Text) :
    ((1 < (Anchor.programNames files).length →
        choice (Anchor.programNames files) = some name ∧ name ≠ []) →
      (Imports (Anchor.kept choice files) (Anchor.convertToPlayground choice files)
          (Anchor.directory root name) (Anchor.Foreign files name) files ↔
        Separable (Anchor.directory root name) (Anchor.Foreign files name) files
          (Anchor.left name files))) ∧
    (IsDirectory program →
      (∀ names, Native.programNames parse files = .ok names → 1 < names.length →
        choice names = some name ∧ name ≠ []) →
      (Imports (Native.kept parse choice files) (Native.convertToPlayground parse choice files)
          program (Native.Foreign parse files name) files ↔
        ∃ names, Native.programNames parse files = .ok names ∧
          Separable program (Native.Foreign parse files name) files
            (Native.left names name files))) ∧
    (IsPlayground files →
      ((∀ choice, Selects choice → SamePaths (Anchor.convertFromPlayground client files >>=
          Anchor.convertToPlayground choice) files) ↔
        Anchor.Exportable client files)) ∧
    (Native.PlainCrates client → IsPlayground files →
      (SamePaths (Native.convertToPlayground parse choice
          (Native.convertFromPlayground client files)) files ↔
        ∀ file ∈ files, Returns file.1)) := by
  refine ⟨?anchor, ?native, ?anchorTrip, ?nativeTrip⟩
  case anchor => exact Anchor.imports_iff_separable
  case native => exact Native.imports_iff_separable
  case anchorTrip => exact Anchor.roundTrip_iff
  case nativeTrip => exact Native.roundTrip_iff parse choice

/-- A program whose name begins with the name of the selected one. -/
def similarPrograms : TupleFiles :=
  [("programs/foo/src/lib.rs".toList, []), ("programs/foobar/src/lib.rs".toList, [])]

/-- Programs whose names start alike are mixed. -/
theorem similarPrograms_mixed (foreign : Text → Prop) :
    ¬ Imports (Anchor.kept (fun _ => some "foo".toList) similarPrograms)
      (Anchor.convertToPlayground (fun _ => some "foo".toList) similarPrograms)
      (Anchor.directory [] "foo".toList) foreign similarPrograms := by
  rintro ⟨left, remains, -, faithful⟩
  have all : Anchor.kept (fun _ => some "foo".toList) similarPrograms = .ok similarPrograms := by
    decide
  obtain rfl := Except.ok.inj (all.symm.trans remains)
  exact absurd faithful.distinct (by decide)

/-- A project of similar programs is not imported faithfully. -/
theorem not_always_imports :
    ¬ ∀ (choice : List Text → Option Text) (files : TupleFiles) (root name : Text),
      (1 < (Anchor.programNames files).length →
        choice (Anchor.programNames files) = some name ∧ name ≠ []) →
      Imports (Anchor.kept choice files) (Anchor.convertToPlayground choice files)
        (Anchor.directory root name) (Anchor.Foreign files name) files := by
  intro always
  exact similarPrograms_mixed _ (always (fun _ => some "foo".toList) similarPrograms []
    "foo".toList fun _ => ⟨rfl, by decide⟩)

/-- A native project of a source and a test, and what it is exported in. -/
def smallProject : TupleFiles :=
  [("src/lib.rs".toList, []), ("tests/a.test.ts".toList, [])]

/-- Surroundings without a workspace. -/
def nowhere : Surroundings where
  currentWorkspaceName := none
  toLowerCase text := text.map Char.toLower
  keypair := none
  crates _ := []
  convertJS _ _ content := content
  written _ _ _ := []

/-- The equivalences at two small projects. -/
theorem frameworks_smallProject :
    (¬ Separable (Anchor.directory [] "foo".toList) (Anchor.Foreign similarPrograms "foo".toList)
      similarPrograms (Anchor.left "foo".toList similarPrograms)) ∧
    SamePaths (Native.convertToPlayground (fun _ => .ok []) (fun _ => none)
      (Native.convertFromPlayground nowhere smallProject)) smallProject := by
  constructor
  · intro separable
    have anchor := (frameworks_iff nowhere (fun _ => .ok []) (fun _ => some "foo".toList)
      similarPrograms [] [] "foo".toList).1
    exact similarPrograms_mixed _ ((anchor fun _ => ⟨rfl, by decide⟩).mpr separable)
  · have isPlayground : IsPlayground smallProject := by
      intro file among
      rcases List.mem_cons.mp among with rfl | among
      · exact .source "lib.rs".toList (by decide)
      · obtain rfl := List.mem_singleton.mp among
        exact .test "a.test.ts".toList (by decide)
    have plain : Native.PlainCrates nowhere := fun _ crate among => by cases among
    have native := (frameworks_iff nowhere (fun _ => .ok []) (fun _ => none) smallProject
      [] [] []).2.2.2
    refine (native plain isPlayground).mpr fun file among => ?_
    rcases List.mem_cons.mp among with rfl | among
    · have source : Returns (below srcDirname "lib.rs".toList) :=
        returns_source_iff.mpr ⟨List.all_iff_forall_prop.mp (by decide), by decide⟩
      exact source
    · obtain rfl := List.mem_singleton.mp among
      have test : Returns (below testsDirname "a.test.ts".toList) :=
        returns_test_iff.mpr ⟨⟨List.all_iff_forall_prop.mp (by decide), by decide⟩, by decide⟩
      exact test

end Solpg.Client.Frameworks
