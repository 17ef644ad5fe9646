import Solpg.Std.OrderedMap
import Solpg.Server.Confinement
import Solpg.Server.Deployed
import Solpg.Std.Text

/-!
# The files of a build

What `program::build` does with the files of a request up to the end of its
write phase. A path that the check lets through has one dot, in its last
component, and no empty component: no file can be where another one needs a
directory.
-/

namespace Solpg.Server.Program

open Solpg.Std

variable {Idl : Type} {env : Environment Idl}

/-- Everything up to the files. -/
def writePhase (env : Environment Idl) (concurrencyId : Nat) (programName : String)
    (files : Files) : ServerM Unit := do
  checkFiles env files
  initConcurrency concurrencyId
  removeSources programName
  writeSources programName files

/-- The directory of the sources of a program. -/
def sourcesPath (programName : String) : Path := programPath programName ++ ["src"]

/-- Where the file of a path is written. -/
def itemPath (programName path : String) : Path := programPath programName ++ relativePath path

/-- The content that a list of files gives a path: the last one. -/
def lastContent (files : Files) (path : String) : Option String := files.reverse.lookup path

/-- The file count and the paths pass the check. -/
def Accepts (env : Environment Idl) (files : Files) : Prop :=
  files.length ≤ maxFileAmount ∧ ∀ file ∈ files, env.isValid file.1 = true

/-- Nothing of a build is left out between the write phase and the manifest. -/
theorem prepare_eq (env : Environment Idl) (concurrencyId : Nat) (programName : String)
    (files : Files) :
    prepare env concurrencyId programName files =
      (writePhase env concurrencyId programName files >>= fun _ =>
        updateManifest env concurrencyId programName) := by
  simp only [prepare, writePhase, FileM.bind_assoc]

/-! ## Accepted paths -/

/-- The body of an accepted path is what the repeated class matches. -/
theorem exists_body_of_isValid {path : String} (valid : env.isValid path = true) :
    ∃ body, path.toList = "/src/".toList ++ (body ++ ".rs".toList) ∧ '.' ∉ body := by
  simp only [Environment.isValid, Bool.and_eq_true, Regex.isMatch_iff] at valid
  obtain ⟨-, before, middle, after, text, matched⟩ := valid
  simp only [Environment.allowedRegex, Regex.plus, Regex.matches_seq, Regex.matches_assertion,
    Regex.matches_literal, Regex.matches_symbol, Regex.matches_star_symbol] at matched
  obtain ⟨start, _, rfl, ⟨rfl, atStart⟩, slash, _, rfl, rfl, body, _, rfl,
    ⟨_, more, rfl, ⟨first, rfl, firstMember⟩, moreMembers⟩, dot, _, rfl, rfl, rfl, atEnd⟩ := matched
  obtain rfl : before = [] := by simpa using atStart
  obtain rfl : after = [] := by simpa using atEnd
  refine ⟨first :: more, by simpa using text, ?_⟩
  have classes : ∀ char ∈ first :: more,
      (env.isWord char || char == '/' || char == '-') = true := by
    intro char member
    rcases List.mem_cons.mp member with rfl | member
    · exact firstMember
    · exact moreMembers char member
  intro dot
  have member := classes '.' dot
  simp [Environment.isWord] at member

/-- A text without a slash stays with the last piece. -/
theorem splitOn_append_of_not_mem (text : List Char) {tail : List Char} (noSlash : '/' ∉ tail) :
    ∃ pieces last, text.splitOn '/' = pieces ++ [last] ∧
      (text ++ tail).splitOn '/' = pieces ++ [last ++ tail] := by
  by_cases slash : '/' ∈ text
  · obtain ⟨after, before, split, none⟩ := List.eq_append_cons_of_mem (List.mem_reverse.mpr slash)
    obtain rfl : text = before.reverse ++ '/' :: after.reverse := by
      rw [← List.reverse_reverse text, split]
      simp
    have noAfter : '/' ∉ after.reverse := by simpa using none
    have noTail : '/' ∉ after.reverse ++ tail := by simp [none, noSlash]
    refine ⟨before.reverse.splitOn '/', after.reverse, ?_, ?_⟩
    · rw [List.splitOn_append_cons_self, List.splitOn_eq_singleton noAfter]
    · rw [List.append_assoc, List.cons_append, List.splitOn_append_cons_self,
        List.splitOn_eq_singleton noTail]
  · refine ⟨[], text, List.splitOn_eq_singleton slash, ?_⟩
    exact List.splitOn_eq_singleton (by simp [slash, noSlash])

/-- An empty piece between others is a double slash. -/
theorem double_slash_of_nil_mem (before : List (List Char)) {after : List (List Char)}
    (more : after ≠ []) :
    "//".toList <:+: '/' :: ['/'].intercalate (before ++ [] :: after) := by
  induction before with
  | nil =>
      obtain ⟨first, rest, rfl⟩ := List.exists_cons_of_ne_nil more
      exact ⟨[], ['/'].intercalate (first :: rest), by simp [List.intercalate_cons_cons]⟩
  | cons piece rest ih =>
      have next : rest ++ [] :: after ≠ [] := by simp
      obtain ⟨second, others, same⟩ := List.exists_cons_of_ne_nil next
      rw [List.cons_append, same, List.intercalate_cons_cons, ← same]
      exact ih.trans ⟨'/' :: piece, [], by simp⟩

/-- What an accepted path is below `src`: directories without a dot, and a file name
with one. -/
structure SourceNames (directories : Path) (name : String) : Prop where
  directories : ∀ directory ∈ directories, '.' ∉ directory.toList ∧
    UnixPath.IsName directory.toList
  dotted : '.' ∈ name.toList
  isName : UnixPath.IsName name.toList

/-- An accepted path has directories and a file below `src`. -/
theorem relativePath_of_accepted {path : String} (valid : env.isValid path = true) :
    ∃ directories name, relativePath path = "src" :: (directories ++ [name]) ∧
      SourceNames directories name := by
  obtain ⟨body, text, noDot⟩ := exists_body_of_isValid valid
  have extension : '/' ∉ ".rs".toList := by decide
  obtain ⟨pieces, last, split, splitAll⟩ := splitOn_append_of_not_mem body extension
  have relative : relativePath path =
      "src" :: (pieces.map String.ofList ++ [String.ofList (last ++ ".rs".toList)]) := by
    have stripped : path.toList.dropWhile (· == '/') =
        "src".toList ++ '/' :: (body ++ ".rs".toList) := by
      simp [text]
    rw [relativePath, stripped, List.splitOn_append_cons_self,
      List.splitOn_eq_singleton (by decide), splitAll]
    simp
  have noEmpty : [] ∉ pieces := by
    intro empty
    obtain ⟨before, after, rfl⟩ := List.append_of_mem empty
    have more : after ++ [last ++ ".rs".toList] ≠ [] := by simp
    have double := double_slash_of_nil_mem before more
    have joined : ['/'].intercalate (before ++ [] :: (after ++ [last ++ ".rs".toList])) =
        body ++ ".rs".toList := by
      have whole : ['/'].intercalate ((body ++ ".rs".toList).splitOn '/') = body ++ ".rs".toList :=
        List.intercalate_splitOn '/'
      rw [splitAll] at whole
      simpa using whole
    have inPath : "//".toList <:+: path.toList := by
      rw [joined] at double
      refine double.trans ⟨"/src".toList, [], ?_⟩
      rw [text, List.append_nil]
      rfl
    simp only [Environment.isValid, Bool.and_eq_true, Bool.not_eq_true',
      decide_eq_false_iff_not] at valid
    exact valid.1.2 inPath
  have inBody : ∀ piece ∈ pieces ++ [last], '.' ∉ piece ∧ '/' ∉ piece := by
    intro piece member
    rw [← split] at member
    have within : piece <:+: body := by
      have part : piece <:+: ['/'].intercalate (body.splitOn '/') :=
        UnixPath.infix_intercalate member
      rwa [List.intercalate_splitOn] at part
    exact ⟨fun dot => noDot (within.subset dot), Text.not_mem_of_mem_splitOn member⟩
  refine ⟨_, _, relative, ?_, by simp, ?_⟩
  · intro directory member
    obtain ⟨piece, pieceIn, rfl⟩ := List.mem_map.mp member
    obtain ⟨pieceDot, pieceSlash⟩ := inBody piece (List.mem_append_left _ pieceIn)
    rw [String.toList_ofList]
    refine ⟨pieceDot, fun empty => noEmpty (empty ▸ pieceIn), pieceSlash, ?_, ?_⟩
    · rintro rfl
      exact pieceDot List.mem_cons_self
    · rintro rfl
      exact pieceDot List.mem_cons_self
  · have lastSlash := (inBody last (by simp)).2
    rw [String.toList_ofList]
    refine ⟨by simp, by simp [lastSlash], ?_, ?_⟩ <;>
      · intro same
        have short := congrArg List.length same
        simp [UnixPath.dotDot] at short

/-- An accepted file is below the sources. -/
theorem itemPath_of_accepted {path : String} (programName : String)
    (valid : env.isValid path = true) : ∃ directories name,
      itemPath programName path = sourcesPath programName ++ (directories ++ [name]) ∧
        SourceNames directories name := by
  obtain ⟨directories, name, relative, names⟩ := relativePath_of_accepted valid
  exact ⟨directories, name, by simp [itemPath, sourcesPath, relative], names⟩

/-- An accepted path is read back from its components. -/
theorem toList_of_accepted {path : String} (valid : env.isValid path = true) :
    path.toList = '/' :: ['/'].intercalate ((relativePath path).map String.toList) := by
  obtain ⟨body, text, -⟩ := exists_body_of_isValid valid
  have stripped : path.toList.dropWhile (· == '/') =
      "src".toList ++ '/' :: (body ++ ".rs".toList) := by
    simp [text]
  have texts : (relativePath path).map String.toList =
      (path.toList.dropWhile (· == '/')).splitOn '/' := by
    simp [relativePath]
  rw [texts, List.intercalate_splitOn, stripped, text]
  simp

/-- Different accepted paths are different files. -/
theorem itemPath_injective {programName first second : String}
    (validFirst : env.isValid first = true) (validSecond : env.isValid second = true)
    (same : itemPath programName first = itemPath programName second) : first = second := by
  have relative : relativePath first = relativePath second := List.append_cancel_left same
  apply String.toList_injective
  rw [toList_of_accepted validFirst, toList_of_accepted validSecond, relative]

/-- No file is where another one needs a directory: the dot of the file name would be
in the name of that directory. -/
theorem itemPath_apart {programName first second : String}
    (validFirst : env.isValid first = true) (validSecond : env.isValid second = true)
    (above : itemPath programName first <+: itemPath programName second) : first = second := by
  obtain ⟨directories, name, whole, names⟩ := itemPath_of_accepted programName validFirst
  obtain ⟨others, last, wholeSecond, namesSecond⟩ := itemPath_of_accepted programName validSecond
  have within := above
  rw [whole, wholeSecond, List.prefix_append_right_inj, List.prefix_concat_iff] at within
  rcases within with same | below
  · apply itemPath_injective validFirst validSecond
    rw [whole, wholeSecond, same]
  · have inside : name ∈ others := below.subset (by simp)
    exact absurd names.dotted (namesSecond.directories name inside).1

/-! ## What the write phase leaves -/

/-- The last content of a path is that of the last file. -/
theorem lastContent_append (files : Files) (file : String × String) (path : String) :
    lastContent (files ++ [file]) path =
      if path = file.1 then some file.2 else lastContent files path := by
  rw [lastContent, List.reverse_append, List.reverse_singleton, List.singleton_append]
  exact OrderedMap.lookup_cons file files.reverse path

/-- Where no two paths share a place, the last content of each path is what is there. -/
theorem written_iff {files : Files} (distinct : ∀ first ∈ files, ∀ second ∈ files,
      relativePath first.1 = relativePath second.1 → first.1 = second.1)
    (place : Path) (content : ByteArray) :
    written files (fun _ => none) place = some content ↔ ∃ path text,
      lastContent files path = some text ∧ text.toUTF8 = content ∧ relativePath path = place := by
  induction files using List.reverseRecOn with
  | nil => simp [written, lastContent]
  | append_singleton files file ih =>
      have step : written (files ++ [file]) (fun _ => none) =
          Function.update (written files fun _ => none) (relativePath file.1)
            (some file.2.toUTF8) := by
        rw [written, List.foldl_append]
        rfl
      have earlier := ih fun first firstIn second secondIn =>
        distinct first (List.mem_append_left _ firstIn) second (List.mem_append_left _ secondIn)
      rw [step]
      by_cases here : place = relativePath file.1
      · subst here
        rw [Function.update_self]
        constructor
        · rintro ⟨⟩
          exact ⟨file.1, file.2, by rw [lastContent_append, if_pos rfl], rfl, rfl⟩
        · rintro ⟨path, text, last, rfl, same⟩
          rw [lastContent_append] at last
          split at last
          · cases last
            rfl
          · rename_i different
            have member : (path, text) ∈ files := by
              obtain ⟨before, after, split, -⟩ := List.lookup_eq_some_iff.mp last
              exact List.mem_reverse.mp (by rw [split]; simp)
            exact absurd (distinct (path, text) (List.mem_append_left _ member) file (by simp) same)
              different
      · rw [Function.update_of_ne here, earlier]
        constructor
        · rintro ⟨path, text, last, rfl, rfl⟩
          refine ⟨path, text, ?_, rfl, rfl⟩
          rw [lastContent_append, if_neg, last]
          rintro rfl
          exact here rfl
        · rintro ⟨path, text, last, rfl, rfl⟩
          refine ⟨path, text, ?_, rfl, rfl⟩
          rw [lastContent_append, if_neg] at last
          · exact last
          · rintro rfl
            exact here rfl

open FileM in
/-- After the write phase the sources are those of the request. -/
theorem writePhase_ensures (env : Environment Idl) (concurrencyId : Nat) (programName : String)
    (files : Files) :
    Ensures (fun _ => True) (writePhase env concurrencyId programName files) fun _ tree =>
      sources tree programName = sourcesOf files := by
  have anything : ∀ program : ServerM Unit, Ensures (fun _ => True) program fun _ _ => True :=
    fun _ _ _ _ _ _ => trivial
  exact (anything _).bind fun _ => (anything _).bind fun _ =>
    (removeSources_ensures programName).bind fun _ => writeSources_sources programName files

/-- What is not accepted fails the checks. -/
theorem checkFiles_of_rejects {files : Files} (rejects : ¬Accepts env files) :
    ∃ error, checkFiles env files = .fail error := by
  obtain failed | ⟨passed, valid⟩ := checkFiles_cases env files
  · exact failed
  · rw [checkFiles]
    split
    · exact ⟨_, rfl⟩
    · rename_i few
      exact absurd ⟨by omega, valid⟩ rejects

/-- An accepted list of files passes the check. -/
theorem checkFiles_of_accepts {files : Files} (accepts : Accepts env files) :
    checkFiles env files = pure () := by
  have few : ¬ files.length > maxFileAmount := by
    have := accepts.1
    omega
  have valid : (files.find? fun file => !env.isValid file.1) = none := by
    rw [List.find?_eq_none]
    intro file member
    simp [accepts.2 file member]
  simp only [checkFiles, if_neg few, valid]

/-- Only an accepted list of files gets through the write phase. -/
theorem accepts_of_writePhase {concurrencyId : Nat} {programName : String} {files : Files}
    {world after : World ByteArray}
    (ran : writePhase env concurrencyId programName files world = (.ok (), after)) :
    Accepts env files := by
  by_contra rejects
  obtain ⟨error, failed⟩ := checkFiles_of_rejects rejects
  rw [writePhase, failed] at ran
  cases ran

/-! ## Getting through -/

/-- Below `src`, directories have no dot in their names and files have one; above it
there is no file. -/
structure Tidy (programName : String) (tree : FileTree ByteArray) : Prop where
  free : ∀ above, above <+: programPath programName → tree.isFile above = false
  directories : ∀ place, tree.node (sourcesPath programName ++ place) = some .directory →
    ∀ name ∈ place, '.' ∉ name.toList
  files : ∀ place content, tree.node (sourcesPath programName ++ place) = some (.file content) →
    ∃ name ∈ place, '.' ∈ name.toList

/-- What is above the program is not among its sources. -/
theorem sourcesPath_ne_of_high {programName : String} {above place : Path}
    (high : above <+: programPath programName) : above ≠ sourcesPath programName ++ place := by
  rintro rfl
  have short := high.length_le
  simp only [sourcesPath, List.length_append, List.length_singleton] at short
  omega

/-- What is on the way to a place below `src` is above `src` or a part of the way. -/
theorem prefix_sourcesPath {programName : String} {above place : Path}
    (within : above <+: sourcesPath programName ++ place) : above <+: programPath programName ∨
      ∃ part, part <+: place ∧ above = sourcesPath programName ++ part := by
  rcases List.prefix_or_prefix_of_prefix within (List.prefix_append _ _) with high | low
  · rcases List.prefix_concat_iff.mp high with rfl | higher
    · exact .inr ⟨[], List.nil_prefix, by simp [sourcesPath]⟩
    · exact .inl higher
  · obtain ⟨part, rfl⟩ := low
    exact .inr ⟨part, (List.prefix_append_right_inj _).mp within, rfl⟩

variable {programName : String} {tree : FileTree ByteArray} {directories : Path}

/-- The directories of a file can be made. -/
theorem Tidy.noFile (tidy : Tidy programName tree)
    (dotless : ∀ name ∈ directories, '.' ∉ name.toList) :
    (sourcesPath programName ++ directories).inits.any tree.isFile = false := by
  rw [List.any_eq_false]
  intro above member file
  rcases prefix_sourcesPath ((List.mem_inits _ _).mp member) with high | ⟨part, low, rfl⟩
  · rw [tidy.free above high] at file
    cases file
  · cases found : tree.node (sourcesPath programName ++ part) with
    | none => simp [FileTree.isFile, found] at file
    | some node =>
        cases node with
        | directory => simp [FileTree.isFile, found] at file
        | file content =>
            obtain ⟨name, inPart, dot⟩ := tidy.files part content found
            exact dotless name (low.subset inPart) dot

/-- Directories without dots keep the sources in order. -/
theorem Tidy.makeDirectories (tidy : Tidy programName tree)
    (dotless : ∀ name ∈ directories, '.' ∉ name.toList) (depth : Nat) :
    Tidy programName (tree.makeDirectories (sourcesPath programName ++ directories) depth) where
  free := by
    intro above high
    simp only [FileTree.isFile, FileTree.makeDirectories]
    by_cases made : (above.isPrefixOf (sourcesPath programName ++ directories) &&
        decide (above.length ≤ depth)) = true
    · rw [if_pos made]
    · rw [if_neg made]
      exact tidy.free above high
  directories := by
    intro place directory
    simp only [FileTree.makeDirectories] at directory
    split at directory
    · rename_i made
      have within : place <+: directories := by
        simp only [Bool.and_eq_true, List.isPrefixOf_iff_prefix,
          List.prefix_append_right_inj] at made
        exact made.1
      exact fun name member => dotless name (within.subset member)
    · exact tidy.directories place directory
  files := by
    intro place content file
    simp only [FileTree.makeDirectories] at file
    split at file
    · cases file
    · exact tidy.files place content file

/-- A file with a dot keeps the sources in order. -/
theorem Tidy.put (tidy : Tidy programName tree) {place : Path} {content : ByteArray}
    {after : FileTree ByteArray} (dotted : ∃ name ∈ place, '.' ∈ name.toList)
    (put : FileM.putFile (sourcesPath programName ++ place) content tree = .ok after) :
    Tidy programName after := by
  have node := FileM.putFile_node put
  constructor
  · intro above high
    rw [FileTree.isFile, node, Function.update_of_ne (sourcesPath_ne_of_high high)]
    exact tidy.free above high
  · intro other directory
    rw [node] at directory
    by_cases same : other = place
    · simp [same] at directory
    · rw [Function.update_of_ne (by simpa using same)] at directory
      exact tidy.directories other directory
  · intro other found file
    rw [node] at file
    by_cases same : other = place
    · exact same ▸ dotted
    · rw [Function.update_of_ne (by simpa using same)] at file
      exact tidy.files other found file

/-- In order and without faults an accepted file is written. -/
theorem writeFile_completes {file : String × String} (valid : env.isValid file.1 = true)
    {world : World ByteArray} (noFaults : world.faults = []) (tidy : Tidy programName world.files) :
    ∃ after, writeFile programName file world = (.ok (), after) ∧ after.faults = [] ∧
      Tidy programName after.files := by
  obtain ⟨directories, name, whole, names⟩ := itemPath_of_accepted programName valid
  have dotless : ∀ directory ∈ directories, '.' ∉ directory.toList := fun directory member =>
    (names.directories directory member).1
  have parent : (itemPath programName file.1).dropLast = sourcesPath programName ++ directories := by
    rw [whole, ← List.append_assoc, List.dropLast_concat]
  let between := world.files.makeDirectories (sourcesPath programName ++ directories)
    (sourcesPath programName ++ directories).length
  have made : Tidy programName between := tidy.makeDirectories dotless _
  have isParent : between.isDirectory (itemPath programName file.1).dropLast = true := by
    rw [parent, FileTree.isDirectory_iff]
    exact .inr (by simp [between, FileTree.makeDirectories])
  have unoccupied : ¬between.isDirectory (itemPath programName file.1) = true := by
    rw [FileTree.isDirectory_iff, whole]
    rintro (root | directory)
    · simp at root
    · exact made.directories _ directory name (by simp) names.dotted
  obtain ⟨after, puts⟩ : ∃ after,
      FileM.putFile (itemPath programName file.1) file.2.toUTF8 between = .ok after :=
    ⟨_, by rw [FileM.putFile, dif_neg unoccupied, dif_pos isParent]⟩
  have makes := FileM.createDirAll_completes noFaults (tidy.noFile dotless)
  rw [← parent] at makes
  have writes : FileM.write (itemPath programName file.1) file.2.toUTF8 ⟨between, []⟩ =
      (.ok (), ⟨after, []⟩) := FileM.write_completes rfl puts
  refine ⟨⟨after, []⟩, ?_, rfl, ?_⟩
  · change (orFail (.createDirAll (itemPath programName file.1).dropLast) >>= fun _ =>
      orFail (.write (itemPath programName file.1) file.2.toUTF8)) world = _
    simp only [Bind.bind, orFail, FileM.mapError, makes]
    rw [parent, writes]
  · rw [whole] at puts
    exact made.put ⟨name, by simp, names.dotted⟩ puts

/-- Over cleared sources and without a failure from outside, all files are written. -/
theorem writeSources_completes {files : Files} (valid : ∀ file ∈ files, env.isValid file.1 = true)
    {world : World ByteArray} (noFaults : world.faults = []) (tidy : Tidy programName world.files) :
    ∃ after, writeSources programName files world = (.ok (), after) := by
  induction files generalizing world with
  | nil => exact ⟨world, rfl⟩
  | cons file rest ih =>
      obtain ⟨next, written, noFaultsNext, tidyNext⟩ :=
        writeFile_completes (valid file List.mem_cons_self) noFaults tidy
      obtain ⟨after, completes⟩ := ih (fun other member => valid other (List.mem_cons_of_mem _ member))
        noFaultsNext tidyNext
      refine ⟨after, ?_⟩
      change (writeFile programName file >>= fun _ => writeSources programName rest) world = _
      simp only [Bind.bind, written, completes]

/-! ## The whole write phase -/

/-- The files that are written for the compiler's own directory. -/
def concurrencyFiles (concurrencyId : Nat) : List Path :=
  ["Cargo.toml", "Cargo.lock", "ready"].map fun name => concurrencyPath concurrencyId ++ [name]

open FileM in
/-- Preparing the directory of a compiler makes no file but its own. -/
theorem initConcurrency_isFile {concurrencyId : Nat} {path : Path}
    (apart : path ∉ concurrencyFiles concurrencyId) :
    Ensures (fun files => files.isFile path = false) (initConcurrency concurrencyId) fun _ files =>
      files.isFile path = false := by
  obtain ⟨noToml, noLock, notReady⟩ : path ≠ concurrencyPath concurrencyId ++ ["Cargo.toml"] ∧
      path ≠ concurrencyPath concurrencyId ++ ["Cargo.lock"] ∧
      path ≠ concurrencyPath concurrencyId ++ ["ready"] := by
    simpa [concurrencyFiles] using apart
  refine ((exists_within _).isFile not_false).mapError.bind fun ready => ?_
  split
  · refine (createDirAll_isFile _ path).mapError.bind fun _ => ?_
    refine ((copy_within _ _).isFile noToml).mapError.bind fun _ => ?_
    refine ((copy_within _ _).isFile noLock).mapError.bind fun _ => ?_
    exact ((write_within _ _).isFile notReady).mapError
  · exact .pure _ fun _ noFile => noFile

open FileM in
/-- Setting up a compiler meets no failure of its own. -/
theorem initConcurrency_calm (concurrencyId : Nat) : Calm (initConcurrency concurrencyId) := by
  refine Calm.call.mapError.bind fun ready => ?_
  split
  · refine Calm.call.mapError.bind fun _ => ?_
    refine (copy_calm _ _).mapError.bind fun _ => ?_
    refine (copy_calm _ _).mapError.bind fun _ => ?_
    exact Calm.call.mapError
  · exact .pure _

/-- Where `src` is no file and no failure comes from outside, the sources are cleared. -/
theorem removeSources_completes {world : World ByteArray} (noFaults : world.faults = [])
    (noFile : world.files.isFile (sourcesPath programName) = false) :
    ∃ after, removeSources programName world = (.ok (), ⟨after, []⟩) ∧
      (∀ place, after.node (sourcesPath programName ++ place) = none) ∧
      ∀ other, world.files.isFile other = false → after.isFile other = false := by
  obtain ⟨result, after, ran, outcome, cleared, kept⟩ :=
    FileM.removeDirAll_completes (by simp [sourcesPath]) noFaults noFile
  refine ⟨after, ?_, cleared, kept⟩
  change ((FileM.removeDirAll (sourcesPath programName)).attempt >>= _) world = _
  simp only [Bind.bind, FileM.attempt, ran]
  rcases outcome with rfl | rfl <;> rfl

/-- Over cleared sources with no file above them, the tree is tidy. -/
theorem tidy_of_cleared (free : ∀ above, above <+: programPath programName → tree.isFile above = false)
    (cleared : ∀ place, tree.node (sourcesPath programName ++ place) = none) :
    Tidy programName tree where
  free := free
  directories := by
    intro place directory
    rw [cleared] at directory
    cases directory
  files := by
    intro place content file
    rw [cleared] at file
    cases file

/-- What an accepted request needs of the files: nothing is in its way, and the directory of
the compiler can be prepared. -/
structure Unobstructed (concurrencyId : Nat) (programName : String) (world : World ByteArray) :
    Prop where
  noFaults : world.faults = []
  above : ∀ above, above <+: programPath programName → world.files.isFile above = false
  sources : world.files.isFile (sourcesPath programName) = false
  prepares : (initConcurrency concurrencyId world).1 = .ok ()

/-- What is above the program is no file of a compiler. -/
theorem not_mem_concurrencyFiles_of_above {concurrencyId : Nat} {above : Path}
    (high : above <+: programPath programName) : above ∉ concurrencyFiles concurrencyId := by
  intro member
  obtain ⟨name, -, rfl⟩ := List.mem_map.mp member
  have short := high.length_le
  simp [programPath, concurrencyPath] at short

/-- The sources are no file of a compiler. -/
theorem sourcesPath_not_mem_concurrencyFiles (concurrencyId : Nat) (programName : String) :
    sourcesPath programName ∉ concurrencyFiles concurrencyId := by
  intro member
  obtain ⟨name, among, same⟩ := List.mem_map.mp member
  obtain rfl : name = "src" := by
    simpa [sourcesPath, programPath, concurrencyPath] using congrArg List.getLast? same
  simp at among

/-- An accepted request whose files nothing obstructs is written. -/
theorem writePhase_completes {concurrencyId : Nat} {files : Files} {world : World ByteArray}
    (accepts : Accepts env files) (unobstructed : Unobstructed concurrencyId programName world) :
    ∃ after, writePhase env concurrencyId programName files world = (.ok (), after) := by
  obtain ⟨noFaults, above, noFile, prepares⟩ := unobstructed
  have checked : checkFiles env files = pure () := checkFiles_of_accepts accepts
  cases prepared : initConcurrency concurrencyId world with
  | mk result between =>
      rw [prepared] at prepares
      obtain rfl : result = .ok () := prepares
      have noFaultsBetween : between.faults = [] := by
        simpa only [prepared] using initConcurrency_calm concurrencyId world noFaults
      have kept : ∀ path, path ∉ concurrencyFiles concurrencyId →
          world.files.isFile path = false → between.files.isFile path = false :=
        fun path apart same => initConcurrency_isFile apart world () between same prepared
      obtain ⟨cleared, removes, empty, keeps⟩ := removeSources_completes noFaultsBetween
        (kept _ (sourcesPath_not_mem_concurrencyFiles concurrencyId programName) noFile)
      have tidy : Tidy programName cleared := tidy_of_cleared (fun place high =>
        keeps _ (kept _ (not_mem_concurrencyFiles_of_above high) (above place high))) empty
      obtain ⟨after, writes⟩ := writeSources_completes accepts.2
        (show (World.mk cleared []).faults = [] from rfl) tidy
      refine ⟨after, ?_⟩
      rw [writePhase, checked]
      change (initConcurrency concurrencyId >>= fun _ => removeSources programName >>= fun _ =>
        writeSources programName files) world = _
      simp only [Bind.bind, prepared, removes, writes]

/-! ## Handling a request -/

/-- What `program::build` does with the files of a request. -/
structure InputHandled (env : Environment Idl) (toolchain : Toolchain) (concurrencyId : Nat)
    (programName : String) (files : Files) (flags : BuildFlags) : Prop where
  /-- A build is its write phase, and then the manifest, the compiler and the answer. -/
  phases : build env toolchain concurrencyId programName files flags = (do
    writePhase env concurrencyId programName files
    updateManifest env concurrencyId programName
    let output ← compile toolchain concurrencyId programName
    respond env programName flags output)
  /-- A rejected request touches nothing. -/
  rejected : ¬Accepts env files → ∀ world, ∃ error,
    build env toolchain concurrencyId programName files flags world = (.error error, world)
  /-- After the write phase, below `src` are the last contents of the paths and nothing else. -/
  contents : ∀ world after,
    writePhase env concurrencyId programName files world = (.ok (), after) →
      ∀ place content, after.files.content (sourcesPath programName ++ place) = some content ↔
        ∃ path text, lastContent files path = some text ∧ text.toUTF8 = content ∧
          itemPath programName path = sourcesPath programName ++ place
  /-- No file of a list that is accepted stops another one: over cleared sources only a
  failure from outside does. -/
  completes : Accepts env files → ∀ world : World ByteArray, world.faults = [] →
    (∀ above, above <+: programPath programName → world.files.isFile above = false) →
    (∀ place, world.files.node (sourcesPath programName ++ place) = none) →
      ∃ after, writeSources programName files world = (.ok (), after)
  /-- An accepted request whose files nothing obstructs completes the whole write phase. -/
  writes : Accepts env files → ∀ world, Unobstructed concurrencyId programName world →
    ∃ after, writePhase env concurrencyId programName files world = (.ok (), after)
  /-- Two paths have two places. -/
  distinct : ∀ first second, env.isValid first = true → env.isValid second = true →
    itemPath programName first = itemPath programName second → first = second
  /-- A file is below `src`, and no component of its path is a step elsewhere. -/
  inside : ∀ path, env.isValid path = true → ∃ below, below ≠ [] ∧
    itemPath programName path = sourcesPath programName ++ below ∧
      ∀ name ∈ itemPath programName path, UnixPath.IsName name.toList
  /-- No file is on the way to another one. -/
  apart : ∀ first second, env.isValid first = true → env.isValid second = true →
    itemPath programName first <+: itemPath programName second → first = second

/-- What the sources have at a place after the write phase. -/
theorem writePhase_contents {concurrencyId : Nat} {programName : String} {files : Files}
    {world after : World ByteArray}
    (ran : writePhase env concurrencyId programName files world = (.ok (), after))
    (place : Path) (content : ByteArray) :
    after.files.content (sourcesPath programName ++ place) = some content ↔
      ∃ path text, lastContent files path = some text ∧ text.toUTF8 = content ∧
        itemPath programName path = sourcesPath programName ++ place := by
  have valid := (accepts_of_writePhase ran).2
  have left := congrFun (writePhase_ensures env concurrencyId programName files world () after
    trivial ran) place
  have here : sourcesPath programName ++ place = programPath programName ++ "src" :: place := by
    simp [sourcesPath]
  have distinct : ∀ first ∈ files, ∀ second ∈ files,
      relativePath first.1 = relativePath second.1 → first.1 = second.1 := by
    intro first firstIn second secondIn same
    have place : itemPath programName first.1 = itemPath programName second.1 := by
      rw [itemPath, itemPath, same]
    exact itemPath_injective (valid first firstIn) (valid second secondIn) place
  have placed : ∀ path, itemPath programName path = programPath programName ++ "src" :: place ↔
      relativePath path = "src" :: place := fun path => List.append_right_inj _
  rw [here, ← sources, left, sourcesOf, written_iff distinct]
  simp only [placed]

/-- A build with an accepted UUID handles its input. -/
theorem inputHandled {uuid : String} (accepted : ProgramFiles.tryParse uuid.toList = true)
    (env : Environment Idl) (toolchain : Toolchain) (concurrencyId : Nat) (files : Files)
    (flags : BuildFlags) : InputHandled env toolchain concurrencyId uuid files flags where
  phases := by
    rw [build, prepare_eq, FileM.bind_assoc]
  rejected := by
    intro rejects world
    obtain ⟨error, failed⟩ := checkFiles_of_rejects rejects
    refine ⟨error, ?_⟩
    rw [build, prepare, failed]
    rfl
  contents := fun world after ran => writePhase_contents ran
  completes := by
    intro accepts world noFaults free cleared
    exact writeSources_completes accepts.2 noFaults (tidy_of_cleared free cleared)
  writes := fun accepts world unobstructed => writePhase_completes accepts unobstructed
  distinct := fun first second => itemPath_injective
  inside := by
    intro path valid
    obtain ⟨directories, name, whole, names⟩ := itemPath_of_accepted uuid valid
    refine ⟨directories ++ [name], by simp, whole, ?_⟩
    intro component member
    have cases_ : component = programsDir ∨ component = uuid ∨ component = "src" ∨
        component ∈ directories ∨ component = name := by
      simpa [whole, sourcesPath, programPath, or_assoc] using member
    rcases cases_ with rfl | rfl | rfl | directory | rfl
    · decide
    · exact Confinement.isName_of_tryParse accepted
    · decide
    · exact (names.directories component directory).2
    · exact names.isName
  apart := fun first second => itemPath_apart

/-- A build of two versions of one file. -/
theorem inputHandled_build : ProgramFiles.tryParse goodBuild.uuid.toList = true ∧
    InputHandled plainEnvironment goodBuild.toolchain 0 goodBuild.uuid
      [("/src/lib.rs", "fn"), ("/src/lib.rs", "")] goodBuild.flags :=
  ⟨by decide, inputHandled (by decide) plainEnvironment goodBuild.toolchain 0
    [("/src/lib.rs", "fn"), ("/src/lib.rs", "")] goodBuild.flags⟩

end Solpg.Server.Program
