import Mathlib.Data.List.Nodup
import Solpg.Server.PackageVisits
import Solpg.Std.DirectoryTree
import Solpg.Std.Outcome
import Solpg.Std.PathText

/-!
# Which declarations are saved

`generate_types` for a package whose files are on a disk: the walk of
`get_all_declaration_files` from where the `types` field leads, and the paths that
`convert_files` makes of what was found.
-/

namespace Solpg.Server.Package

open Solpg.Std
open Calls

/-- A disk without links. `entries` are the names in a directory, in the order in which
they are read. -/
structure Disk where
  tree : DirectoryTree Text FileBytes
  cwd : List Text
  isDirectory_cwd : tree.node cwd = some .directory
  entries : List Text → List Text
  mem_entries : ∀ place name, name ∈ entries place ↔ (tree.node (place ++ [name])).isSome
  nodup_entries : ∀ place, (entries place).Nodup
  isName : ∀ place name, (tree.node (place ++ [name])).isSome → UnixPath.IsName name
  depth : Nat
  length_le : ∀ place, (tree.node place).isSome → place.length ≤ depth

namespace Disk

variable (disk : Disk)

/-- A directory stands at this place. -/
def isDirectory (place : List Text) : Bool :=
  match disk.tree.node place with
  | some .directory => true
  | _ => false

/-- Follow the components through directories. -/
def resolve : List Text → List Text → Except IoErrorKind (List Text)
  | place, [] => if (disk.tree.node place).isSome then .ok place else .error .notFound
  | place, name :: rest =>
      match disk.tree.node place with
      | some .directory =>
          resolve (if name = UnixPath.dotDot then place.dropLast else place ++ [name]) rest
      | some (.file _) => .error .other
      | none => .error .notFound

/-- Where the path leads. -/
def find (path : UnixPath) : Except IoErrorKind (List Text) :=
  disk.resolve (if path.absolute then [] else disk.cwd) path.components

/-- The answers to the calls that read from the disk. -/
def answers (others : Answers) : Answers
  | .exists_ path =>
      match disk.find path with
      | .ok _ => .ok (true : Bool)
      | .error .notFound => .ok (false : Bool)
      | .error .other => .error .other
  | .isFile path => (disk.find path).map fun place => !disk.isDirectory place
  | .readDir path =>
      (disk.find path).bind fun place =>
        if disk.isDirectory place then
          .ok ((disk.entries place).map fun name =>
            .ok ⟨name, .ok (disk.isDirectory (place ++ [name]))⟩)
        else .error .other
  | .read path =>
      (disk.find path).bind fun place =>
        match disk.tree.content place with
        | some bytes => .ok bytes
        | none => .error .other
  | .canonicalize path => (disk.find path).map fun place => some (UnixPath.text place)
  | request => others request

/-! ## The files that are to be found -/

/-- A declaration file below the directory that stands in no directory `node_modules`. -/
def Declares (directory file : List Text) : Prop :=
  ∃ above name, file = directory ++ (above ++ [name]) ∧ nodeModules ∉ above ∧
    ".d.ts".toList.isSuffixOf name ∧ (disk.tree.content file).isSome

/-- The files of a types field that leads to the place: each declaration file below its
directory once, and the file that the field names first. -/
structure Lists (place : List Text) (files : List (List Text)) : Prop where
  nodup : files.Nodup
  mem_iff : ∀ file, file ∈ files ↔
    if disk.isDirectory place then disk.Declares place file
    else file = place ∨ disk.Declares place.dropLast file
  head : disk.isDirectory place = false → files.head? = some place

/-- What is saved of a file: its text, under the shortest end of its path that starts with
`node_modules`. -/
structure SavedAs (file : List Text) (pair : Text × Text) : Prop where
  text : (disk.tree.content file).bind FileBytes.text = some pair.2
  ends : pair.1 <:+ UnixPath.text file
  starts : nodeModules <+: pair.1
  last : ∀ later, later <:+ UnixPath.text file → nodeModules <+: later →
    pair.1.length ≤ later.length

/-- A file by its path from the last `node_modules` on, if it is a text. -/
def saved (file : List Text) : Option (Text × Text) := do
  let bytes ← disk.tree.content file
  let content ← bytes.text
  let path ← fromLast nodeModules (UnixPath.text file)
  return (path, content)

/-! ## The walk -/

/-- What one entry of the directory leads to. -/
def entryFiles (below : UnixPath → List Text → List (UnixPath × List Text)) (path : UnixPath)
    (place : List Text) (name : Text) : List (UnixPath × List Text) :=
  if disk.isDirectory (place ++ [name]) then
    if name = nodeModules then [] else below (path.entry name) (place ++ [name])
  else if ".d.ts".toList.isSuffixOf name then [(path.entry name, place ++ [name])]
  else []

/-- What the entries of the directory lead to, without the root file. -/
def listed (below : UnixPath → List Text → List (UnixPath × List Text)) (initialPath path : UnixPath)
    (place : List Text) : List (UnixPath × List Text) :=
  (disk.entries place).flatMap fun name =>
    if path.entry name = initialPath then [] else disk.entryFiles below path place name

/-- The files below a directory as the walk meets them. -/
def below : Nat → UnixPath → List Text → List (UnixPath × List Text)
  | 0, _, _ => []
  | depth + 1, path, place => disk.listed (below depth) path path place

/-- `fs::read_to_string` of what stands at the place. -/
def textAt (place : List Text) : Except IoErrorKind Text :=
  match (disk.tree.content place).bind FileBytes.text with
  | some text => .ok text
  | none => .error .other

/-- A collected file with its content. -/
def readFile (file : UnixPath × List Text) : Except IoErrorKind (UnixPath × Text) :=
  (disk.textAt file.2).map fun text => (file.1, text)

section Places

variable {disk} {path initialPath : UnixPath} {place file : List Text} {name : Text} {depth : Nat}
  {below : UnixPath → List Text → List (UnixPath × List Text)}

/-- A place is a directory when its node is one. -/
theorem isDirectory_iff : disk.isDirectory place ↔ disk.tree.node place = some .directory := by
  rw [isDirectory]
  split <;> simp_all

/-- What is there and no directory is a file. -/
theorem isDirectory_eq_false (there : (disk.tree.node place).isSome) :
    disk.isDirectory place = false ↔ (disk.tree.content place).isSome := by
  obtain ⟨node, found⟩ := Option.isSome_iff_exists.mp there
  cases node with
  | directory => simp [isDirectory, DirectoryTree.content, found]
  | file content => simp [isDirectory, DirectoryTree.content, found]

/-- One component more leads from a directory to its entry. -/
theorem resolve_concat (components : List Text) (start : List Text) (name : Text) :
    disk.resolve start (components ++ [name]) =
      (disk.resolve start components).bind fun place => disk.resolve place [name] := by
  induction components generalizing start with
  | nil =>
      rw [List.nil_append, resolve.eq_1]
      cases found : disk.tree.node start with
      | none => simp [resolve, found, Except.bind]
      | some node => simp [Except.bind]
  | cons first rest ih =>
      rw [List.cons_append, resolve, resolve]
      split
      · exact ih _
      · rfl
      · rfl

/-- An entry of a found directory is found below it. -/
theorem find_entry (found : disk.find path = .ok place) (directory : disk.isDirectory place)
    (there : (disk.tree.node (place ++ [name])).isSome) :
    disk.find (path.entry name) = .ok (place ++ [name]) := by
  have down := (disk.isName place name there).2.2.2
  rw [find] at found
  rw [find, UnixPath.entry, resolve_concat, found]
  simp only [Except.bind, resolve, isDirectory_iff.mp directory, if_neg down, if_pos there]

/-- An empty path resolves to where it starts. -/
theorem resolve_nil {start : List Text} :
    disk.resolve start [] = .ok place ↔ start = place ∧ (disk.tree.node start).isSome := by
  rw [resolve]
  by_cases there : (disk.tree.node start).isSome <;> simp [there]

/-- One component goes down to a child or up to the parent. -/
theorem resolve_one {above : List Text} (found : disk.resolve above [name] = .ok place) :
    disk.isDirectory above ∧
      place = if name = UnixPath.dotDot then above.dropLast else above ++ [name] := by
  rw [resolve.eq_2] at found
  cases node : disk.tree.node above with
  | none =>
      rw [node] at found
      cases found
  | some node' =>
      rw [node] at found
      cases node' with
      | file content => cases found
      | directory => exact ⟨isDirectory_iff.mpr node, (resolve_nil.mp found).1.symm⟩

/-- Where a path starts there is a directory. -/
theorem isDirectory_start (disk : Disk) (path : UnixPath) :
    disk.isDirectory (if path.absolute then [] else disk.cwd) := by
  rw [isDirectory_iff]
  split
  · exact disk.tree.root
  · exact disk.isDirectory_cwd

/-- What lies above a directory is a directory. -/
theorem isDirectory_dropLast (directory : disk.isDirectory place) :
    disk.isDirectory place.dropLast := by
  rw [isDirectory_iff] at directory ⊢
  induction place using List.reverseRecOn with
  | nil => exact directory
  | append_singleton above name =>
      rw [List.dropLast_concat]
      exact disk.tree.closed above name (by rw [directory]; rfl)

/-- A path that leads to a file ends with the name of the file, and its parent leads to the
directory of the file. -/
theorem exists_parent (found : disk.find path = .ok place) (isFile : disk.isDirectory place = false) :
    ∃ parent above name, path.parent = some parent ∧ path = parent.entry name ∧
      place = above ++ [name] ∧ disk.find parent = .ok above ∧ disk.isDirectory above := by
  obtain ⟨absolute, components⟩ := path
  rw [find] at found
  induction components using List.reverseRecOn with
  | nil =>
      have start := isDirectory_start disk ⟨absolute, []⟩
      rw [(resolve_nil.mp found).1, isFile] at start
      cases start
  | append_singleton components name =>
      rw [resolve_concat] at found
      cases parent : disk.resolve (if absolute then [] else disk.cwd) components with
      | error kind =>
          rw [parent] at found
          cases found
      | ok above =>
          rw [parent] at found
          obtain ⟨directory, same⟩ := resolve_one found
          have down : name ≠ UnixPath.dotDot := by
            intro up
            rw [same, if_pos up, isDirectory_dropLast directory] at isFile
            cases isFile
          exact ⟨⟨absolute, components⟩, above, name, by simp [UnixPath.parent], rfl,
            same.trans (if_neg down), parent, directory⟩

/-! ### What the walk meets -/

/-- A listed file comes from an entry other than the start. -/
theorem mem_listed {pair : UnixPath × List Text} :
    pair ∈ disk.listed below initialPath path place ↔ ∃ name ∈ disk.entries place,
      path.entry name ≠ initialPath ∧ pair ∈ disk.entryFiles below path place name := by
  simp only [listed, List.mem_flatMap]
  refine exists_congr fun name => and_congr_right fun _ => ?_
  split <;> simp_all

/-- Whatever an entry leads to stands at the entry or below it. -/
theorem entry_prefix_of_mem {pair : UnixPath × List Text}
    (within : ∀ path place, ∀ pair ∈ below path place, place <+: pair.2)
    (member : pair ∈ disk.entryFiles below path place name) : place ++ [name] <+: pair.2 := by
  rw [entryFiles] at member
  split at member
  · split at member
    · cases member
    · exact within _ _ pair member
  · split at member
    · obtain rfl := List.mem_singleton.mp member
      exact List.prefix_rfl
    · cases member

/-- The files of a listing lie below its place. -/
theorem prefix_of_mem_listed {pair : UnixPath × List Text}
    (within : ∀ path place, ∀ pair ∈ below path place, place <+: pair.2)
    (member : pair ∈ disk.listed below initialPath path place) : place <+: pair.2 := by
  obtain ⟨name, -, -, member⟩ := mem_listed.mp member
  exact (List.prefix_append place [name]).trans (entry_prefix_of_mem within member)

/-- The files below a place lie below it, at every depth. -/
theorem prefix_of_mem_below : ∀ depth path place, ∀ pair ∈ disk.below depth path place,
    place <+: pair.2 := by
  intro depth
  induction depth with
  | zero => exact fun _ _ => List.forall_mem_nil _
  | succ depth ih => exact fun path place pair member => prefix_of_mem_listed ih member

/-- A listing has no place twice when the recursion has none. -/
theorem nodup_listed (within : ∀ path place, ∀ pair ∈ below path place, place <+: pair.2)
    (nodup : ∀ path place, ((below path place).map Prod.snd).Nodup) :
    ((disk.listed below initialPath path place).map Prod.snd).Nodup := by
  rw [listed, List.map_flatMap, List.nodup_flatMap]
  constructor
  · intro name _
    rw [entryFiles]
    split
    · exact List.nodup_nil
    · split
      · split
        · exact List.nodup_nil
        · exact nodup _ _
      · split
        · exact List.nodup_singleton _
        · exact List.nodup_nil
  · refine (disk.nodup_entries place).imp fun {first second} different => ?_
    refine List.disjoint_left.mpr ?_
    intro file inFirst inSecond
    have starts : ∀ name, file ∈ (if path.entry name = initialPath then []
        else disk.entryFiles below path place name).map Prod.snd → place ++ [name] <+: file := by
      intro name member
      split at member
      · cases member
      · obtain ⟨pair, inside, rfl⟩ := List.mem_map.mp member
        exact entry_prefix_of_mem within inside
    have same := List.prefix_of_prefix_length_le (starts first inFirst) (starts second inSecond)
      (by simp)
    have equal := same.eq_of_length (by simp)
    exact different (List.singleton_inj.mp (List.append_inj_right' equal rfl))

/-- No place is collected twice. -/
theorem nodup_below : ∀ depth path place, ((disk.below depth path place).map Prod.snd).Nodup := by
  intro depth
  induction depth with
  | zero => exact fun _ _ => List.nodup_nil
  | succ depth ih => exact fun path place => nodup_listed (prefix_of_mem_below depth) ih

/-- A path that the walk meets leads to where the file stands. -/
theorem find_of_mem_listed
    (finds : ∀ path place, disk.find path = .ok place → disk.isDirectory place →
      ∀ pair ∈ below path place, disk.find pair.1 = .ok pair.2)
    (found : disk.find path = .ok place) (directory : disk.isDirectory place) :
    ∀ pair ∈ disk.listed below initialPath path place, disk.find pair.1 = .ok pair.2 := by
  intro pair member
  obtain ⟨name, entry, -, member⟩ := mem_listed.mp member
  have here := find_entry found directory ((disk.mem_entries place name).mp entry)
  rw [entryFiles] at member
  split at member
  next isDir =>
    split at member
    · cases member
    · exact finds _ _ here isDir pair member
  next =>
    split at member
    · obtain rfl := List.mem_singleton.mp member
      exact here
    · cases member

/-- Every collected path is found at its place. -/
theorem find_of_mem_below : ∀ depth path place, disk.find path = .ok place →
    disk.isDirectory place → ∀ pair ∈ disk.below depth path place, disk.find pair.1 = .ok pair.2 := by
  intro depth
  induction depth with
  | zero => exact fun _ _ _ _ => List.forall_mem_nil _
  | succ depth ih => exact fun path place => find_of_mem_listed ih

/-- A declaration file is an entry of the directory, or is found below one. -/
theorem declares_iff : disk.Declares place file ↔ ∃ name ∈ disk.entries place,
    if disk.isDirectory (place ++ [name]) then
      name ≠ nodeModules ∧ disk.Declares (place ++ [name]) file
    else ".d.ts".toList.isSuffixOf name ∧ file = place ++ [name] := by
  constructor
  · rintro ⟨above, name, rfl, outside, suffix, content⟩
    have there : (disk.tree.node (place ++ (above ++ [name]))).isSome := by
      obtain ⟨bytes, found⟩ := Option.isSome_iff_exists.mp content
      rw [DirectoryTree.content_eq_some.mp found]
      rfl
    cases above with
    | nil =>
        refine ⟨name, (disk.mem_entries place name).mpr there, ?_⟩
        rw [List.nil_append] at there content
        rw [(isDirectory_eq_false there).mpr content]
        exact ⟨suffix, rfl⟩
    | cons first rest =>
        have split : place ++ (first :: rest ++ [name]) = place ++ [first] ++ (rest ++ [name]) := by
          simp
        rw [split] at there content ⊢
        have directory := DirectoryTree.node_of_below there (by simp)
        refine ⟨first, (disk.mem_entries place first).mpr (by rw [directory]; rfl), ?_⟩
        rw [if_pos (isDirectory_iff.mpr directory)]
        rw [List.mem_cons, not_or] at outside
        exact ⟨Ne.symm outside.1, rest, name, rfl, outside.2, suffix, content⟩
  · rintro ⟨name, entry, found⟩
    have there := (disk.mem_entries place name).mp entry
    split at found
    next directory =>
      obtain ⟨other, above, last, rfl, outside, suffix, content⟩ := found
      exact ⟨name :: above, last, by simp, by simp [Ne.symm other, outside], suffix, content⟩
    next noDirectory =>
      obtain ⟨suffix, rfl⟩ := found
      refine ⟨[], name, rfl, List.not_mem_nil, suffix, ?_⟩
      exact (isDirectory_eq_false there).mp (by simpa using noDirectory)

/-- The declaration files by the entries that lead to them, without the root file. -/
theorem mem_places_listed
    (meets : ∀ path name, name ∈ disk.entries place → disk.isDirectory (place ++ [name]) →
      (file ∈ (below path (place ++ [name])).map Prod.snd ↔ disk.Declares (place ++ [name]) file)) :
    file ∈ (disk.listed below initialPath path place).map Prod.snd ↔
      ∃ name ∈ disk.entries place, path.entry name ≠ initialPath ∧
        if disk.isDirectory (place ++ [name]) then
          name ≠ nodeModules ∧ disk.Declares (place ++ [name]) file
        else ".d.ts".toList.isSuffixOf name ∧ file = place ++ [name] := by
  simp only [listed, List.map_flatMap, List.mem_flatMap]
  refine exists_congr fun name => and_congr_right fun entry => ?_
  by_cases root : path.entry name = initialPath
  · simp [root]
  rw [if_neg root, entryFiles, and_iff_right root]
  split
  next directory =>
    split
    next installed => exact iff_of_false List.not_mem_nil fun within => within.1 installed
    next other => exact (meets _ name entry directory).trans (and_iff_right other).symm
  next =>
    split
    next suffix => exact List.mem_singleton.trans (and_iff_right suffix).symm
    next other => exact iff_of_false List.not_mem_nil fun within => other within.1

/-- An entry is not its own directory. -/
theorem entry_ne (path : UnixPath) (name : Text) : path.entry name ≠ path := by
  intro same
  have lengths := congrArg (fun path : UnixPath => path.components.length) same
  simp [UnixPath.entry] at lengths

/-- With enough depth the walk meets every declaration file. -/
theorem mem_places_below : ∀ depth path place, disk.isDirectory place →
    disk.depth < place.length + depth →
      (file ∈ (disk.below depth path place).map Prod.snd ↔ disk.Declares place file) := by
  intro depth
  induction depth with
  | zero =>
      intro path place directory deep
      have short := disk.length_le place (by rw [isDirectory_iff.mp directory]; rfl)
      omega
  | succ depth ih =>
      intro path place directory deep
      have meets := fun path name (_ : name ∈ disk.entries place) directory =>
        ih path (place ++ [name]) directory (by rw [List.length_append]; simp; omega)
      rw [Disk.below, mem_places_listed meets, declares_iff]
      simp only [ne_eq, entry_ne, not_false_eq_true, true_and]

/-- Next to the root file the walk meets the other declaration files. -/
theorem lists_beside (isFile : disk.isDirectory (place ++ [name]) = false)
    (deep : disk.depth < place.length + 1 + depth) :
    disk.Lists (place ++ [name])
      ((place ++ [name]) ::
        (disk.listed (disk.below depth) (path.entry name) path place).map Prod.snd) := by
  have sameName : ∀ other, path.entry other = path.entry name ↔ other = name := by
    intro other
    simp [UnixPath.entry]
  have meets : ∀ file, file ∈ (disk.listed (disk.below depth) (path.entry name) path place).map
      Prod.snd ↔ ∃ other ∈ disk.entries place, other ≠ name ∧
        if disk.isDirectory (place ++ [other]) then
          other ≠ nodeModules ∧ disk.Declares (place ++ [other]) file
        else ".d.ts".toList.isSuffixOf other ∧ file = place ++ [other] := by
    intro file
    rw [mem_places_listed fun path other _ directory =>
      mem_places_below depth path (place ++ [other]) directory (by simp; omega)]
    simp only [ne_eq, sameName]
  constructor
  · refine List.nodup_cons.mpr ⟨?_, nodup_listed (prefix_of_mem_below depth) (nodup_below depth)⟩
    rw [meets]
    rintro ⟨other, entry, different, found⟩
    split at found
    next isDir =>
      obtain ⟨-, above, last, same, -⟩ := found
      rw [List.append_assoc, List.append_cancel_left_eq] at same
      exact absurd (congrArg List.length same) (by simp)
    next =>
      exact different (List.singleton_inj.mp (List.append_cancel_left found.2)).symm
  · intro file
    rw [isFile, if_neg Bool.false_ne_true, List.dropLast_concat, List.mem_cons, meets, declares_iff]
    refine or_congr_right' fun other => exists_congr fun entryName => and_congr_right fun entry => ?_
    refine and_iff_right_of_imp fun found same => ?_
    subst same
    rw [isFile, if_neg Bool.false_ne_true] at found
    exact other found.2
  · exact fun _ => rfl

/-- To a sufficient depth every declaration file below the place is listed. -/
theorem lists_below (directory : disk.isDirectory place) (deep : disk.depth < place.length + depth) :
    disk.Lists place ((disk.below depth path place).map Prod.snd) where
  nodup := nodup_below depth path place
  mem_iff file := by
    rw [mem_places_below depth path place directory deep, if_pos directory]
  head isFile := by
    rw [isFile] at directory
    cases directory

end Places

/-! ## The calls -/

section Runs

variable {disk} {others : Answers} {path initialPath : UnixPath} {place : List Text} {name : Text}
  {depth : Nat} {below : UnixPath → List Text → List (UnixPath × List Text)}
  {recurse : UnixPath → FileCalls IoErrorKind (List (UnixPath × Text))}

/-- The program only reads, and ends with the result. -/
abbrev Finds {ε α : Type} (disk : Disk) (others : Answers) (result : Except ε α)
    (program : FileCalls ε α) : Prop :=
  Gives (disk.answers others) (fun call => call.isWrite = false) result program

/-- A call that reads finds what the disk answers. -/
theorem finds_io (disk : Disk) (others : Answers) (call : FileCall) {answer : call.Answer} (reads : call.isWrite = false)
    (answers : disk.answers others call = answer) : disk.Finds others answer call.io where
  result := answers
  calls _ member := List.mem_singleton.mp member ▸ reads

/-- Reading a found file finds its text. -/
theorem finds_readToString (found : disk.find path = .ok place) :
    disk.Finds others (disk.textAt place) (readToString path) := by
  have answer : disk.answers others (.read path) =
      match disk.tree.content place with
      | some bytes => .ok bytes
      | none => .error .other := by
    simp only [answers, found, Except.bind]
  rw [textAt]
  cases content : disk.tree.content place with
  | none =>
      rw [content] at answer
      exact (finds_io disk others (.read path) rfl answer).bind_error
  | some bytes =>
      rw [content] at answer
      refine (finds_io disk others (.read path) rfl answer).bind_ok ?_
      rw [Option.bind_some]
      cases bytes.text with
      | some text => exact .pure text
      | none => exact .fail IoErrorKind.other

/-- An entry gives what the walk meets there. -/
theorem finds_declarationEntry (found : disk.find (path.entry name) = .ok (place ++ [name]))
    (recurses : disk.isDirectory (place ++ [name]) →
      disk.Finds others ((below (path.entry name) (place ++ [name])).mapM disk.readFile)
        (recurse (path.entry name))) :
    disk.Finds others ((if path.entry name = initialPath then []
        else disk.entryFiles below path place name).mapM disk.readFile)
      (declarationEntry recurse initialPath path
        (.ok ⟨name, .ok (disk.isDirectory (place ++ [name]))⟩)) := by
  simp only [declarationEntry]
  split
  · exact .pure []
  rw [entryFiles]
  cases directory : disk.isDirectory (place ++ [name]) with
  | true =>
      simp only [if_true]
      split
      · exact .pure []
      · exact recurses directory
  | false =>
      simp only [Bool.false_eq_true, if_false]
      split
      · have whole : [(path.entry name, place ++ [name])].mapM disk.readFile =
            (disk.textAt (place ++ [name])).map fun content => [(path.entry name, content)] := by
          rw [List.mapM_cons, readFile]
          cases disk.textAt (place ++ [name]) <;> rfl
        rw [whole]
        exact (finds_readToString found).map
      · exact .pure []

/-- Mapping over collected lists maps over each of them. -/
theorem mapM_flatMap {α β γ ε : Type} (items : List α) (f : α → List β) (g : β → Except ε γ) :
    (items.flatMap f).mapM g = (items.mapM fun item => (f item).mapM g).map List.flatten := by
  induction items with
  | nil => rfl
  | cons item rest ih =>
      rw [List.flatMap_cons, List.mapM_append, List.mapM_cons, ih]
      cases (f item).mapM g with
      | error error => rfl
      | ok values => cases rest.mapM fun item => (f item).mapM g <;> rfl

/-- The entries of a directory give what the walk meets in it. -/
theorem finds_listed (found : disk.find path = .ok place) (directory : disk.isDirectory place)
    (recurses : ∀ name ∈ disk.entries place, disk.find (path.entry name) = .ok (place ++ [name]) →
      disk.isDirectory (place ++ [name]) →
        disk.Finds others ((below (path.entry name) (place ++ [name])).mapM disk.readFile)
          (recurse (path.entry name))) (wrap : List (UnixPath × Text) → List (UnixPath × Text)) :
    disk.Finds others (((disk.listed below initialPath path place).mapM disk.readFile).map wrap)
      (do
        let entries : List (Except IoErrorKind DirEntry) ← (FileCall.readDir path).io
        let files ← entries.mapM (declarationEntry recurse initialPath path)
        pure (wrap files.flatten)) := by
  have answer : disk.answers others (.readDir path) =
      .ok ((disk.entries place).map fun name =>
        .ok ⟨name, .ok (disk.isDirectory (place ++ [name]))⟩) := by
    simp only [answers, found, Except.bind, if_pos directory]
  refine (finds_io disk others (.readDir path) rfl answer).bind_ok ?_
  have each : disk.Finds others ((disk.entries place).mapM fun name =>
      (if path.entry name = initialPath then []
        else disk.entryFiles below path place name).mapM disk.readFile)
      (((disk.entries place).map fun name =>
        (.ok ⟨name, .ok (disk.isDirectory (place ++ [name]))⟩ : Except IoErrorKind DirEntry)).mapM
          (declarationEntry recurse initialPath path)) := by
    rw [List.mapM_map]
    refine Gives.mapM fun name entry => ?_
    have here := find_entry found directory ((disk.mem_entries place name).mp entry)
    exact finds_declarationEntry here (recurses name entry here)
  rw [listed, mapM_flatMap]
  cases chunks : (disk.entries place).mapM fun name =>
      (if path.entry name = initialPath then []
        else disk.entryFiles below path place name).mapM disk.readFile with
  | error kind =>
      rw [chunks] at each
      exact each.bind_error
  | ok files =>
      rw [chunks] at each
      exact each.bind_ok (.pure _)

/-- From a directory all of its declaration files are read. -/
theorem finds_below : ∀ depth path place, disk.find path = .ok place → disk.isDirectory place →
    disk.depth < place.length + depth →
      disk.Finds others ((disk.below depth path place).mapM disk.readFile)
        (getAllDeclarationFiles depth path) := by
  intro depth
  induction depth with
  | zero =>
      intro path place found directory deep
      have short := disk.length_le place (by rw [isDirectory_iff.mp directory]; rfl)
      omega
  | succ depth ih =>
      intro path place found directory deep
      have answer : disk.answers others (.isFile path) = .ok (false : Bool) := by
        simp only [answers, found, Except.map, directory, Bool.not_true]
      refine (finds_io disk others (.isFile path) rfl answer).bind_ok ?_
      have walk := @finds_listed disk others path path place (disk.below depth)
        (getAllDeclarationFiles depth) found directory (fun name entry here directory =>
          ih (path.entry name) (place ++ [name]) here directory (by simp; omega)) id
      rw [Except.map_id] at walk
      exact walk

/-- From a file the file itself is read, and then the others of its directory. -/
theorem finds_beside {parent : UnixPath} {above : List Text} (found : disk.find parent = .ok above)
    (directory : disk.isDirectory above) (root : disk.find (parent.entry name) = .ok (above ++ [name]))
    (isFile : disk.isDirectory (above ++ [name]) = false) (deep : disk.depth < above.length + 1 + depth) :
    disk.Finds others (((parent.entry name, above ++ [name]) ::
        disk.listed (disk.below depth) (parent.entry name) parent above).mapM disk.readFile)
      (getAllDeclarationFiles (depth + 1) (parent.entry name)) := by
  have answer : disk.answers others (.isFile (parent.entry name)) = .ok (true : Bool) := by
    simp only [answers, root, Except.map, isFile, Bool.not_false]
  refine (finds_io disk others (.isFile (parent.entry name)) rfl answer).bind_ok ?_
  have text : disk.Finds others (disk.textAt (above ++ [name])) (readToString (parent.entry name)) :=
    finds_readToString root
  rw [List.mapM_cons, readFile]
  cases content : disk.textAt (above ++ [name]) with
  | error kind =>
      rw [content] at text
      exact text.bind_error
  | ok content' =>
      rw [content] at text
      refine text.bind_ok ?_
      rw [Confinement.parent_entry]
      exact finds_listed found directory (fun other entry here directory =>
        finds_below depth _ _ here directory (by simp; omega)) ((parent.entry name, content') :: ·)

/-- What `convert_files` makes of a file. -/
def convertedFile (disk : Disk) (file : UnixPath × Text) : Except Error (Text × Text) :=
  match disk.find file.1 with
  | .error kind => .error (.io kind)
  | .ok place =>
      match fromLast nodeModules (UnixPath.text place) with
      | none => .error (.invalidPath (UnixPath.text place))
      | some path => .ok (path, file.2)

/-- Converting finds the files under their saved paths. -/
theorem finds_convertFiles (disk : Disk) (others : Answers) (files : List (UnixPath × Text)) :
    disk.Finds others (files.mapM disk.convertedFile) (convertFiles files) := by
  refine Gives.mapM fun file _ => ?_
  have answer : disk.answers others (.canonicalize file.1) =
      (disk.find file.1).map fun place => some (UnixPath.text place) := rfl
  have call := (finds_io disk others (.canonicalize file.1) rfl answer).mapError (f := Error.io)
  rw [convertedFile]
  cases found : disk.find file.1 with
  | error kind =>
      rw [found] at call
      exact call.bind_error
  | ok place =>
      rw [found] at call
      refine call.bind_ok ?_
      dsimp only
      cases fromLast nodeModules (UnixPath.text place) with
      | none => exact .fail _
      | some path => exact .pure _

/-- Reading and converting together. -/
theorem converted_eq_saved {pairs : List (UnixPath × List Text)}
    (finds : ∀ pair ∈ pairs, disk.find pair.1 = .ok pair.2) :
    ((pairs.mapM disk.readFile).toOption.bind fun files => (files.mapM disk.convertedFile).toOption) =
      (pairs.map Prod.snd).mapM disk.saved := by
  simp only [Outcome.toOption_mapM]
  rw [Outcome.mapM_option_bind, List.mapM_map]
  refine Outcome.mapM_congr fun pair member => ?_
  have found := finds pair member
  change (disk.readFile pair).toOption.bind _ = disk.saved pair.2
  rw [readFile, textAt, saved]
  cases disk.tree.content pair.2 with
  | none => rfl
  | some bytes =>
      cases content : bytes.text with
      | none => simp [content, Except.map, Except.toOption]
      | some text =>
          simp only [content, Except.map, Except.toOption, convertedFile, found, Option.bind_some,
            Option.bind_eq_bind, Option.pure_def]
          cases fromLast nodeModules (UnixPath.text pair.2) <;> rfl

/-- The files that are found from where the types field leads. -/
theorem exists_walk (others : Answers) (found : disk.find path = .ok place)
    (deep : disk.depth < depth) :
    ∃ pairs : List (UnixPath × List Text), disk.Lists place (pairs.map Prod.snd) ∧
      (∀ pair ∈ pairs, disk.find pair.1 = .ok pair.2) ∧
        disk.Finds others (pairs.mapM disk.readFile) (getAllDeclarationFiles (depth + 1) path) := by
  cases isDir : disk.isDirectory place with
  | true =>
      exact ⟨_, lists_below isDir (by omega), find_of_mem_below (depth + 1) path place found isDir,
        finds_below (depth + 1) path place found isDir (by omega)⟩
  | false =>
      obtain ⟨parent, above, name, -, rfl, rfl, foundAbove, directory⟩ := exists_parent found isDir
      refine ⟨(parent.entry name, above ++ [name]) ::
        disk.listed (disk.below depth) (parent.entry name) parent above,
        lists_beside isDir (by omega), ?_,
        finds_beside foundAbove directory found isDir (by omega)⟩
      rw [List.forall_mem_cons]
      exact ⟨found, find_of_mem_listed (find_of_mem_below depth) foundAbove directory⟩

end Runs
end Disk

/-! ## What is saved -/

section Saved

variable {ε α β : Type} {answers : Answers} {program : FileCalls ε α} {next : α → FileCalls ε β}
  {result : Except ε α} {value : α} {error : ε}

/-- The first write of a run. -/
def firstWrite (answers : Answers) (program : FileCalls ε α) : Option FileCall :=
  (program.run answers).2.find? FileCall.isWrite

/-- A program that only reads writes nothing. -/
theorem find?_calls (gives : Gives answers (fun call => call.isWrite = false) result program) :
    (program.run answers).2.find? FileCall.isWrite = none :=
  List.find?_eq_none.mpr fun call member => by simp [gives.calls call member]

/-- The first write comes after what only reads. -/
theorem firstWrite_bind_ok
    (first : Gives answers (fun call => call.isWrite = false) (.ok value) program) :
    firstWrite answers (program >>= next) = firstWrite answers (next value) := by
  rw [firstWrite, run_bind_ok (Prod.ext first.result rfl), List.find?_append, find?_calls first]
  rfl

/-- Nothing is written behind a failure of reads. -/
theorem firstWrite_bind_error
    (first : Gives answers (fun call => call.isWrite = false) (.error error) program) :
    firstWrite answers (program >>= next) = none :=
  find?_calls first.bind_error

/-- A write is the first one of what starts with it. -/
theorem firstWrite_write (path : UnixPath) (content : Written) {next : Unit → PackageM β} :
    firstWrite answers ((orFail (FileCall.write path content).io : PackageM Unit) >>= next) =
      some (.write path content) := by
  have call : (orFail (FileCall.write path content).io : PackageM Unit).run answers =
      ((answers (.write path content)).mapError .io, [.write path content]) := run_mapError
  rw [firstWrite]
  cases answer : answers (.write path content) with
  | error kind =>
      rw [answer] at call
      rw [run_bind_error call]
      rfl
  | ok value =>
      rw [answer] at call
      rw [run_bind_ok call]
      rfl

end Saved

/-- The list of declarations as it is written. -/
def typesWrite (name : Text) (files : Files) : FileCall :=
  .write (getPackageTypesPath name)
    (.json (.array (files.map fun file => .array [.string file.1, .string file.2])))

/-- What is written for the collected files, if each of them is a text and its directory can
be made. -/
def savedWrite (disk : Disk) (others : Answers) (name : Text) (collected : List (List Text)) :
    Option FileCall :=
  (collected.mapM disk.saved).bind fun files =>
    (others (.createDirAll (getPackageOutPath name))).toOption.map fun _ => typesWrite name files

/-- The list that `generate_types` saves: it is made of the collected files, in their order,
and it is saved when they are texts below a directory `node_modules` and the output directory
can be made. -/
structure Saves (disk : Disk) (others : Answers) (name : Text) (place : List Text) (depth : Nat)
    (collected : List (List Text)) : Prop where
  only : ∀ call, firstWrite (disk.answers others) (generateTypes depth name) = some call →
    ∃ files, call = typesWrite name files ∧ List.Forall₂ disk.SavedAs collected files
  happens : nodeModules ∈ place.dropLast →
    (∀ file ∈ collected, ((disk.tree.content file).bind FileBytes.text).isSome) →
      others (.createDirAll (getPackageOutPath name)) = .ok (() : Unit) →
        (firstWrite (disk.answers others) (generateTypes depth name)).isSome

/-- Later ends of a text are shorter. -/
theorem pairwise_tails (text : Text) : text.tails.Pairwise fun first second =>
    second.length ≤ first.length := by
  induction text with
  | nil => exact List.pairwise_singleton _ _
  | cons char rest ih =>
      rw [List.tails_cons, List.pairwise_cons]
      refine ⟨fun later member => ?_, ih⟩
      exact ((List.mem_tails _ _).mp member).length_le.trans (Nat.le_succ _)

/-- A text is found from its last occurrence exactly when it occurs. -/
theorem fromLast_isSome {pattern text : Text} : (fromLast pattern text).isSome ↔ pattern <:+: text := by
  rw [fromLast, List.getLast?_isSome, List.infix_iff_prefix_suffix]
  constructor
  · intro nonempty
    obtain ⟨tail, member⟩ := List.exists_mem_of_ne_nil _ nonempty
    rw [List.mem_filter, List.mem_tails, List.isPrefixOf_iff_prefix] at member
    exact ⟨tail, member.2, member.1⟩
  · rintro ⟨tail, starts, ends⟩
    refine List.ne_nil_of_mem (List.mem_filter.mpr ⟨(List.mem_tails _ _).mpr ends, ?_⟩)
    exact List.isPrefixOf_iff_prefix.mpr starts

/-- The last occurrence of a pattern starts the shortest end that it starts. -/
theorem shortest_of_fromLast {pattern text found : Text} (last : fromLast pattern text = some found) :
    found <:+ text ∧ pattern <+: found ∧
      ∀ later, later <:+ text → pattern <+: later → found.length ≤ later.length := by
  obtain ⟨before, split⟩ := List.getLast?_eq_some_iff.mp last
  have member : found ∈ text.tails.filter pattern.isPrefixOf := by
    rw [split]
    exact List.mem_append_right _ List.mem_cons_self
  rw [List.mem_filter, List.mem_tails, List.isPrefixOf_iff_prefix] at member
  refine ⟨member.1, member.2, fun later ends starts => ?_⟩
  have among : later ∈ text.tails.filter pattern.isPrefixOf :=
    List.mem_filter.mpr ⟨(List.mem_tails _ _).mpr ends, List.isPrefixOf_iff_prefix.mpr starts⟩
  have order := (pairwise_tails text).filter pattern.isPrefixOf
  rw [split] at among order
  rcases List.mem_append.mp among with earlier | here
  · exact (List.pairwise_append.mp order).2.2 later earlier found List.mem_cons_self
  · rw [List.mem_singleton.mp here]

/-- The name computed for a file is the one it is to be saved as. -/
theorem Disk.savedAs_of_saved {disk : Disk} {file : List Text} {pair : Text × Text}
    (saved : disk.saved file = some pair) : disk.SavedAs file pair := by
  obtain ⟨bytes, there, rest⟩ := Option.bind_eq_some_iff.mp saved
  obtain ⟨content, decoded, rest⟩ := Option.bind_eq_some_iff.mp rest
  obtain ⟨path, found, made⟩ := Option.bind_eq_some_iff.mp rest
  obtain rfl := Option.some.inj made
  obtain ⟨ends, starts, last⟩ := shortest_of_fromLast found
  exact ⟨by rw [there]; exact decoded, ends, starts, last⟩

/-- Every collected file is saved under its own name. -/
theorem Disk.forall₂_of_mapM {disk : Disk} {collected : List (List Text)} {files : Files}
    (all : collected.mapM disk.saved = some files) : List.Forall₂ disk.SavedAs collected files := by
  induction collected generalizing files with
  | nil =>
      obtain rfl : files = [] := by simpa using all.symm
      exact .nil
  | cons file rest ih =>
      rw [List.mapM_cons] at all
      obtain ⟨pair, first, all⟩ := Option.bind_eq_some_iff.mp all
      obtain ⟨pairs, later, made⟩ := Option.bind_eq_some_iff.mp all
      obtain rfl := Option.some.inj made
      exact .cons (Disk.savedAs_of_saved first) (ih later)

/-- A list that is written is made of the collected files. -/
theorem forall₂_of_savedWrite {disk : Disk} {others : Answers} {name : Text}
    {collected : List (List Text)} {call : FileCall}
    (written : savedWrite disk others name collected = some call) :
    ∃ files, call = typesWrite name files ∧ List.Forall₂ disk.SavedAs collected files := by
  obtain ⟨files, all, rest⟩ := Option.bind_eq_some_iff.mp written
  obtain ⟨_, _, rfl⟩ := Option.map_eq_some_iff.mp rest
  exact ⟨files, rfl, Disk.forall₂_of_mapM all⟩

/-- A text below a directory `node_modules` has a path. -/
theorem Disk.saved_isSome {disk : Disk} {file : List Text} (inside : nodeModules ∈ file)
    (text : ((disk.tree.content file).bind FileBytes.text).isSome) : (disk.saved file).isSome := by
  have within : nodeModules <:+: UnixPath.text file := by
    obtain ⟨before, after, rfl⟩ := List.append_of_mem inside
    rw [UnixPath.text_append, UnixPath.text_cons]
    exact ⟨UnixPath.text before ++ ['/'], UnixPath.text after, by simp⟩
  obtain ⟨path, found⟩ := Option.isSome_iff_exists.mp (fromLast_isSome.mpr within)
  obtain ⟨content, read⟩ := Option.isSome_iff_exists.mp text
  obtain ⟨bytes, there, decoded⟩ := Option.bind_eq_some_iff.mp read
  simp [Disk.saved, there, decoded, found]

/-- So the declarations of a package are saved if they are texts. -/
theorem savedWrite_isSome {disk : Disk} {others : Answers} {name : Text} {collected : List (List Text)}
    (created : others (.createDirAll (getPackageOutPath name)) = .ok (() : Unit))
    (inside : ∀ file ∈ collected, nodeModules ∈ file)
    (texts : ∀ file ∈ collected, ((disk.tree.content file).bind FileBytes.text).isSome) :
    (savedWrite disk others name collected).isSome := by
  have all : (collected.mapM disk.saved).isSome := by
    induction collected with
    | nil => rfl
    | cons file rest ih =>
        rw [List.forall_mem_cons] at inside texts
        obtain ⟨saved, first⟩ := Option.isSome_iff_exists.mp (Disk.saved_isSome inside.1 texts.1)
        obtain ⟨files, others⟩ := Option.isSome_iff_exists.mp (ih inside.2 texts.2)
        simp [List.mapM_cons, first, others]
  obtain ⟨files, found⟩ := Option.isSome_iff_exists.mp all
  rw [savedWrite, found, created]
  rfl

section Generated

variable {disk : Disk} {others : Answers} {name typeRoot : Text} {place : List Text} {depth : Nat}
  {pkgPath root : UnixPath} {json types : Json} {generate : Text → PackageM (Files × List Text)}

/-- The first write of a package saves the declarations below its types file. -/
theorem firstWrite_generateFrom
    (found : disk.find (pkgPath.join (.ofText typeRoot)) = .ok place) (deep : disk.depth + 1 < depth) :
    ∃ collected, disk.Lists place collected ∧
      firstWrite (disk.answers others)
        (generateFrom depth generate name pkgPath json (.string typeRoot)) =
          savedWrite disk others name collected := by
  obtain ⟨depth, rfl⟩ := Nat.exists_eq_add_of_le' (Nat.one_le_of_lt deep)
  obtain ⟨pairs, lists, finds, walk⟩ := Disk.exists_walk others found (by omega : disk.depth < depth)
  refine ⟨pairs.map Prod.snd, lists, ?_⟩
  rw [savedWrite, ← Disk.converted_eq_saved finds]
  have paths := walk.mapError (f := fun kind =>
    Error.context ("Failed to get type paths: `".toList ++ name ++ "`".toList) kind)
  cases read : pairs.mapM disk.readFile with
  | error kind =>
      rw [read] at paths
      exact firstWrite_bind_error paths
  | ok contents =>
      rw [read] at paths
      refine (firstWrite_bind_ok paths).trans ?_
      have convert := disk.finds_convertFiles others contents
      cases converted : contents.mapM disk.convertedFile with
      | error error =>
          rw [converted] at convert
          refine (firstWrite_bind_error convert).trans ?_
          simp only [Except.toOption, Option.bind_some, converted, Option.bind_none]
      | ok files =>
          rw [converted] at convert
          refine (firstWrite_bind_ok convert).trans ?_
          simp only [Except.toOption, Option.bind_some, converted]
          have create := (disk.finds_io others
            (.createDirAll (getPackageOutPath name)) rfl rfl).mapError (f := Error.io)
          cases made : others (.createDirAll (getPackageOutPath name)) with
          | error kind =>
              rw [show disk.answers others (.createDirAll (getPackageOutPath name)) = _ from made]
                at create
              exact firstWrite_bind_error create
          | ok value =>
              rw [show disk.answers others (.createDirAll (getPackageOutPath name)) = _ from made]
                at create
              refine (firstWrite_bind_ok create).trans ?_
              exact firstWrite_write _ _

/-- The manifests are only read. -/
theorem firstWrite_generateFromRoots {roots : List UnixPath}
    (first : typesManifest (disk.answers others) name roots = some (root, json, types)) :
    firstWrite (disk.answers others) (generateFromRoots depth generate name roots) =
      firstWrite (disk.answers others)
        (generateFrom depth generate name (root.join (.ofText name)) json types) := by
  obtain ⟨reads, quiet, ran⟩ := readsFirst_generateFromRoots first
  have none : reads.find? FileCall.isWrite = none :=
    List.find?_eq_none.mpr fun call member => by simp [quiet call member]
  rw [firstWrite, firstWrite, ran, List.find?_append, none, Option.none_or]

/-- What is collected stands below the directory of what the field leads to. -/
theorem Disk.Lists.inside {collected : List (List Text)} (lists : disk.Lists place collected)
    (within : nodeModules ∈ place.dropLast) : ∀ file ∈ collected, nodeModules ∈ file := by
  intro file member
  have listed := (lists.mem_iff file).mp member
  split at listed
  · obtain ⟨above, entry, rfl, -⟩ := listed
    exact List.mem_append_left _ (List.dropLast_subset _ within)
  · rcases listed with rfl | ⟨above, entry, rfl, -⟩
    · exact List.dropLast_subset _ within
    · exact List.mem_append_left _ within

/-- What `generate_types` saves for a package that is no Node built-in and whose types field leads
to a file or a directory is the list of its declaration files: each one below the directory of the
type root and outside nested `node_modules` once, and the file that the field names first. -/
theorem generateTypes_saves (others : Answers)
    (notBuiltIn : disk.find (typesNodePath name) = .error .notFound)
    (manifest : typesManifest (disk.answers others) name pkgRoots = some (root, json, .string typeRoot))
    (found : disk.find ((root.join (.ofText name)).join (.ofText typeRoot)) = .ok place)
    (deep : disk.depth + 2 < depth) :
    ∃ collected, disk.Lists place collected ∧ Saves disk others name place depth collected := by
  obtain ⟨depth, rfl⟩ := Nat.exists_eq_add_of_le' (Nat.one_le_of_lt deep)
  obtain ⟨collected, lists, saves⟩ := @firstWrite_generateFrom disk others name typeRoot place depth
    (root.join (.ofText name)) json (generateTypes depth) found (by omega)
  have absent : disk.answers others (.exists_ (typesNodePath name)) = .ok (false : Bool) := by
    simp only [Disk.answers, notBuiltIn]
  have asked := (disk.finds_io others (.exists_ (typesNodePath name)) rfl absent).mapError (f := Error.io)
  have written : firstWrite (disk.answers others) (generateTypes (depth + 1) name) =
      savedWrite disk others name collected := by
    rw [← saves, ← firstWrite_generateFromRoots manifest]
    exact firstWrite_bind_ok asked
  refine ⟨collected, lists, fun call first => ?_, fun within texts created => ?_⟩
  · exact forall₂_of_savedWrite (written.symm.trans first)
  · rw [written]
    exact savedWrite_isSome created (lists.inside within) texts

end Generated

/-- The name of a place in the directory. -/
def nameIn (directory place : List Text) : Option Text :=
  if place.dropLast = directory then place.getLast? else none

/-- A file has a name in the directory that holds it. -/
theorem nameIn_eq_some {directory place : List Text} {name : Text} :
    nameIn directory place = some name ↔ place = directory ++ [name] := by
  rw [nameIn, Option.ite_none_right_eq_some, List.getLast?_eq_some_iff]
  constructor
  · rintro ⟨rfl, above, rfl⟩
    rw [List.dropLast_concat]
  · rintro rfl
    exact ⟨List.dropLast_concat, directory, rfl⟩

/-- A disk with the nodes. -/
def Disk.ofNodes (nodes : List (List Text × Node FileBytes)) (root : nodes.lookup [] = some .directory)
    (nodup : (nodes.map Prod.fst).Nodup)
    (closed : ∀ place ∈ nodes.map Prod.fst, nodes.lookup place.dropLast = some .directory)
    (areNames : ∀ place ∈ nodes.map Prod.fst, UnixPath.AreNames place) (depth : Nat)
    (length_le : ∀ place ∈ nodes.map Prod.fst, place.length ≤ depth) : Disk :=
  have mem_iff : ∀ place, (nodes.lookup place).isSome ↔ place ∈ nodes.map Prod.fst := by
    intro place
    simp
  { tree := {
      node := (nodes.lookup ·)
      root := root
      closed := fun path name there => by
        simpa using closed (path ++ [name]) ((mem_iff _).mp there) }
    cwd := []
    isDirectory_cwd := root
    entries := fun place => (nodes.map Prod.fst).filterMap (nameIn place)
    mem_entries := fun place name => by
      simp only [mem_iff, List.mem_filterMap, nameIn_eq_some, exists_eq_right]
    nodup_entries := fun place => nodup.filterMap fun first second name inFirst inSecond =>
      (nameIn_eq_some.mp inFirst).trans (nameIn_eq_some.mp inSecond).symm
    isName := fun place name there => areNames _ ((mem_iff _).mp there) name (by simp)
    depth := depth
    length_le := fun place there => length_le place ((mem_iff _).mp there) }

/-- The place of the package `a`. -/
def packagePlace : List Text := [packagesDir, nodeModules, "a".toList]

/-- A package with two declaration files, and one that is installed below it. -/
def packageNodes : List (List Text × Node FileBytes) :=
  [([], .directory), ([packagesDir], .directory), ([packagesDir, nodeModules], .directory),
    (packagePlace, .directory),
    (packagePlace ++ [FileCall.manifestName],
      .file ⟨none, some (.object [("types".toList, .string "./lib/../a.d.ts".toList)])⟩),
    (packagePlace ++ ["a.d.ts".toList], .file ⟨some "a".toList, none⟩),
    (packagePlace ++ ["lib".toList], .directory),
    (packagePlace ++ ["lib".toList, "b.d.ts".toList], .file ⟨some "b".toList, none⟩),
    (packagePlace ++ [nodeModules], .directory),
    (packagePlace ++ [nodeModules, "c.d.ts".toList], .file ⟨some "c".toList, none⟩)]

/-- A disk with the installed package `a`. -/
def packageDisk : Disk :=
  .ofNodes packageNodes rfl (by decide)
    (by
      intro place member
      simp only [packageNodes, List.map_cons, List.map_nil, List.mem_cons, List.not_mem_nil,
        or_false] at member
      rcases member with rfl | rfl | rfl | rfl | rfl | rfl | rfl | rfl | rfl | rfl <;> rfl)
    (by decide) 5 (by decide)

/-- Every call that does not read from the disk succeeds. -/
def packageOthers : Answers
  | .write _ _ | .createDirAll _ | .removeDirAll _ | .copy _ _ => .ok (() : Unit)
  | .exists_ _ | .read _ | .isFile _ | .readDir _ | .canonicalize _ | .run _ _ => .error .other

/-- The declarations of the package `a` are saved. -/
theorem generateTypes_saves_package : ∃ collected,
    packageDisk.Lists (packagePlace ++ ["a.d.ts".toList]) collected ∧
      Saves packageDisk packageOthers "a".toList (packagePlace ++ ["a.d.ts".toList]) 8 collected :=
  have manifest : typesManifest (packageDisk.answers packageOthers) "a".toList pkgRoots =
      some (getNodeModulesPath, _, .string "./lib/../a.d.ts".toList) := rfl
  generateTypes_saves packageOthers rfl manifest rfl (by decide)

/-- The place of the `@types` packages. -/
def typesPlace : List Text := [packagesDir, nodeModules, "@types".toList]

/-- The place of the package `buffer`. -/
def bufferPlace : List Text := [packagesDir, nodeModules, "buffer".toList]

/-- A package that is called like a Node built-in whose types are installed. -/
def bufferNodes : List (List Text × Node FileBytes) :=
  [([], .directory), ([packagesDir], .directory), ([packagesDir, nodeModules], .directory),
    (typesPlace, .directory), (typesPlace ++ ["node".toList], .directory),
    (typesPlace ++ ["node".toList, "buffer.d.ts".toList], .file ⟨some "node".toList, none⟩),
    (bufferPlace, .directory),
    (bufferPlace ++ [FileCall.manifestName],
      .file ⟨none, some (.object [("types".toList, .string "index.d.ts".toList)])⟩),
    (bufferPlace ++ ["index.d.ts".toList], .file ⟨some "buffer".toList, none⟩)]

/-- A disk with the installed package `buffer`, which has a built-in namesake. -/
def bufferDisk : Disk :=
  .ofNodes bufferNodes rfl (by decide)
    (by
      intro place member
      simp only [bufferNodes, List.map_cons, List.map_nil, List.mem_cons, List.not_mem_nil,
        or_false] at member
      rcases member with rfl | rfl | rfl | rfl | rfl | rfl | rfl | rfl | rfl <;> rfl)
    (by decide) 5 (by decide)

/-- The declarations of a Node built-in are saved in place of those of the package. -/
theorem generateTypes_not_always_saves : ¬ ∀ (disk : Disk) (others : Answers) (name typeRoot : Text)
    (root : UnixPath) (json : Json) (place : List Text) (depth : Nat),
    typesManifest (disk.answers others) name pkgRoots = some (root, json, .string typeRoot) →
      disk.find ((root.join (.ofText name)).join (.ofText typeRoot)) = .ok place →
        disk.depth + 2 < depth →
          ∃ collected, disk.Lists place collected ∧ Saves disk others name place depth collected := by
  intro always
  have manifest : typesManifest (bufferDisk.answers packageOthers) "buffer".toList pkgRoots =
      some (getNodeModulesPath, _, .string "index.d.ts".toList) := rfl
  obtain ⟨collected, lists, saves⟩ := always bufferDisk packageOthers "buffer".toList
    "index.d.ts".toList _ _ (bufferPlace ++ ["index.d.ts".toList]) 8 manifest rfl (by decide)
  have written : firstWrite (bufferDisk.answers packageOthers) (generateTypes 8 "buffer".toList) =
      some (typesWrite "buffer".toList
        [("node_modules/@types/node/buffer.d.ts".toList, "node".toList)]) := rfl
  obtain ⟨files, same, made⟩ := saves.only _ written
  obtain ⟨rest, rfl⟩ : ∃ rest, collected = (bufferPlace ++ ["index.d.ts".toList]) :: rest :=
    ⟨collected.tail, (List.cons_head?_tail (Option.mem_def.mpr (lists.head rfl))).symm⟩
  obtain ⟨pair, pairs, savedAs, -, rfl⟩ := List.forall₂_cons_left_iff.mp made
  have content : "buffer".toList = pair.2 := Option.some.inj savedAs.text
  simp only [typesWrite, FileCall.write.injEq, Written.json.injEq, Json.array.injEq, List.map_cons,
    List.map_nil, List.cons.injEq, Json.string.injEq, true_and, ← content] at same
  exact absurd same.1.2 (by decide)

end Solpg.Server.Package
