import Mathlib.Data.List.Nodup
import Solpg.Client.Frameworks.Common

/-!
# Import of a framework project

`convertToPlayground` of Anchor and of native projects: one program is selected when there are
several, and the files that are left go where the common layout says. The files of the selected
program go to their own places, no file of another program is among them and no two go to the
same place exactly when no source directory is nested in the program's and no two of the files
left agree from the directory on that decides where they go.
-/

namespace Solpg.Client.Frameworks

open Solpg.Std Solpg.Client.Utils PgCommon

/-- `selectProgram`: `choice` is what the user selects in the modal. -/
def selectProgram (choice : List Text → Option Text) (programNames : List Text) :
    Except Text Text :=
  match choice programNames with
  | some name => if name.isEmpty then .error "Program not selected".toList else .ok name
  | none => .error "Program not selected".toList

/-- `.*?` up to the first place of the text after it. -/
def lazyUntil (stop : Text) : Text → Option Text
  | [] => none
  | char :: rest =>
      if stop.isPrefixOf (char :: rest) then some []
      else if Text.isLineTerminator char then none
      else (lazyUntil stop rest).map (char :: ·)

/-- The text behind a literal. -/
def behind (literal text : Text) : Option Text :=
  if literal.isPrefixOf text then some (text.drop literal.length) else none

namespace Anchor

def programsDirname : Text := "programs".toList

/-- `programs\/(.*?)\/src`. -/
def programName (path : Text) : Option Text :=
  path.tails.findSome? fun tail =>
    (behind (programsDirname ++ slash) tail).bind (lazyUntil (slash ++ srcDirname))

def programNames (files : TupleFiles) : List Text :=
  (files.filterMap fun (path, _) => programName path).eraseDups

def keeps (programName path : Text) : Bool :=
  if Text.includes path programsDirname then
    Text.includes path (joinPaths programsDirname programName)
  else true

/-- The files that are left. -/
def kept (choice : List Text → Option Text) (files : TupleFiles) : Except Text TupleFiles :=
  let programNames := programNames files
  if 1 < programNames.length then do
    let programName ← selectProgram choice programNames
    .ok (files.filter fun (path, _) => keeps programName path)
  else .ok files

def convertToPlayground (choice : List Text → Option Text) (files : TupleFiles) :
    Except Text TupleFiles := do
  .ok (convertToPlaygroundCommon (← kept choice files))

end Anchor

namespace Native

def cargoToml : Text := "Cargo.toml".toList

/-- The manifest of the workspace that is highest in the project. -/
def workspaceManifest (files : TupleFiles) : Option Text :=
  let manifests := files.filter fun (path, content) =>
    Text.endsWith path cargoToml && Text.includes content "[workspace]".toList
  let depth (file : Text × Text) : Nat := (file.1.splitOn '/').length
  ((manifests.mergeSort fun first second => depth first ≤ depth second).head?).map Prod.snd

/-- `\s+`. -/
def spaces (text : Text) : Option Text :=
  match text with
  | char :: rest => if Text.isSpace char then some (rest.dropWhile Text.isSpace) else none
  | [] => none

/-- `\[workspace\]members\s+=\s+(\[.*?\])`. -/
def membersResult (text : Text) : Option Text :=
  text.tails.findSome? fun tail => do
    let rest ← behind "[workspace]members".toList tail
    let rest ← behind "=".toList (← spaces rest)
    let rest ← behind "[".toList (← spaces rest)
    let members ← lazyUntil "]".toList rest
    return '[' :: (members ++ [']'])

/-- The members with a file that has an entrypoint. `parse` is `JSON.parse` on a list of texts. -/
def programNames (parse : Text → Except Text (List Text)) (files : TupleFiles) :
    Except Text (List Text) :=
  match (workspaceManifest files).bind fun manifest =>
      membersResult (manifest.filter (· ≠ '\n')) with
  | some result => do
      let members ← parse (Text.replace result ",]".toList "]".toList)
      .ok (members.filter fun member => files.any fun (path, content) =>
        Text.includes path member && Text.includes content "entrypoint!".toList)
  | none => .ok []

/-- The files that are left. -/
def kept (parse : Text → Except Text (List Text)) (choice : List Text → Option Text)
    (files : TupleFiles) : Except Text TupleFiles := do
  let programNames ← programNames parse files
  if 1 < programNames.length then do
    let programName ← selectProgram choice programNames
    .ok (files.filter fun (path, _) => Text.includes path programName)
  else .ok files

def convertToPlayground (parse : Text → Except Text (List Text))
    (choice : List Text → Option Text) (files : TupleFiles) : Except Text TupleFiles := do
  .ok (convertToPlaygroundCommon (← kept parse choice files))

end Native

/-! ## Nothing is lost and nothing is mixed -/

/-- The sources of the program's directory go to their own places and to no others, no Rust source
of another program goes anywhere, and no place is taken twice. -/
structure Faithful (program : Text) (foreign : Text → Prop) (files kept : TupleFiles) : Prop where
  sources : ∀ file ∈ files, ∀ inner, file.1 = program ++ below srcDirname inner →
    ".rs".toList <:+ inner → file ∈ kept ∧
      playgroundPath file.1 = some (below srcDirname inner) ∧
      ((convertToPlaygroundCommon kept).map Prod.fst).count (below srcDirname inner) = 1
  unmixed : ∀ file ∈ kept, foreign file.1 → ".rs".toList <:+ file.1 → playgroundPath file.1 = none
  distinct : ((convertToPlaygroundCommon kept).map Prod.fst).Nodup

/-- The sources are left and none has a source directory or a line end in its path below the
program's, a Rust source of another program is left only where nothing says source directory, and
no two of the files left lead to one place. -/
structure Separable (program : Text) (foreign : Text → Prop) (files kept : TupleFiles) : Prop where
  sources : ∀ file ∈ files, ∀ inner, file.1 = program ++ below srcDirname inner →
    ".rs".toList <:+ inner → file ∈ kept ∧
      (∀ char ∈ inner, Text.isLineTerminator char = false) ∧ ¬ srcDirname ++ slash <:+: inner
  unmixed : ∀ file ∈ kept, foreign file.1 → ".rs".toList <:+ file.1 →
    ∀ tail, tail <:+ file.1 → ¬ Fits srcDirname rustEndings tail
  apart : kept.Pairwise fun first second =>
    ∀ place, ¬ (LeadsTo first.1 place ∧ LeadsTo second.1 place)

section

variable {program inner : Text} {foreign : Text → Prop} {files left : TupleFiles}

theorem within_slash_iff {word rest : Text} {endings : List Text} {first : Char}
    (starts : word.head? = some first) (notSlash : first ≠ '/') :
    Within word endings (slash ++ rest) ↔ (∀ char ∈ rest, Text.isLineTerminator char = false) ∧
      (¬ word ++ slash <:+: rest) ∧ ∃ ending ∈ endings, ending <:+ slash ++ rest := by
  obtain ⟨word, rfl⟩ : ∃ tail, word = first :: tail := by
    cases word with
    | nil => cases starts
    | cons head tail =>
        obtain rfl : head = first := by simpa using starts
        exact ⟨tail, rfl⟩
  have inside : (first :: word) ++ slash <:+: slash ++ rest ↔
      (first :: word) ++ slash <:+: rest := by
    simp [slash, List.infix_cons_iff, notSlash]
  constructor
  · rintro ⟨oneLine, last, ending⟩
    exact ⟨fun char among => oneLine char (by simp [among]), mt inside.mpr last, ending⟩
  · rintro ⟨oneLine, last, ending⟩
    refine ⟨fun char among => ?_, mt inside.mp last, ending⟩
    rcases List.mem_append.mp among with slash' | below
    · obtain rfl : char = '/' := by simpa [slash] using slash'
      rfl
    · exact oneLine char below

theorem rust_below (rust : ".rs".toList <:+ inner) :
    ".rs".toList <:+ program ++ below srcDirname inner :=
  rust.trans ((List.suffix_append slash inner).trans
    ((List.suffix_append srcDirname _).trans (List.suffix_append program _)))

/-- A source goes to its own place exactly when its path below is clean. -/
theorem playgroundPath_source (isDirectory : IsDirectory program)
    (rust : ".rs".toList <:+ inner) :
    playgroundPath (program ++ below srcDirname inner) = some (below srcDirname inner) ↔
      (∀ char ∈ inner, Text.isLineTerminator char = false) ∧ ¬ srcDirname ++ slash <:+: inner := by
  have within : Within srcDirname rustEndings (slash ++ inner) ↔
      (∀ char ∈ inner, Text.isLineTerminator char = false) ∧ ¬ srcDirname ++ slash <:+: inner := by
    have starts : srcDirname.head? = some 's' := rfl
    rw [within_slash_iff starts (by decide)]
    constructor
    · exact fun ⟨oneLine, last, _⟩ => ⟨oneLine, last⟩
    · exact fun ⟨oneLine, last⟩ => ⟨oneLine, last, _, List.mem_singleton.mpr rfl,
        rust.trans (List.suffix_append _ _)⟩
  rw [playgroundPath_eq_some, leadsTo_rust (rust_below rust), ← within]
  constructor
  · rintro ⟨-, ⟨rest, same, fits⟩, -⟩
    obtain rfl : slash ++ inner = rest := List.append_cancel_left same
    exact fits
  · exact longestTail_below (by decide) isDirectory

/-- The places are those that the paths lead to. -/
theorem mem_places {place : Text} :
    place ∈ (convertToPlaygroundCommon left).map Prod.fst ↔
      ∃ file ∈ left, playgroundPath file.1 = some place := by
  simp only [convertToPlaygroundCommon, List.mem_map, List.mem_filterMap, Option.map_eq_some_iff]
  constructor
  · rintro ⟨_, ⟨file, among, _, goes, rfl⟩, rfl⟩
    exact ⟨file, among, goes⟩
  · rintro ⟨file, among, goes⟩
    exact ⟨(place, file.2), ⟨file, among, place, goes, rfl⟩, rfl⟩

theorem places_nodup : ((convertToPlaygroundCommon left).map Prod.fst).Nodup ↔
    left.Pairwise fun first second =>
      ∀ place, ¬ (LeadsTo first.1 place ∧ LeadsTo second.1 place) := by
  rw [List.Nodup, List.pairwise_map, convertToPlaygroundCommon, List.pairwise_filterMap]
  apply List.Pairwise.iff
  intro first second
  simp only [← playgroundPath_eq_some, Option.map_eq_some_iff]
  constructor
  · rintro apart place ⟨one, other⟩
    exact apart _ ⟨place, one, rfl⟩ _ ⟨place, other, rfl⟩ rfl
  · rintro apart _ ⟨place, one, rfl⟩ _ ⟨other, two, rfl⟩ same
    obtain rfl : place = other := same
    exact apart place ⟨one, two⟩

theorem faithful_iff (isDirectory : IsDirectory program) :
    Faithful program foreign files left ↔ Separable program foreign files left := by
  constructor
  · rintro ⟨sources, unmixed, distinct⟩
    refine ⟨fun file among inner path rust => ?_, fun file among other rust tail suffix fits => ?_,
      places_nodup.mp distinct⟩
    · obtain ⟨remains, goes, -⟩ := sources file among inner path rust
      rw [path, playgroundPath_source isDirectory rust] at goes
      exact ⟨remains, goes⟩
    · have nowhere := unmixed file among other rust
      cases found : firstTail (matchesToEnd srcDirname rustEndings) file.1 with
      | some tail => simp [playgroundPath, found] at nowhere
      | none => exact firstTail_misfits.mp found tail suffix fits
  · rintro ⟨sources, unmixed, apart⟩
    have distinct := places_nodup.mpr apart
    refine ⟨fun file among inner path rust => ?_, fun file among other rust => ?_, distinct⟩
    · obtain ⟨remains, clean⟩ := sources file among inner path rust
      have goes : playgroundPath file.1 = some (below srcDirname inner) := by
        rw [path, playgroundPath_source isDirectory rust]
        exact clean
      exact ⟨remains, goes, List.count_eq_one_of_mem distinct (mem_places.mpr ⟨file, remains, goes⟩)⟩
    · cases goes : playgroundPath file.1 with
      | none => rfl
      | some place =>
          have source := (leadsTo_rust rust).mp (playgroundPath_eq_some.mp goes)
          exact absurd source.fits (unmixed file among other rust place source.suffix)

end

end Solpg.Client.Frameworks
