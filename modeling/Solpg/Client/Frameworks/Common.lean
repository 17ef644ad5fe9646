import Mathlib.Data.List.TakeWhile
import Solpg.Client.Utils.Common
import Solpg.Std.Occurrence

/-!
# The layout of the playground

`convertToPlaygroundCommon`: where a file of a framework project goes in the playground. The three
regular expressions of the source match up to the end of a path, so that each one finds the
longest tail of the path that fits.
-/

namespace Solpg.Client.Frameworks

open Solpg.Std Solpg.Client.Utils

/-- Files with their paths and contents. -/
abbrev TupleFiles := List (Text × Text)

def srcDirname : Text := "src".toList

def clientDirname : Text := "client".toList

def testsDirname : Text := "tests".toList

/-- `(word)(?!.*word\/).*\.(ending)$` where it matches a whole text. -/
def matchesToEnd (word : Text) (endings : List Text) (text : Text) : Bool :=
  let rest : Text := text.drop word.length
  text.startsWith word &&
  !(Text.includes (rest.takeWhile (!Text.isLineTerminator ·)) (word ++ slash)) &&
  !rest.any Text.isLineTerminator && endings.any rest.endsWith

def rustEndings : List Text := [".rs".toList]

def jsEndings : List Text := [".js".toList, ".ts".toList]

/-- `(\.test)?\.(js|ts)$` where it matches a whole text. -/
def isTestEnding (text : Text) : Bool :=
  text = ".test.js".toList || text = ".test.ts".toList || text = ".js".toList ||
    text = ".ts".toList

/-- The ending is replaced by the one of a test. -/
def toTestPath (path : Text) : Text :=
  match firstTail isTestEnding path with
  | some ending => path.take (path.length - ending.length) ++ ".test.ts".toList
  | none => path

/-- The body of the loop: the path in the playground of a file that it has a place for. -/
def playgroundPath (path : Text) : Option Text :=
  match firstTail (matchesToEnd srcDirname rustEndings) path with
  | some programFilePath => some programFilePath
  | none =>
      match firstTail (matchesToEnd clientDirname jsEndings) path with
      | some clientFilePath => some clientFilePath
      | none => (firstTail (matchesToEnd testsDirname jsEndings) path).map toTestPath

def convertToPlaygroundCommon (files : TupleFiles) : TupleFiles :=
  files.filterMap fun (path, content) => (playgroundPath path).map (·, content)

/-! ## What fits -/

/-- A text behind a directory's name in which the name does not begin a path again. -/
structure Within (word : Text) (endings : List Text) (rest : Text) : Prop where
  oneLine : ∀ char ∈ rest, Text.isLineTerminator char = false
  last : ¬ word ++ slash <:+: rest
  ending : ∃ ending ∈ endings, ending <:+ rest

/-- A path that begins with the directory's name and has it for its last. -/
def Fits (word : Text) (endings : List Text) (text : Text) : Prop :=
  ∃ rest, text = word ++ rest ∧ Within word endings rest

theorem matchesToEnd_iff (word : Text) (endings : List Text) (text : Text) :
    matchesToEnd word endings text = true ↔ Fits word endings text := by
  have lines : ∀ rest : Text, rest.any Text.isLineTerminator = false →
      rest.takeWhile (!Text.isLineTerminator ·) = rest := by
    intro rest plain
    apply List.takeWhile_eq_self_iff.mpr
    simpa using plain
  simp only [matchesToEnd, Bool.and_eq_true, Bool.not_eq_true', Text.startsWith, Text.endsWith,
    List.isPrefixOf_iff_prefix, List.any_eq_true, List.isSuffixOf_iff_suffix]
  constructor
  · rintro ⟨⟨⟨⟨rest, rfl⟩, last⟩, plain⟩, ending⟩
    rw [List.drop_left] at last plain ending
    rw [lines rest plain, ← Bool.not_eq_true, Text.includes_iff] at last
    exact ⟨rest, rfl, by simpa using plain, last, ending⟩
  · rintro ⟨rest, rfl, oneLine, last, ending⟩
    have plain : rest.any Text.isLineTerminator = false := by simpa using oneLine
    rw [List.drop_left, lines rest plain, ← Bool.not_eq_true (Text.includes _ _),
      Text.includes_iff]
    exact ⟨⟨⟨List.prefix_append _ _, last⟩, plain⟩, ending⟩

/-- Where the file at a path goes. A Rust source goes where its last source directory says, a
script to the clients if that directory occurs in its path and otherwise to the tests. -/
inductive LeadsTo (path : Text) : Text → Prop where
  | source : LongestTail (Fits srcDirname rustEndings) path place → LeadsTo path place
  | client : (∀ tail, tail <:+ path → ¬ Fits srcDirname rustEndings tail) →
      LongestTail (Fits clientDirname jsEndings) path place → LeadsTo path place
  | test : (∀ tail, tail <:+ path → ¬ Fits srcDirname rustEndings tail) →
      (∀ tail, tail <:+ path → ¬ Fits clientDirname jsEndings tail) →
      LongestTail (Fits testsDirname jsEndings) path tail → LeadsTo path (toTestPath tail)

theorem firstTail_fits {word path tail : Text} {endings : List Text} :
    firstTail (matchesToEnd word endings) path = some tail ↔
      LongestTail (Fits word endings) path tail := by
  rw [firstTail_eq_some]
  simp only [matchesToEnd_iff]

theorem firstTail_misfits {word path : Text} {endings : List Text} :
    firstTail (matchesToEnd word endings) path = none ↔
      ∀ tail, tail <:+ path → ¬ Fits word endings tail := by
  rw [firstTail_eq_none]
  simp only [← Bool.not_eq_true, matchesToEnd_iff]

theorem playgroundPath_eq_some {path place : Text} :
    playgroundPath path = some place ↔ LeadsTo path place := by
  constructor
  · intro found
    rw [playgroundPath] at found
    cases source : firstTail (matchesToEnd srcDirname rustEndings) path with
    | some tail =>
        obtain rfl : tail = place := by simpa [source] using found
        exact .source (firstTail_fits.mp source)
    | none =>
        rw [source] at found
        cases client : firstTail (matchesToEnd clientDirname jsEndings) path with
        | some tail =>
            obtain rfl : tail = place := by simpa [client] using found
            exact .client (firstTail_misfits.mp source) (firstTail_fits.mp client)
        | none =>
            simp only [client, Option.map_eq_some_iff] at found
            obtain ⟨tail, test, rfl⟩ := found
            exact .test (firstTail_misfits.mp source) (firstTail_misfits.mp client)
              (firstTail_fits.mp test)
  · rintro (source | ⟨noSource, client⟩ | ⟨noSource, noClient, test⟩)
    · rw [playgroundPath, firstTail_fits.mpr source]
    · rw [playgroundPath, firstTail_misfits.mpr noSource, firstTail_fits.mpr client]
    · rw [playgroundPath, firstTail_misfits.mpr noSource, firstTail_misfits.mpr noClient,
        firstTail_fits.mpr test]
      rfl

/-! ## Below a directory -/

/-- The top or a path that ends with a slash. -/
def IsDirectory (base : Text) : Prop := base = [] ∨ slash <:+ base

theorem isDirectory_append {base name : Text} : IsDirectory (base ++ (name ++ slash)) :=
  .inr ⟨base ++ name, by simp⟩

/-- The place of a file below a directory of the given name. -/
def below (word inner : Text) : Text := word ++ (slash ++ inner)

/-- Nothing that begins above a directory of the name fits. -/
theorem fits_length_le {word base inner other : Text} {endings : List Text} (noSlash : '/' ∉ word)
    (isDirectory : IsDirectory base) (suffix : other <:+ base ++ below word inner)
    (fits : Fits word endings other) : other.length ≤ (below word inner).length := by
  by_contra longer
  obtain ⟨front, rfl⟩ : below word inner <:+ other :=
    List.suffix_of_suffix_length_le (List.suffix_append base _) suffix (by omega)
  obtain ⟨before, split⟩ := suffix
  rw [← List.append_assoc] at split
  have split : base = before ++ front := (List.append_cancel_right split).symm
  have nonempty : front ≠ [] := by
    rintro rfl
    simp at longer
  -- What is in front of the name ends with the slash of its directory.
  obtain ⟨parent, rfl⟩ : slash <:+ front := by
    rcases isDirectory with empty | ends
    · exact absurd (List.append_eq_nil_iff.mp (split.symm.trans empty)).2 nonempty
    · rw [split] at ends
      exact List.suffix_of_suffix_length_le ends (List.suffix_append _ _)
        (List.length_pos_iff.mpr nonempty)
  obtain ⟨rest, starts, -, last, -⟩ := fits
  have same : parent ++ (slash ++ below word inner) = word ++ rest := by
    rw [← starts, List.append_assoc]
  rcases List.append_eq_append_iff.mp same with ⟨more, rfl, tail⟩ | ⟨more, rfl, tail⟩
  · cases more with
    | nil =>
        refine last ⟨slash, inner, ?_⟩
        simpa [below] using tail
    | cons first more =>
        obtain ⟨rfl, -⟩ : '/' = first ∧ _ := by simpa [slash] using tail
        simp at noSlash
  · refine last ⟨more ++ slash, inner, ?_⟩
    simpa [below] using tail.symm

/-- A directory in front of a path that fits takes nothing away. -/
theorem longestTail_below {word base inner : Text} {endings : List Text} (noSlash : '/' ∉ word)
    (isDirectory : IsDirectory base) (within : Within word endings (slash ++ inner)) :
    LongestTail (Fits word endings) (base ++ below word inner) (below word inner) where
  suffix := List.suffix_append _ _
  fits := ⟨_, rfl, within⟩
  longest := fun _ suffix fits => fits_length_le noSlash isDirectory suffix fits

theorem leadsTo_rust {path place : Text} (rust : ".rs".toList <:+ path) :
    LeadsTo path place ↔ LongestTail (Fits srcDirname rustEndings) path place := by
  -- A path with this ending has not the one of a script.
  have noScript : ∀ (word tail : Text), tail <:+ path → ¬ Fits word jsEndings tail := by
    rintro word _ suffix ⟨rest, rfl, -, -, ending, among, ends⟩
    have ends : ending <:+ path := ends.trans ((List.suffix_append _ _).trans suffix)
    simp only [jsEndings, List.mem_cons, List.not_mem_nil, or_false] at among
    rcases among with rfl | rfl
    · have wrong := List.suffix_of_suffix_length_le rust ends (by decide)
      exact absurd wrong (by decide)
    · have wrong := List.suffix_of_suffix_length_le rust ends (by decide)
      exact absurd wrong (by decide)
  constructor
  · rintro (source | ⟨-, client⟩ | ⟨-, -, test⟩)
    · exact source
    · exact absurd client.fits (noScript _ _ client.suffix)
    · exact absurd test.fits (noScript _ _ test.suffix)
  · exact .source

end Solpg.Client.Frameworks
