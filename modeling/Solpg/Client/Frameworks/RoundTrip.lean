import Mathlib.Data.Bool.AllAny
import Mathlib.Tactic.IntervalCases
import Solpg.Client.Frameworks.Export

/-!
# A path that is exported and imported again

When a path of the playground comes back from a framework. It is never led to a longer one.
-/

namespace Solpg.Client.Frameworks

open Solpg.Std Solpg.Client.Utils PgCommon

/-- Where the playground has the files of a project: `src/**/*.rs`, `client/**/*.ts` and
`tests/**/*.test.ts`. -/
inductive PlaygroundPath : Text → Prop where
  | source (inner : Text) : ".rs".toList <:+ inner → PlaygroundPath (below srcDirname inner)
  | client (inner : Text) : ".ts".toList <:+ inner → PlaygroundPath (below clientDirname inner)
  | test (inner : Text) : ".test.ts".toList <:+ inner → PlaygroundPath (below testsDirname inner)

variable {path place inner base : Text}

/-- A path below a directory on one line, in which the word does not occur. -/
def Free (word inner : Text) : Prop :=
  (∀ char ∈ inner, Text.isLineTerminator char = false) ∧ ¬ word <:+: inner

/-! ## One path -/

/-- A path is led to itself or to a shorter one. -/
def Shrinks (path : Text) (place : Option Text) : Prop :=
  ∀ found, place = some found → found = path ∨ found.length < path.length

/-- A tail is the whole or shorter. -/
theorem eq_or_shorter (suffix : place <:+ path) : place = path ∨ place.length < path.length := by
  rcases suffix.length_le.eq_or_lt with same | shorter
  · exact .inl (suffix.eq_of_length same)
  · exact .inr shorter

/-- A source file that does not come back ends up with a shorter path. -/
theorem source_shrinks (isDirectory : IsDirectory base) (rust : ".rs".toList <:+ inner) :
    Shrinks (below srcDirname inner) (playgroundPath (base ++ below srcDirname inner)) := by
  intro place goes
  have found := (leadsTo_rust (rust_below rust)).mp (playgroundPath_eq_some.mp goes)
  have within := fits_length_le (by decide) isDirectory found.suffix found.fits
  exact eq_or_shorter (List.suffix_of_suffix_length_le found.suffix (List.suffix_append _ _) within)

/-- A script is no Rust source. -/
theorem script_misfits (script : ".ts".toList <:+ path) (word tail : Text) (suffix : tail <:+ path) :
    ¬ Fits word rustEndings tail := by
  rintro ⟨rest, rfl, -, -, ending, among, ends⟩
  obtain rfl : ending = ".rs".toList := by simpa [rustEndings] using among
  have wrong := List.suffix_of_suffix_length_le script
    (ends.trans ((List.suffix_append _ _).trans suffix)) (by decide)
  exact absurd wrong (by decide)

/-- The endings of tests. -/
theorem isTestEnding_iff {ending : Text} : isTestEnding ending = true ↔
    ending = ".test.js".toList ∨ ending = ".test.ts".toList ∨ ending = ".js".toList ∨
      ending = ".ts".toList := by
  simp only [isTestEnding, Bool.or_eq_true, decide_eq_true_eq, or_assoc]

/-- The lengths of the endings of tests. -/
theorem length_testEnding {ending : Text} (isEnding : isTestEnding ending = true) :
    ending.length = 3 ∨ ending.length = 8 := by
  rcases isTestEnding_iff.mp isEnding with rfl | rfl | rfl | rfl
  · exact .inr rfl
  · exact .inr rfl
  · exact .inl rfl
  · exact .inl rfl

/-- The text that `toTestPath` keeps and the ending that it replaces. -/
theorem toTestPath_split {stem ending : Text}
    (longest : LongestTail (isTestEnding · = true) (stem ++ ending) ending) :
    toTestPath (stem ++ ending) = stem ++ ".test.ts".toList := by
  rw [toTestPath, firstTail_eq_some.mpr longest]
  simp

/-- A path that fits for the tests goes to one that begins like it and is hardly longer. -/
theorem toTestPath_fits {tail : Text} (fits : Fits testsDirname jsEndings tail) :
    ∃ stem ending, tail = 't' :: stem ++ ending ∧
      LongestTail (isTestEnding · = true) tail ending ∧
      toTestPath tail = 't' :: stem ++ ".test.ts".toList := by
  obtain ⟨rest, starts, -, -, ending, among, ends⟩ := fits
  have isEnding : isTestEnding ending = true := by
    simp only [jsEndings, List.mem_cons, List.not_mem_nil, or_false] at among
    rcases among with rfl | rfl
    · rfl
    · rfl
  have within : ending <:+ tail := starts ▸ ends.trans (List.suffix_append _ _)
  cases found : firstTail isTestEnding tail with
  | none =>
      rw [firstTail_eq_none] at found
      simp [found ending within] at isEnding
  | some longest =>
      have isLongest := firstTail_eq_some.mp found
      obtain ⟨stem, rfl⟩ := isLongest.suffix
      have replaced := toTestPath_split isLongest
      cases stem with
      | nil =>
          rcases isTestEnding_iff.mp isLongest.fits with rfl | rfl | rfl | rfl <;>
            simp [testsDirname] at starts
      | cons first stem =>
          obtain ⟨rfl, -⟩ : first = 't' ∧ _ := by simpa [testsDirname] using starts
          exact ⟨stem, longest, rfl, isLongest, replaced⟩

/-! ## Scripts of the client -/

/-- Where a script is put: below the last client directory, or else the last test directory. -/
theorem script_leads (script : ".ts".toList <:+ path) : playgroundPath path = some place ↔
    LongestTail (Fits clientDirname jsEndings) path place ∨
      (∀ tail, tail <:+ path → ¬ Fits clientDirname jsEndings tail) ∧
      ∃ tail, LongestTail (Fits testsDirname jsEndings) path tail ∧ place = toTestPath tail := by
  rw [playgroundPath_eq_some]
  constructor
  · rintro (source | ⟨-, client⟩ | ⟨-, noClient, test⟩)
    · exact absurd source.fits (script_misfits script _ _ source.suffix)
    · exact .inl client
    · exact .inr ⟨noClient, _, test, rfl⟩
  · rintro (client | ⟨noClient, tail, test, rfl⟩)
    · exact .client (script_misfits script _) client
    · exact .test (script_misfits script _) noClient test

/-- The ending of a file below a directory is its own. -/
theorem suffix_below {word ending : Text} (ends : ending <:+ inner) : ending <:+ below word inner :=
  ends.trans ((List.suffix_append _ _).trans (List.suffix_append _ _))

/-- A client file comes back when nothing behind it names the client directory again. -/
theorem client_returns_iff (script : ".ts".toList <:+ inner) :
    playgroundPath (below clientDirname inner) = some (below clientDirname inner) ↔
      Free (clientDirname ++ slash) inner := by
  have starts : clientDirname.head? = some 'c' := rfl
  rw [script_leads (suffix_below script)]
  constructor
  · rintro (client | ⟨-, tail, test, same⟩)
    · obtain ⟨rest, same, within⟩ := client.fits
      obtain rfl : slash ++ inner = rest := List.append_cancel_left same
      obtain ⟨oneLine, last, -⟩ := (within_slash_iff starts (by decide)).mp within
      exact ⟨oneLine, last⟩
    · obtain ⟨stem, ending, -, -, goes⟩ := toTestPath_fits test.fits
      rw [goes] at same
      simp [below, clientDirname] at same
  · rintro ⟨oneLine, last⟩
    refine .inl (.whole ⟨_, rfl, ?_⟩)
    exact (within_slash_iff starts (by decide)).mpr ⟨oneLine, last, ".ts".toList,
      by simp [jsEndings], script.trans (List.suffix_append _ _)⟩

/-- A client file that does not come back ends up with a shorter path. -/
theorem client_shrinks (script : ".ts".toList <:+ inner) :
    Shrinks (below clientDirname inner) (playgroundPath (below clientDirname inner)) := by
  intro place goes
  rcases (script_leads (suffix_below script)).mp goes with client | ⟨-, tail, test, rfl⟩
  · exact eq_or_shorter client.suffix
  · -- A tail that begins like the tests leaves out the name of the directory and its slash.
    obtain ⟨rest, starts, -⟩ := test.fits
    obtain ⟨before, split⟩ := test.suffix
    have early : 6 ≤ before.length := by
      have here := congrArg (List.drop before.length) split
      rw [List.drop_left, starts] at here
      by_contra short
      generalize before.length = length at here short
      interval_cases length <;> simp [below, clientDirname, testsDirname, slash] at here
    obtain ⟨stem, ending, tail, longest, goes⟩ := toTestPath_fits test.fits
    have sizes := length_testEnding longest.fits
    have whole := congrArg List.length split
    right
    rw [goes]
    rw [tail] at whole
    simp only [List.length_append, List.length_cons, String.length_toList] at whole ⊢
    have ending : ".test.ts".length = 8 := rfl
    omega

/-! ## Tests -/

/-- A path of the tests is led by its own directory. -/
def StaysTest (path : Text) : Prop :=
  (∀ tail, tail <:+ path → ¬ Fits clientDirname jsEndings tail) ∧
    LongestTail (Fits testsDirname jsEndings) path path

/-- No clients and no tests again. -/
theorem staysTest_iff (script : ".ts".toList <:+ inner) : StaysTest (below testsDirname inner) ↔
    Free clientDirname inner ∧ ¬ testsDirname ++ slash <:+: inner := by
  have starts : testsDirname.head? = some 't' := rfl
  constructor
  · rintro ⟨noClient, test⟩
    obtain ⟨rest, same, within⟩ := test.fits
    obtain rfl : slash ++ inner = rest := List.append_cancel_left same
    obtain ⟨oneLine, last, -⟩ := (within_slash_iff starts (by decide)).mp within
    refine ⟨⟨oneLine, fun occurs => ?_⟩, last⟩
    obtain ⟨stem, rfl⟩ := script
    -- The last place of the word fits.
    have occurs : clientDirname <:+: stem := by
      rcases (infix_append_cons (by decide)).mp occurs with within | within
      · exact within
      · exact absurd within.length_le (by decide)
    obtain ⟨before, after, rfl, isLast⟩ := last_occurrence (by decide) occurs
    refine noClient (clientDirname ++ (after ++ ".ts".toList))
      ⟨below testsDirname before, by simp [below]⟩ ⟨_, rfl, ?_, ?_, ?_⟩
    · intro char among
      exact oneLine char (by simp only [List.mem_append] at among ⊢; tauto)
    · intro again
      rcases (infix_append_cons (by decide)).mp again with within | within
      · exact isLast ((List.prefix_append _ _).isInfix.trans within)
      · exact absurd within.length_le (by decide)
    · exact ⟨".ts".toList, by simp [jsEndings], List.suffix_append _ _⟩
  · rintro ⟨⟨oneLine, noClient⟩, last⟩
    refine ⟨fun tail suffix fits => ?_, .whole ⟨_, rfl, ?_⟩⟩
    · obtain ⟨rest, rfl, -⟩ := fits
      have occurs : clientDirname <:+: testsDirname ++ '/' :: inner :=
        (List.prefix_append _ _).isInfix.trans suffix.isInfix
      rcases (infix_append_cons (by decide)).mp occurs with within | within
      · exact absurd within.length_le (by decide)
      · exact noClient within
    · exact (within_slash_iff starts (by decide)).mpr ⟨oneLine, last, ".ts".toList,
        by simp [jsEndings], script.trans (List.suffix_append _ _)⟩

/-- A test keeps its ending. -/
theorem toTestPath_of_test {stem : Text} :
    toTestPath (stem ++ ".test.ts".toList) = stem ++ ".test.ts".toList := by
  refine toTestPath_split ⟨List.suffix_append _ _, rfl, fun other _ isEnding => ?_⟩
  rcases length_testEnding isEnding with short | long
  · exact short ▸ by decide
  · exact long ▸ by decide

/-- A test is a script. -/
theorem script_of_test (test : ".test.ts".toList <:+ path) : ".ts".toList <:+ path :=
  List.IsSuffix.trans ⟨".test".toList, rfl⟩ test

/-- A file below the tests is as long as the ending of a test. -/
theorem length_fits {tail : Text} (fits : Fits testsDirname jsEndings tail) :
    ".test.ts".toList.length ≤ tail.length := by
  obtain ⟨rest, rfl, -, -, ending, among, ends⟩ := fits
  have short : 3 ≤ ending.length := by
    simp only [jsEndings, List.mem_cons, List.not_mem_nil, or_false] at among
    rcases among with rfl | rfl <;> decide
  have inside := ends.length_le
  have name : testsDirname.length = 5 := rfl
  have whole : ".test.ts".toList.length = 8 := rfl
  rw [List.length_append]
  omega

/-- In a native project a test is exported to its own path. -/
theorem native_test_goes (test : ".test.ts".toList <:+ inner)
    (goes : playgroundPath (below testsDirname inner) = some place) :
    place = below testsDirname inner ∧ StaysTest (below testsDirname inner) ∨
      place.length < (below testsDirname inner).length := by
  rcases (script_leads (suffix_below (script_of_test test))).mp goes with
    client | ⟨noClient, tail, found, rfl⟩
  · rcases eq_or_shorter client.suffix with rfl | shorter
    · obtain ⟨rest, wrong, -⟩ := client.fits
      simp [below, testsDirname, clientDirname] at wrong
    · exact .inr shorter
  · -- The tail is long enough to have the ending of a test too.
    have unchanged : toTestPath tail = tail := by
      have whole : ".test.ts".toList <:+ tail :=
        List.suffix_of_suffix_length_le (suffix_below test) found.suffix (length_fits found.fits)
      obtain ⟨front, rfl⟩ := whole
      exact toTestPath_of_test
    rw [unchanged]
    rcases eq_or_shorter found.suffix with same | shorter
    · exact .inl ⟨same, noClient, same ▸ found⟩
    · exact .inr shorter

/-- When a native test comes back. -/
theorem native_test_returns_iff (test : ".test.ts".toList <:+ inner) :
    playgroundPath (below testsDirname inner) = some (below testsDirname inner) ↔
      Free clientDirname inner ∧ ¬ testsDirname ++ slash <:+: inner := by
  rw [← staysTest_iff (script_of_test test)]
  constructor
  · intro goes
    rcases native_test_goes test goes with ⟨-, stays⟩ | shorter
    · exact stays
    · exact absurd shorter (lt_irrefl _)
  · rintro ⟨noClient, found⟩
    obtain ⟨front, whole⟩ : ".test.ts".toList <:+ below testsDirname inner := suffix_below test
    refine (script_leads (suffix_below (script_of_test test))).mpr (.inr ⟨noClient, _, found, ?_⟩)
    rw [← whole, toTestPath_of_test]

/-- What is behind the first ending of a test is nothing or ends like a test itself. -/
theorem after_cases {before after : Text}
    (ends : ".test.ts".toList <:+ before ++ (".test.ts".toList ++ after)) :
    after = [] ∨ ".test.ts".toList <:+ after := by
  rcases le_total (".test.ts".toList.length) after.length with long | short
  · exact .inr (List.suffix_of_suffix_length_le ends
      ((List.suffix_append _ _).trans (List.suffix_append _ _)) long)
  · have overlap : ".test.ts".toList <:+ ".test.ts".toList ++ after :=
      List.suffix_of_suffix_length_le ends (List.suffix_append _ _) (by simp)
    have inside : after <:+ ".test.ts".toList :=
      List.suffix_of_suffix_length_le
        ((List.suffix_append _ _).trans (List.suffix_append before _)) ends short
    have checked : ∀ after ∈ ".test.ts".toList.tails,
        ".test.ts".toList <:+ ".test.ts".toList ++ after →
          after = [] ∨ ".test.ts".toList <:+ after := by decide
    exact checked after ((List.mem_tails _ _).mpr inside) overlap

/-- The path of a test with the first `.test.ts` made `.ts`. -/
def exportedTest (path : Text) : Text := Text.replace path ".test.ts".toList ".ts".toList

/-- Export shortens the first ending of a test. -/
theorem exportedTest_split (test : ".test.ts".toList <:+ path) : ∃ stem after,
    path = stem ++ (".test.ts".toList ++ after) ∧ exportedTest path = stem ++ (".ts".toList ++ after) ∧
      (∀ other rest, path = other ++ (".test.ts".toList ++ rest) → stem.length ≤ other.length) ∧
      (after = [] ∨ ".test.ts".toList <:+ after) := by
  obtain ⟨stem, after, split, first, replaced⟩ :=
    Text.replaceFrom_split ".ts".toList (by decide) [] path test.isInfix
  refine ⟨stem, after, split, ?_, first, after_cases (split ▸ test)⟩
  rw [exportedTest, Text.replace, replaced]
  simp [Text.expand]

/-- The test's ending is nowhere else in the path and stands there once. -/
def EndsOnce (path : Text) : Prop := ∀ stem rest,
  path = stem ++ (".test.ts".toList ++ rest) → rest = [] ∧ ¬ ".test".toList <:+ stem

/-- In an Anchor project a test is exported without the first ending of a test. -/
theorem anchor_test_goes (test : ".test.ts".toList <:+ path)
    (goes : playgroundPath (exportedTest path) = some place) :
    place = path ∧ StaysTest (exportedTest path) ∧ EndsOnce path ∨ place.length < path.length := by
  obtain ⟨stem, after, split, exported, first, behind⟩ := exportedTest_split test
  have sizes : (exportedTest path).length + 5 = path.length := by
    rw [exported, split]
    simp only [List.length_append, String.length_toList]
    have : ".test.ts".length = 8 := rfl
    have : ".ts".length = 3 := rfl
    omega
  have script : ".ts".toList <:+ exportedTest path := by
    rw [exported]
    rcases behind with rfl | again
    · exact List.suffix_append _ _
    · exact (script_of_test again).trans ((List.suffix_append _ _).trans (List.suffix_append _ _))
  rcases (script_leads script).mp goes with client | ⟨noClient, tail, found, rfl⟩
  · have within := client.suffix.length_le
    exact .inr (by omega)
  · obtain ⟨front, ending, whole, longest, replaced⟩ := toTestPath_fits found.fits
    have within := found.suffix.length_le
    have total := congrArg List.length whole
    have result := congrArg List.length replaced
    simp only [List.length_append, String.length_toList] at total result
    have size : ".test.ts".length = 8 := rfl
    rcases length_testEnding longest.fits with short | long
    · rcases within.eq_or_lt with same | shorter
      · left
        have itself : tail = exportedTest path := found.suffix.eq_of_length same
        have notTest : ¬ ".test.ts".toList <:+ tail := by
          intro again
          have bound : 8 ≤ ending.length := longest.longest _ again rfl
          omega
        rcases behind with rfl | again
        · -- The ending is the one that the export has left.
          have parts : stem ++ ".ts".toList = 't' :: front ++ ending := by
            rw [← whole, itself, exported, List.append_nil]
          obtain ⟨rfl, rfl⟩ := List.append_inj' parts short.symm
          rw [List.append_nil] at split
          refine ⟨replaced.trans split.symm, ⟨itself ▸ noClient, itself ▸ found⟩, ?_⟩
          intro other rest also
          have length := congrArg List.length (split.symm.trans also)
          have early := first other rest also
          simp only [List.length_append] at length
          obtain rfl : rest = [] := List.eq_nil_of_length_eq_zero (by omega)
          have same := split.symm.trans also
          rw [List.append_nil] at same
          obtain ⟨rfl, -⟩ := List.append_inj' same rfl
          refine ⟨rfl, fun double => notTest ?_⟩
          obtain ⟨more, double⟩ := double
          rw [whole, ← double]
          exact ⟨more, by simp⟩
        · refine absurd (itself ▸ exported ▸ ?_) notTest
          exact again.trans ((List.suffix_append _ _).trans (List.suffix_append _ _))
      · right
        omega
    · right
      omega

/-- A script becomes a test. -/
theorem toTestPath_of_script {stem : Text} (notTest : ¬ ".test".toList <:+ stem) :
    toTestPath (stem ++ ".ts".toList) = stem ++ ".test.ts".toList := by
  refine toTestPath_split ⟨List.suffix_append _ _, rfl, fun other suffix isEnding => ?_⟩
  rcases isTestEnding_iff.mp isEnding with rfl | rfl | rfl | rfl
  · have wrong := List.suffix_of_suffix_length_le (List.suffix_append stem ".ts".toList) suffix
      (by decide)
    exact absurd wrong (by decide)
  · obtain ⟨more, whole⟩ := suffix
    refine absurd ⟨more, ?_⟩ notTest
    have cut : (more ++ ".test".toList) ++ ".ts".toList = stem ++ ".ts".toList := by
      rw [← whole]
      simp
    exact (List.append_inj' cut rfl).1
  · decide
  · decide

/-- A test with one such ending is exported with the ending of a script. -/
theorem exportedTest_of_endsOnce {stem : Text} (once : EndsOnce (stem ++ ".test.ts".toList)) :
    exportedTest (stem ++ ".test.ts".toList) = stem ++ ".ts".toList := by
  obtain ⟨front, after, split, exported, -⟩ := exportedTest_split (List.suffix_append stem _)
  obtain ⟨rfl, -⟩ := once front after split
  rw [List.append_nil] at split
  obtain ⟨rfl, -⟩ := List.append_inj' split rfl
  simpa using exported

/-- A word without a dot is in a path whatever the path's ending is. -/
theorem infix_ending_iff (word : Text) {stem : Text} (noDot : '.' ∉ word) (long : ¬ word <:+: "test.ts".toList) :
    word <:+: stem ++ ".ts".toList ↔ word <:+: stem ++ ".test.ts".toList := by
  have short : ¬ word <:+: "ts".toList := fun within => long (within.trans ⟨"test.".toList, [], rfl⟩)
  exact ((infix_append_cons noDot).trans (or_iff_left short)).trans
    ((infix_append_cons noDot).trans (or_iff_left long)).symm

/-- When an Anchor test comes back. -/
theorem anchor_test_returns_iff (test : ".test.ts".toList <:+ inner) :
    playgroundPath (exportedTest (below testsDirname inner)) = some (below testsDirname inner) ↔
      (Free clientDirname inner ∧ ¬ testsDirname ++ slash <:+: inner) ∧
        EndsOnce (below testsDirname inner) := by
  obtain ⟨stem, rfl⟩ := test
  have whole : below testsDirname (stem ++ ".test.ts".toList) =
      below testsDirname stem ++ ".test.ts".toList := by simp [below]
  -- What is asked of the exported path does not depend on its ending.
  have ending : (Free clientDirname (stem ++ ".ts".toList) ∧
        ¬ testsDirname ++ slash <:+: stem ++ ".ts".toList) ↔
      Free clientDirname (stem ++ ".test.ts".toList) ∧
        ¬ testsDirname ++ slash <:+: stem ++ ".test.ts".toList := by
    have lines : (∀ char ∈ stem ++ ".ts".toList, Text.isLineTerminator char = false) ↔
        ∀ char ∈ stem ++ ".test.ts".toList, Text.isLineTerminator char = false := by
      rw [List.forall_mem_append, List.forall_mem_append]
      exact and_congr_right fun _ => iff_of_true (List.all_iff_forall_prop.mp (by decide))
        (List.all_iff_forall_prop.mp (by decide))
    rw [Free, Free, lines, infix_ending_iff clientDirname (by decide) (by decide),
      infix_ending_iff (testsDirname ++ slash) (by decide) (by decide)]
  have stays : EndsOnce (below testsDirname (stem ++ ".test.ts".toList)) →
      (StaysTest (exportedTest (below testsDirname (stem ++ ".test.ts".toList))) ↔
        Free clientDirname (stem ++ ".test.ts".toList) ∧
          ¬ testsDirname ++ slash <:+: stem ++ ".test.ts".toList) := by
    intro once
    have exported : exportedTest (below testsDirname (stem ++ ".test.ts".toList)) =
        below testsDirname (stem ++ ".ts".toList) := by
      rw [whole, exportedTest_of_endsOnce (whole ▸ once)]
      simp [below]
    rw [exported, staysTest_iff (List.suffix_append _ _), ending]
  constructor
  · intro goes
    rcases anchor_test_goes (suffix_below (List.suffix_append _ _)) goes with
      ⟨-, remains, once⟩ | shorter
    · exact ⟨(stays once).mp remains, once⟩
    · exact absurd shorter (lt_irrefl _)
  · rintro ⟨free, once⟩
    obtain ⟨noClient, found⟩ := (stays once).mpr free
    have notTest := (once _ [] (by simpa using whole)).2
    have exported := exportedTest_of_endsOnce (whole ▸ once)
    rw [whole, exported] at noClient found
    rw [whole, exported]
    refine (script_leads (List.suffix_append _ _)).mpr (.inr ⟨noClient, _, found, ?_⟩)
    exact (toTestPath_of_script notTest).symm

end Solpg.Client.Frameworks
