import Solpg.Client.Frameworks.GeneratedImports

/-!
# The lines of an exported script

What is written into a script comes between lines: before the first one, or after the one in
which a match of a regular expression ends. The unit after a match is taken for the line break,
whichever it is, so that this depends on the script.
-/

namespace Solpg.Client.Frameworks

open Solpg.Std CodeUnits

/-- The lines of a content. -/
def lines (content : CodeUnits) : List CodeUnits := content.splitOn lineFeed

@[simp] theorem lines_append_cons (before after : CodeUnits) :
    lines (before ++ lineFeed :: after) = lines before ++ lines after :=
  List.splitOn_append_cons_self before after

@[simp] theorem lines_nil : lines [] = [[]] := List.splitOn_nil lineFeed

/-! ## Insertions -/

/-- New content and the regular expression after which it is added. -/
structure Insertion where
  regex : Matcher UInt16
  newContent : CodeUnits
  firstOccurance : Bool

namespace Insertion

variable (insertion : Insertion) (content : CodeUnits)

/-- Where the insertion writes. -/
def start : Nat := afterStartIndex insertion.regex insertion.firstOccurance content

/-- The insertion carried out. -/
def add : CodeUnits :=
  addAfter content insertion.regex insertion.newContent insertion.firstOccurance

/-- What comes before the new content ends with the line in which a match ends. -/
def AfterLine : Prop :=
  ∃ found ∈ insertion.regex.matchAll content, ∃ remaining, lineFeed ∉ remaining ∧
    content.take (insertion.start content) =
      content.take found.finish ++ (remaining ++ [lineFeed])

/-- The new content is before the first line, or after the line in which a match ends. -/
def BetweenLines : Prop :=
  content.take (insertion.start content) = [] ∨ insertion.AfterLine content

end Insertion

/-- One insertion after another is between lines. -/
def AllBetweenLines : List Insertion → CodeUnits → Prop
  | [], _ => True
  | insertion :: rest, content =>
      insertion.BetweenLines content ∧ AllBetweenLines rest (insertion.add content)

/-- A new line between two others keeps all of them. -/
theorem lines_sublist_insert {before : CodeUnits} (newContent after : CodeUnits)
    (ends : before = [] ∨ ∃ line, before = line ++ [lineFeed]) :
    (lines (before ++ after)).Sublist (lines (before ++ (newContent ++ lineFeed :: after))) := by
  obtain rfl | ⟨line, rfl⟩ := ends
  · rw [List.nil_append, List.nil_append, lines_append_cons]
    exact List.sublist_append_right _ _
  · rw [List.append_assoc, List.append_assoc, List.singleton_append, List.singleton_append,
      lines_append_cons, lines_append_cons, lines_append_cons]
    exact (List.sublist_append_right _ _).append_left _

/-- New content between lines leaves the lines. -/
theorem Insertion.BetweenLines.sublist {insertion : Insertion} {content : CodeUnits}
    (between : insertion.BetweenLines content) :
    (lines content).Sublist (lines (insertion.add content)) := by
  have added : insertion.add content = content.take (insertion.start content) ++
      (insertion.newContent ++ lineFeed :: content.drop (insertion.start content)) := by
    simp [Insertion.add, addAfter, Insertion.start]
  have ends : content.take (insertion.start content) = [] ∨
      ∃ line, content.take (insertion.start content) = line ++ [lineFeed] := by
    obtain none | ⟨found, -, remaining, -, whole⟩ := between
    · exact .inl none
    · rw [← List.append_assoc] at whole
      exact .inr ⟨_, whole⟩
  have kept := lines_sublist_insert insertion.newContent (content.drop (insertion.start content)) ends
  rwa [List.take_append_drop, ← added] at kept

/-- The chosen occurrence is one of the matches. -/
theorem mem_matchAll_of_occurance {regex : Matcher UInt16} {firstOccurance : Bool}
    {content : CodeUnits} {found : Matched UInt16}
    (chosen : occurance regex firstOccurance content = some found) :
    found ∈ regex.matchAll content := by
  rw [occurance] at chosen
  split at chosen
  · exact List.mem_of_head? chosen
  · exact List.mem_of_getLast? chosen

/-- No occurrence is chosen only when there is no match. -/
theorem matchAll_eq_nil_of_occurance {regex : Matcher UInt16} {firstOccurance : Bool}
    {content : CodeUnits} (none : occurance regex firstOccurance content = none) :
    regex.matchAll content = [] := by
  rw [occurance] at none
  split at none
  · exact List.head?_eq_none_iff.mp none
  · exact List.getLast?_eq_none_iff.mp none

/-- New content is between lines exactly when the match is followed by a line break. -/
theorem Insertion.betweenLines_iff {insertion : Insertion} {content : CodeUnits}
    (inLine : ∀ {text found}, insertion.regex.matchAt text = some found →
      found.getLast? ≠ some lineFeed) :
    insertion.BetweenLines content ↔
      match occurance insertion.regex insertion.firstOccurance content with
      | some found => content[found.finish]? = some lineFeed
      | none => content = [] := by
  cases chosen : occurance insertion.regex insertion.firstOccurance content with
  | none =>
      have start : insertion.start content = 1 := by
        rw [Insertion.start, afterStartIndex, chosen]
        rfl
      have none := matchAll_eq_nil_of_occurance chosen
      rw [Insertion.BetweenLines, Insertion.AfterLine, start, none]
      simp
  | some found =>
      have start : insertion.start content = found.finish + 1 := by
        rw [Insertion.start, afterStartIndex, chosen]
        rfl
      have among := mem_matchAll_of_occurance chosen
      obtain ⟨before, after, whole, index, matched⟩ := Matcher.exists_of_mem_matchAll among
      have finish : found.finish = (before ++ found.text).length := by
        rw [Matched.finish, index, List.length_append]
      have some := insertion.regex.nonempty matched
      rw [← List.append_assoc] at whole
      simp only [Insertion.BetweenLines, Insertion.AfterLine, start]
      cases after with
      | nil =>
          -- the text ends with the match, and so does what comes before the new content
          rw [List.append_nil] at whole
          have all : content.take (found.finish + 1) = content :=
            List.take_of_length_le (by rw [finish, ← whole]; exact Nat.le_succ _)
          have beyond : content[found.finish]? = none :=
            List.getElem?_eq_none (by rw [finish, ← whole])
          have last : content.getLast? ≠ Option.some lineFeed := by
            rw [whole, List.getLast?_append_of_ne_nil _ some]
            exact inLine matched
          rw [all, beyond]
          constructor
          · rintro (empty | ⟨other, -, remaining, -, ends⟩)
            · rw [whole] at empty
              exact absurd (List.append_eq_nil_iff.mp empty).2 some
            · rw [← List.append_assoc] at ends
              exact absurd (by rw [ends, List.getLast?_concat]) last
          · intro beyond
            cases beyond
      | cons next after =>
          have head : content.take found.finish = before ++ found.text := by
            rw [finish, whole, List.take_left]
          have one : content.take (found.finish + 1) = before ++ found.text ++ [next] := by
            rw [finish, whole, List.take_length_add_append]
            rfl
          have here : content[found.finish]? = Option.some next := by
            rw [finish, whole, List.getElem?_append_right (Nat.le_refl _), Nat.sub_self]
            rfl
          rw [one, here]
          constructor
          · rintro (empty | ⟨other, -, remaining, -, ends⟩)
            · exact absurd empty (List.append_ne_nil_of_right_ne_nil _ (List.cons_ne_nil _ _))
            · rw [← List.append_assoc] at ends
              have same := (List.append_inj' ends rfl).2
              exact congrArg Option.some (List.cons.inj same).1
          · intro same
            refine .inr ⟨found, among, [], List.not_mem_nil, ?_⟩
            rw [head, Option.some.inj same, List.nil_append]

/-! ## Insertions behind generated lines -/

/-- The last import statement of a script is followed by a line break. Without one, an import
is generated, or there is nothing to follow. -/
def ImportsEnd (generated : List CodeUnits) (content : CodeUnits) : Prop :=
  match (importStatement.matchAll content).getLast? with
  | some last => content[last.finish]? = some lineFeed
  | none => generated ≠ [] ∨ content = []

/-- The first call of `describe` is followed by a line break. -/
def DescribeEnds (content : CodeUnits) : Prop :=
  ∃ found ∈ (describe.matchAll content).head?, content[found.finish]? = some lineFeed

variable {generated : List CodeUnits} {content head tail newContent : CodeUnits}

/-- The matcher passes over generated imports. -/
theorem passes_front (isGenerated : ∀ line ∈ generated, Generated line) :
    ∃ found, importStatement.Passes (front generated) found := by
  induction generated with
  | nil => exact ⟨[], Matcher.passes_nil⟩
  | cons line rest ih =>
      obtain ⟨found, passes⟩ := ih fun other among => isGenerated other (List.mem_cons_of_mem _ among)
      have first := LineMatcher.passes_line (isGenerated line List.mem_cons_self).importLine.matched
      have both := first.append passes
      rw [List.append_assoc, List.singleton_append, ← front_cons] at both
      exact ⟨_, both⟩

/-- Behind generated imports and without another one, the last of them is the last match. -/
theorem lastEnds_front (isGenerated : ∀ line ∈ generated, Generated line) (some : generated ≠ [])
    (none : importStatement.matchAll content = []) :
    ∃ head, front generated = head ++ [lineFeed] ∧ importStatement.LastEnds head content := by
  obtain ⟨others, last, rfl⟩ : ∃ others last, generated = others ++ [last] :=
    ⟨_, _, (List.dropLast_append_getLast some).symm⟩
  obtain ⟨found, passes⟩ := passes_front fun line among =>
    isGenerated line (List.mem_append_left _ among)
  have isLast := isGenerated last (List.mem_append_right _ List.mem_cons_self)
  have ends := (LineMatcher.lastEnds_line isLast.importLine.matched none).prepend passes
  exact ⟨_, by simp, ends⟩

/-- The last import statement behind generated lines -/
theorem exists_lastEnds_of_importsEnd (isGenerated : ∀ line ∈ generated, Generated line)
    (ends : ImportsEnd generated content) (some : front generated ++ content ≠ []) :
    ∃ head tail, front generated ++ content = head ++ lineFeed :: tail ∧
      importStatement.LastEnds head tail := by
  rw [ImportsEnd] at ends
  cases chosen : (importStatement.matchAll content).getLast? with
  | some last =>
      rw [chosen] at ends
      obtain ⟨head, tail, rfl, -, lastEnds⟩ := LineMatcher.exists_lastEnds chosen ends
      obtain ⟨found, passes⟩ := passes_front isGenerated
      exact ⟨_, tail, (List.append_assoc _ _ _).symm, lastEnds.prepend passes⟩
  | none =>
      rw [chosen] at ends
      have none := List.getLast?_eq_none_iff.mp chosen
      have generates : generated ≠ [] := by
        rintro rfl
        obtain other | rfl := ends
        · exact other rfl
        · exact some rfl
      obtain ⟨head, whole, lastEnds⟩ := lastEnds_front isGenerated generates none
      exact ⟨head, content, by rw [whole, List.append_assoc, List.singleton_append], lastEnds⟩

/-- An insertion after the last import statement -/
def afterImports (newContent : CodeUnits) : Insertion := ⟨importStatement.toMatcher, newContent, false⟩

/-- An insertion after the first call of `describe` -/
def afterDescribe (newContent : CodeUnits) : Insertion := ⟨describe, newContent, true⟩

/-- After the last import statement, new content becomes the next line. -/
theorem add_afterImports (ends : importStatement.LastEnds head tail) (newContent : CodeUnits) :
    (afterImports newContent).add (head ++ lineFeed :: tail) =
      head ++ lineFeed :: (newContent ++ lineFeed :: tail) := by
  obtain ⟨last, chosen, finish⟩ := ends.getLast?
  have start : afterStartIndex importStatement.toMatcher false (head ++ lineFeed :: tail) =
      head.length + 1 := by
    rw [afterStartIndex, occurance, if_neg Bool.false_ne_true, chosen, ← finish]
    rfl
  simp only [Insertion.add, afterImports, addAfter, start]
  rw [List.take_length_add_append, List.drop_length_add_append]
  simp

/-- An insertion behind the imports stands between lines exactly when the last one ends its line. -/
theorem betweenLines_afterImports_iff (newContent content : CodeUnits) :
    (afterImports newContent).BetweenLines content ↔
      match (importStatement.matchAll content).getLast? with
      | some last => content[last.finish]? = some lineFeed
      | none => content = [] :=
  Insertion.betweenLines_iff importStatement.getLast?_ne

/-- Behind a last import that ends its line the insertion stands between lines. -/
theorem betweenLines_of_lastEnds (ends : importStatement.LastEnds head tail)
    (newContent : CodeUnits) :
    (afterImports newContent).BetweenLines (head ++ lineFeed :: tail) := by
  obtain ⟨last, chosen, finish⟩ := ends.getLast?
  rw [betweenLines_afterImports_iff, chosen]
  simp [finish]

/-- Behind generated lines, new content comes between lines exactly when it does so in the
script itself, or follows one of them. -/
theorem betweenLines_front_iff (isGenerated : ∀ line ∈ generated, Generated line)
    (newContent content : CodeUnits) :
    (afterImports newContent).BetweenLines (front generated ++ content) ↔
      ImportsEnd generated content := by
  constructor
  · intro between
    rw [betweenLines_afterImports_iff] at between
    obtain ⟨found, passes⟩ := passes_front isGenerated
    rw [passes, List.getLast?_append, List.getLast?_map] at between
    rw [ImportsEnd]
    cases chosen : (importStatement.matchAll content).getLast? with
    | some last =>
        simp only [chosen, Option.map_some, Option.some_or, Matched.finish_shift] at between
        rwa [List.getElem?_append_right (Nat.le_add_left _ _), Nat.add_sub_cancel] at between
    | none =>
        by_cases generates : generated = []
        · subst generates
          have none := passes []
          rw [front_nil, List.nil_append, Matcher.matchAll_nil, List.map_nil, List.append_nil]
            at none
          rw [← none, chosen] at between
          exact .inr between
        · exact .inl generates
  · intro ends
    by_cases some : front generated ++ content = []
    · rw [some]
      exact .inl (List.take_nil)
    · obtain ⟨head, tail, whole, lastEnds⟩ := exists_lastEnds_of_importsEnd isGenerated ends some
      rw [whole]
      exact betweenLines_of_lastEnds lastEnds newContent

/-! ## Calls behind generated lines -/

/-- The first `describe` ends its line when a line feed follows it. -/
theorem describeEnds_iff (content : CodeUnits) :
    DescribeEnds content ↔ ∃ rest, describe.afterFirst content = some (lineFeed :: rest) := by
  rw [DescribeEnds, ← Matcher.head?_matchAll]
  cases (describe.matchAll content).head? with
  | none => simp
  | some first => simp [← List.head?_drop, List.head?_eq_some_iff]

/-- An insertion behind `describe` stands between lines exactly when it ends its line. -/
theorem betweenLines_afterDescribe_iff (newContent : CodeUnits) (some : content ≠ []) :
    (afterDescribe newContent).BetweenLines content ↔ DescribeEnds content := by
  rw [Insertion.betweenLines_iff describe_getLast?_ne, DescribeEnds]
  have chosen : occurance describe true content = (describe.matchAll content).head? := if_pos rfl
  simp only [afterDescribe, chosen]
  cases (describe.matchAll content).head? with
  | none => simp [some]
  | some first => simp

/-- What follows the first `describe` of two parts. -/
theorem afterFirst_describe_append (head tail : CodeUnits) :
    describe.afterFirst (head ++ lineFeed :: tail) =
      ((describe.afterFirst head).map (· ++ lineFeed :: tail)).or (describe.afterFirst tail) :=
  Matcher.afterFirst_append describe_inLine rfl head tail

/-- A line without a call does not count. -/
theorem afterFirst_describe_line {line : CodeUnits} (isGenerated : Generated line)
    (content : CodeUnits) :
    describe.afterFirst (line ++ lineFeed :: content) = describe.afterFirst content := by
  rw [afterFirst_describe_append, afterFirst_describe_of_not_mem isGenerated.noCall]
  rfl

/-- Generated imports do not touch the `describe`. -/
theorem describeEnds_front (isGenerated : ∀ line ∈ generated, Generated line)
    (content : CodeUnits) : DescribeEnds (front generated ++ content) ↔ DescribeEnds content := by
  induction generated with
  | nil => rfl
  | cons line rest ih =>
      rw [← ih fun other among => isGenerated other (List.mem_cons_of_mem _ among),
        describeEnds_iff, describeEnds_iff, front_cons, List.append_assoc, List.cons_append,
        afterFirst_describe_line (isGenerated line List.mem_cons_self)]

/-- A generated line does not touch the `describe`. -/
theorem describeEnds_insert (isGenerated : Generated newContent) (head tail : CodeUnits) :
    DescribeEnds (head ++ lineFeed :: (newContent ++ lineFeed :: tail)) ↔
      DescribeEnds (head ++ lineFeed :: tail) := by
  rw [describeEnds_iff, describeEnds_iff, afterFirst_describe_append head tail,
    afterFirst_describe_append head, afterFirst_describe_line isGenerated]
  cases describe.afterFirst head with
  | none => rfl
  | some rest =>
      -- what follows the call is in the line of the call, or the line break after it
      cases rest with
      | nil => simp
      | cons unit rest => simp

/-! ## The comment -/

/-- A comment that is removed is at the start of a line. -/
def CommentStartsLine (source : CodeUnits) : Prop :=
  ∀ start ∈ indexOf noImportsNeeded source, lineFeed ∈ source.drop start →
    start = 0 ∨ source[start - 1]? = some lineFeed

/-- The lines of a script without the comment: what comes before it on its line is a line. -/
def keptLines (source : CodeUnits) : List CodeUnits :=
  match indexOf noImportsNeeded source with
  | none => lines source
  | some start =>
      match indexOf [lineFeed] (source.drop start) with
      | none => lines source
      | some length =>
          let before := lines (source.take start)
          before.dropLast ++ before.getLast?.toList.filter (· ≠ []) ++
            lines (source.drop (start + length + 1))

/-- A content whose last line is empty ends in a line feed. -/
theorem endsLine_of_getLast?_lines {text : CodeUnits} (empty : (lines text).getLast? = some []) :
    text = [] ∨ text.getLast? = some lineFeed := by
  induction text with
  | nil => exact .inl rfl
  | cons first rest ih =>
      rw [lines, List.splitOn_cons_eq_if_modifyHead] at empty
      obtain ⟨line, others, split⟩ := List.exists_cons_of_ne_nil (List.splitOn_ne_nil lineFeed rest)
      rw [lines] at ih
      rw [split] at empty ih
      right
      by_cases mark : first = lineFeed
      · rw [if_pos (beq_iff_eq.mpr mark), List.getLast?_cons_cons] at empty
        obtain rfl | last := ih empty
        · rw [mark]
          rfl
        · rw [List.getLast?_cons, last]
          rfl
      · rw [if_neg (by simpa using mark), List.modifyHead_cons] at empty
        cases others with
        | nil => cases empty
        | cons next others =>
            rw [List.getLast?_cons_cons] at empty
            obtain rfl | last := ih (by rw [List.getLast?_cons_cons, empty])
            · rw [List.splitOn_nil] at split
              cases split
            · rw [List.getLast?_cons, last]
              rfl

/-- A content is determined by its lines. -/
theorem lines_injective : Function.Injective lines :=
  Function.LeftInverse.injective fun _ => List.intercalate_splitOn lineFeed

/-- What comes before a comment stays a line when the comment starts a line. -/
theorem lines_append_iff (before after : CodeUnits) :
    lines (before ++ after) =
        (lines before).dropLast ++ (lines before).getLast?.toList.filter (· ≠ []) ++ lines after ↔
      before = [] ∨ before.getLast? = some lineFeed := by
  constructor
  · intro same
    have nonempty : lines before ≠ [] := List.splitOn_ne_nil _ _
    have split : (lines before).dropLast ++ [(lines before).getLast nonempty] = lines before :=
      List.dropLast_append_getLast _
    rw [List.getLast?_eq_some_getLast nonempty] at same
    generalize (lines before).getLast _ = last at same split
    by_cases empty : last = []
    · refine endsLine_of_getLast?_lines ?_
      rw [← split, List.getLast?_concat, empty]
    · -- the text would have one more line feed
      rw [Option.toList_some, List.filter_cons_of_pos (by simpa using empty), List.filter_nil, split,
        ← lines_append_cons] at same
      have lengths := congrArg List.length (lines_injective same)
      simp at lengths
  · rintro (rfl | last)
    · simp
    · obtain ⟨front, rfl⟩ := List.getLast?_eq_some_iff.mp last
      rw [List.append_assoc, List.singleton_append, lines_append_cons, lines_append_cons, lines_nil]
      simp

/-- The comment starts its line when a line feed stands before it. -/
theorem commentStartsLine_iff {source : CodeUnits} {start : Nat}
    (found : indexOf noImportsNeeded source = some start) (ends : lineFeed ∈ source.drop start) :
    CommentStartsLine source ↔
      source.take start = [] ∨ (source.take start).getLast? = some lineFeed := by
  have within : start < source.length := by
    have after := List.length_pos_of_mem ends
    rw [List.length_drop] at after
    omega
  have here : CommentStartsLine source ↔ start = 0 ∨ source[start - 1]? = some lineFeed := by
    refine ⟨fun starts => starts start found ends, fun starts other among _ => ?_⟩
    rwa [← Option.some.inj (found.symm.trans among)]
  rw [here]
  cases start with
  | zero => simp
  | succ start =>
      have nonempty : source ≠ [] := List.ne_nil_of_length_pos (by omega)
      rw [List.getLast?_take, if_neg start.succ_ne_zero, Nat.add_sub_cancel,
        List.getElem?_eq_getElem (by omega)]
      simp [nonempty]

/-- A comment is removed with its line exactly when it starts the line. -/
theorem lines_removeNoImports_iff {source : CodeUnits} :
    lines (removeNoImports source) = keptLines source ↔ CommentStartsLine source := by
  rw [removeNoImports, keptLines]
  cases found : indexOf noImportsNeeded source with
  | none => exact iff_of_true rfl fun start among => absurd (found ▸ among) nofun
  | some start =>
      simp only
      cases ends : indexOf [lineFeed] (source.drop start) with
      | none =>
          have endless := not_mem_of_indexOf_singleton ends
          refine iff_of_true (by rw [List.take_append_drop]) fun other same after => absurd after ?_
          rwa [← Option.some.inj (found.symm.trans same)]
      | some length =>
          rw [commentStartsLine_iff found (mem_of_indexOf_singleton ends)]
          exact lines_append_iff _ _

/-- Properties of the playground are replaced in each line. -/
theorem lines_replacePg {replacements : List (CodeUnits × CodeUnits)}
    (inLine : ∀ replacement ∈ replacements, replacement.1 ≠ [] ∧ lineFeed ∉ replacement.1 ∧
      lineFeed ∉ replacement.2) (content : CodeUnits) :
    lines (replacePg replacements content) = (lines content).map (replacePg replacements) := by
  induction replacements generalizing content with
  | nil => exact (List.map_id' _).symm
  | cons replacement rest ih =>
      obtain ⟨nonempty, notIn, notInserted⟩ := inLine replacement List.mem_cons_self
      have first : lines (content.replaceAll replacement.1 replacement.2) =
          (lines content).map fun line => line.replaceAll replacement.1 replacement.2 :=
        splitOn_replaceAll nonempty notIn notInserted content
      have others := ih (fun other among => inLine other (List.mem_cons_of_mem _ among))
        (content.replaceAll replacement.1 replacement.2)
      rw [first, List.map_map] at others
      exact others

/-- Insertions between lines leave the lines. -/
theorem AllBetweenLines.sublist {insertions : List Insertion} {content : CodeUnits}
    (between : AllBetweenLines insertions content) :
    (lines content).Sublist
      (lines (insertions.foldl (fun content insertion => insertion.add content) content)) := by
  induction insertions generalizing content with
  | nil => exact List.Sublist.refl _
  | cons insertion rest ih => exact between.1.sublist.trans (ih between.2)

/-- Lines put in front keep all the others. -/
theorem lines_sublist_front (generated : List CodeUnits) (content : CodeUnits) :
    (lines content).Sublist (lines (front generated ++ content)) := by
  induction generated with
  | nil => exact List.Sublist.refl _
  | cons line rest ih =>
      rw [front_cons, List.append_assoc, List.cons_append, lines_append_cons]
      exact ih.trans (List.sublist_append_right _ _)

/-! ## Conversions -/

/-- What a script is converted to. -/
inductive Conversion where
  | native (globals : Native.PgGlobals)
  | anchor (programName : ProgramName) (isTest : Bool)

namespace Conversion

/-- The conversion of the framework. -/
def convertJS : Conversion → CodeUnits → CodeUnits
  | native globals => Native.convertJS globals
  | anchor programName isTest => fun content => Anchor.convertJS content programName isTest

/-- The imports the framework adds. -/
def handleImports : Conversion → CodeUnits → CodeUnits
  | native _ => addImports
  | anchor _ _ => Anchor.handleImports

/-- The lines the framework inserts. -/
def insertions : Conversion → List Insertion
  | native globals => [afterImports (Native.definitions globals)]
  | anchor programName isTest =>
      let pascalCaseProgramName := toPascalFromSnake programName.1
      [afterImports (Anchor.typeImport programName.1 pascalCaseProgramName),
        if isTest then afterDescribe (Anchor.testProgram pascalCaseProgramName)
        else afterImports (Anchor.clientProgram pascalCaseProgramName)]

/-- The names the framework replaces. -/
def pgReplacements : Conversion → List (CodeUnits × CodeUnits)
  | native _ => Native.pgReplacements
  | anchor _ _ => Anchor.pgReplacements

/-- The imports that are generated for a script without the comment. -/
def importLines : Conversion → CodeUnits → List CodeUnits
  | native _, content => globalImports content
  | anchor _ _, content =>
      if (front (globalImports content) ++ content).includes (ofText "anchor".toList)
      then globalImports content
      else importLine Anchor.anchorPackage :: globalImports content

variable (conversion : Conversion) (source : CodeUnits)

/-- A conversion is its imports, its insertions and its replacements. -/
theorem convertJS_eq : conversion.convertJS source =
    replacePg conversion.pgReplacements
      (conversion.insertions.foldl (fun content insertion => insertion.add content)
        (conversion.handleImports source)) := by
  cases conversion with
  | native globals => rfl
  | anchor programName isTest =>
      cases isTest with
      | true => rfl
      | false => rfl

/-- The imports are written in front of the content without the comment. -/
theorem handleImports_eq : conversion.handleImports source =
    front (conversion.importLines (removeNoImports source)) ++ removeNoImports source := by
  cases conversion with
  | native globals => exact addImports_eq source
  | anchor programName isTest =>
      simp only [handleImports, Anchor.handleImports, importLines, addImports_eq]
      split
      · rfl
      · simp

/-- The written imports are generated lines. -/
theorem generated_importLines (content : CodeUnits) :
    ∀ line ∈ conversion.importLines content, Generated line := by
  have globals : ∀ line ∈ globalImports content, Generated line := by
    intro line among
    obtain ⟨globalPackage, used, rfl⟩ := List.mem_map.mp among
    exact generated_importLine (mem_globalPackages (List.mem_reverse.mp used))
  cases conversion with
  | native _ => exact globals
  | anchor programName isTest =>
      rw [importLines]
      split
      · exact globals
      · exact List.forall_mem_cons.mpr ⟨generated_importLine (by decide), globals⟩

/-- The lines of a script but the comment are lines of what it is converted to, and what is
written into it comes between them. -/
structure KeepsLines : Prop where
  comment : lines (removeNoImports source) = keptLines source
  insertions : AllBetweenLines conversion.insertions (conversion.handleImports source)
  lines : ((keptLines source).map (replacePg conversion.pgReplacements)).Sublist
    (lines (conversion.convertJS source))

/-- The content is a test of the Anchor framework. -/
def IsTest : Conversion → Prop
  | native _ => False
  | anchor _ isTest => isTest

/-- The ends of the lines on which the conversion relies -/
structure EndsLines : Prop where
  comment : CommentStartsLine source
  imports : ImportsEnd (conversion.importLines (removeNoImports source)) (removeNoImports source)
  describe : conversion.IsTest → DescribeEnds (removeNoImports source)

/-- No replaced name reaches over a line. -/
theorem inLine_pgReplacements : ∀ replacement ∈ conversion.pgReplacements,
    replacement.1 ≠ [] ∧ lineFeed ∉ replacement.1 ∧ lineFeed ∉ replacement.2 := by
  cases conversion with
  | native _ =>
      rw [pgReplacements]
      decide
  | anchor _ _ =>
      rw [pgReplacements]
      decide

/-- An empty script gets an import from Anchor. -/
theorem front_importLines_ne_nil (programName : ProgramName) (isTest : Bool) (content : CodeUnits) :
    front ((anchor programName isTest).importLines content) ++ content ≠ [] := by
  cases content with
  | nil =>
      rw [importLines]
      decide
  | cons unit rest => simp

/-- After the import of the type, the last import statement is that one, and the first call of
`describe` is the one of the script. -/
theorem betweenLines_second_iff (programName : ProgramName) (isTest : Bool)
    (ends : importStatement.LastEnds head tail) :
    AllBetweenLines ((anchor programName isTest).insertions.tail)
        (head ++ lineFeed :: (Anchor.typeImport programName.1
          (toPascalFromSnake programName.1) ++ lineFeed :: tail)) ↔
      (isTest = true → DescribeEnds (head ++ lineFeed :: tail)) := by
  have isGenerated := generated_typeImport programName
  cases isTest with
  | true =>
      have some : head ++ lineFeed :: (Anchor.typeImport programName.1
          (toPascalFromSnake programName.1) ++ lineFeed :: tail) ≠ [] := by
        simp
      have between := betweenLines_afterDescribe_iff
        (Anchor.testProgram (toPascalFromSnake programName.1)) some
      rw [describeEnds_insert isGenerated] at between
      exact ⟨fun all _ => between.mp all.1, fun describe => ⟨between.mpr (describe rfl), trivial⟩⟩
  | false =>
      have last := betweenLines_of_lastEnds (ends.insert isGenerated.importLine.matched)
        (Anchor.clientProgram (toPascalFromSnake programName.1))
      rw [List.append_assoc, List.cons_append] at last
      exact ⟨fun _ => nofun, fun _ => ⟨last, trivial⟩⟩

/-- All insertions stand between lines exactly when the imports and the `describe` end theirs. -/
theorem allBetweenLines_iff :
    AllBetweenLines conversion.insertions (conversion.handleImports source) ↔
      ImportsEnd (conversion.importLines (removeNoImports source)) (removeNoImports source) ∧
        (conversion.IsTest → DescribeEnds (removeNoImports source)) := by
  have isGenerated := conversion.generated_importLines (removeNoImports source)
  rw [handleImports_eq]
  generalize removeNoImports source = content at isGenerated ⊢
  cases conversion with
  | native globals =>
      have first := betweenLines_front_iff isGenerated (Native.definitions globals) content
      exact ⟨fun all => ⟨first.mp all.1, nofun⟩, fun both => ⟨first.mpr both.1, trivial⟩⟩
  | anchor programName isTest =>
      have first := betweenLines_front_iff isGenerated
        (Anchor.typeImport programName.1 (toPascalFromSnake programName.1)) content
      refine (and_congr_left' first).trans (and_congr_right fun ends => ?_)
      obtain ⟨head, tail, whole, lastEnds⟩ := exists_lastEnds_of_importsEnd isGenerated ends
        (front_importLines_ne_nil programName isTest content)
      have second := betweenLines_second_iff programName isTest lastEnds
      rw [← whole, describeEnds_front isGenerated] at second
      rw [whole, add_afterImports lastEnds]
      exact second

/-- A conversion keeps the lines of a script exactly when the script ends its lines where the
conversion relies on it. -/
theorem keepsLines_iff : conversion.KeepsLines source ↔ conversion.EndsLines source := by
  have between := conversion.allBetweenLines_iff source
  constructor
  · rintro ⟨comment, insertions, -⟩
    obtain ⟨imports, describe⟩ := between.mp insertions
    exact ⟨lines_removeNoImports_iff.mp comment, imports, describe⟩
  · rintro ⟨comment, imports, describe⟩
    have insertions := between.mpr ⟨imports, describe⟩
    have removed := lines_removeNoImports_iff.mpr comment
    refine ⟨removed, insertions, ?_⟩
    rw [convertJS_eq, lines_replacePg conversion.inLine_pgReplacements, ← removed]
    refine List.Sublist.map _ (List.Sublist.trans ?_ insertions.sublist)
    rw [handleImports_eq]
    exact lines_sublist_front _ _

/-- Without an import, `console.log(1);` loses its first letter to another line. -/
theorem not_keepsLines_console :
    ¬ ∀ (conversion : Conversion) (source : CodeUnits), conversion.KeepsLines source := by
  intro all
  let globals : Native.PgGlobals := ⟨none, ofText "http://localhost:8899".toList,
    ofText "confirmed".toList⟩
  have between := (all (native globals) (ofText "console.log(1);".toList)).insertions.1
  obtain none | ⟨found, among, -⟩ := between
  · exact absurd none (by decide)
  · have empty : importStatement.matchAll (addImports (ofText "console.log(1);".toList)) = [] := by
      decide
    exact List.not_mem_nil (empty ▸ among)

end Conversion
end Solpg.Client.Frameworks
