import Solpg.Std.CodeUnits
import Solpg.Std.Matcher

/-!
# Import statements and calls of `describe`

The two regular expressions after whose matches the export writes into a script. A match of
the first one may run over several lines, from the word `import` up to the last quote of a
line with two quotes; a match of the second one ends with its line.
-/

namespace Solpg.Client.Frameworks

open Solpg.Std CodeUnits

/-- What an import ends with. -/
def semicolon : UInt16 := 0x3b

/-- `["|']`, in which the bar is a symbol of its own -/
def isQuote (unit : UInt16) : Bool := unit = doubleQuote ∨ unit = pipe ∨ unit = singleQuote

/-- `.*["|'](;?)`: up to the last quote of the line. -/
def matchClosing (text : CodeUnits) : Option CodeUnits :=
  let line := text.takeWhile fun unit => ! isLineTerminator unit
  let closing := line.rdropWhile fun unit => ! isQuote unit
  if closing = [] then none
  else if text[closing.length]? = some semicolon then some (closing ++ [semicolon])
  else some closing

/-- `(.|\n)*?["|'].*["|'](;?)`: from the first quote from which the rest matches. -/
def matchAfterImport : CodeUnits → Option CodeUnits
  | [] => none
  | unit :: rest =>
      match if isQuote unit then matchClosing rest else none with
      | some closing => some (unit :: closing)
      | none =>
          if isLineTerminator unit ∧ unit ≠ lineFeed then none
          else (matchAfterImport rest).map (unit :: ·)

/-- What an import starts with. -/
def importKeyword : CodeUnits := ofText "import".toList

/-- `/import(.|\n)*?["|'].*["|'](;?)/` -/
def matchImportStatement (text : CodeUnits) : Option CodeUnits :=
  if importKeyword.isPrefixOf text
  then (matchAfterImport (text.drop importKeyword.length)).map (importKeyword ++ ·)
  else none

/-- The call that tests start with. -/
def describeCall : CodeUnits := ofText "describe(".toList

/-- `/describe\(.*/` -/
def matchDescribe (text : CodeUnits) : Option CodeUnits :=
  if describeCall.isPrefixOf text
  then some (describeCall ++
    (text.drop describeCall.length).takeWhile fun unit => ! isLineTerminator unit)
  else none

/-! ## What a match depends on -/

variable {unit : UInt16} {text rest closing found before : CodeUnits}

/-- A line ends at its line feed. -/
theorem takeWhile_append_lineFeed (text rest : CodeUnits) :
    (text ++ lineFeed :: rest).takeWhile (fun unit => ! isLineTerminator unit) =
      text.takeWhile fun unit => ! isLineTerminator unit := by
  induction text with
  | nil => rfl
  | cons unit text ih =>
      rw [List.cons_append, List.takeWhile_cons, List.takeWhile_cons, ih]

/-- The end of a match does not depend on the lines after it. -/
theorem matchClosing_append (text rest : CodeUnits) :
    matchClosing (text ++ lineFeed :: rest) = matchClosing text := by
  rw [matchClosing, matchClosing, takeWhile_append_lineFeed]
  have within : ((text.takeWhile fun unit => ! isLineTerminator unit).rdropWhile
      fun unit => ! isQuote unit).length ≤ text.length :=
    (List.rdropWhile_prefix _ _).length_le.trans (List.takeWhile_prefix _).length_le
  obtain inside | whole := Nat.lt_or_eq_of_le within
  · simp only [List.getElem?_append_left inside]
  · have last : (text ++ lineFeed :: rest)[text.length]? = some lineFeed := by
      rw [List.getElem?_append_right (Nat.le_refl _), Nat.sub_self]
      rfl
    simp only [whole, last, List.getElem?_length]
    rfl

/-- A match can be continued by the next unit. -/
theorem prefix_concat (part : found <+: text) (next : text[found.length]? = some unit) :
    found ++ [unit] <+: text := by
  obtain ⟨rest, rfl⟩ := part
  rw [List.getElem?_append_right (Nat.le_refl _), Nat.sub_self] at next
  cases rest with
  | nil => exact absurd next nofun
  | cons first rest =>
      obtain rfl := Option.some.inj next
      exact ⟨rest, by simp⟩

/-- It is the first part of the text, and ends with a quote or a semicolon. -/
theorem matchClosing_spec (found : matchClosing text = some closing) :
    closing <+: text ∧ ∃ unit, closing.getLast? = some unit ∧ unit ≠ lineFeed := by
  rw [matchClosing] at found
  split at found
  next => exact absurd found nofun
  next some =>
    have part : ((text.takeWhile fun unit => ! isLineTerminator unit).rdropWhile
        fun unit => ! isQuote unit) <+: text :=
      (List.rdropWhile_prefix _ _).trans (List.takeWhile_prefix _)
    split at found
    next ends =>
      obtain rfl := Option.some.inj found
      exact ⟨prefix_concat part ends, semicolon, List.getLast?_concat, by decide⟩
    next =>
      obtain rfl := Option.some.inj found
      have last := List.rdropWhile_last_not _ _ some
      refine ⟨part, _, List.getLast?_eq_some_getLast some, ?_⟩
      intro same
      rw [same] at last
      exact last (by decide)

/-- Before a line break, whether a quote begins the end of the match depends on its line only. -/
theorem matchAfterImport_cons (unit : UInt16) (text rest : CodeUnits) :
    matchAfterImport (unit :: (text ++ lineFeed :: rest)) =
      match if isQuote unit then matchClosing text else none with
      | some closing => some (unit :: closing)
      | none =>
          if isLineTerminator unit ∧ unit ≠ lineFeed then none
          else (matchAfterImport (text ++ lineFeed :: rest)).map (unit :: ·) := by
  rw [matchAfterImport, matchClosing_append]

/-- What is matched behind `import` is a start of it, and no line feed is the last unit. -/
theorem matchAfterImport_spec (matched : matchAfterImport text = some found) :
    found <+: text ∧ ∃ unit, found.getLast? = some unit ∧ unit ≠ lineFeed := by
  induction text generalizing found with
  | nil => exact absurd matched nofun
  | cons unit rest ih =>
      rw [matchAfterImport] at matched
      split at matched
      next closing closes =>
        obtain rfl := Option.some.inj matched
        split at closes
        next =>
          obtain ⟨part, last, ends, other⟩ := matchClosing_spec closes
          refine ⟨(List.prefix_cons_inj unit).mpr part, last, ?_, other⟩
          rw [List.getLast?_cons, ends]
          rfl
        next => exact absurd closes nofun
      next =>
        split at matched
        next => exact absurd matched nofun
        next =>
          obtain ⟨inner, matchedRest, rfl⟩ := Option.map_eq_some_iff.mp matched
          obtain ⟨part, last, ends, other⟩ := ih matchedRest
          refine ⟨(List.prefix_cons_inj unit).mpr part, last, ?_, other⟩
          rw [List.getLast?_cons, ends]
          rfl

/-- What ends before a line break is found whatever comes after it. -/
theorem matchAfterImport_settled (matched : matchAfterImport (found ++ lineFeed :: rest) = some found)
    (other : CodeUnits) : matchAfterImport (found ++ lineFeed :: other) = some found := by
  induction found with
  | nil =>
      obtain ⟨-, last, ends, -⟩ := matchAfterImport_spec matched
      exact absurd ends nofun
  | cons unit found ih =>
      rw [List.cons_append, matchAfterImport_cons] at matched ⊢
      split at matched
      next closing closes => exact matched
      next =>
        split at matched
        next => exact absurd matched nofun
        next plain =>
          obtain ⟨inner, matchedRest, same⟩ := Option.map_eq_some_iff.mp matched
          obtain rfl := (List.cons.inj same).2
          rw [if_neg plain, ih matchedRest]
          rfl

/-- From any place before it, a match ends before the line break too, or none is found. -/
theorem matchAfterImport_before (matched : matchAfterImport (found ++ lineFeed :: rest) = some found)
    (before : CodeUnits) :
    (∃ other, other.length ≤ (before ++ found).length ∧
        ∀ rest, matchAfterImport (before ++ found ++ lineFeed :: rest) = some other) ∨
      ∀ rest, matchAfterImport (before ++ found ++ lineFeed :: rest) = none := by
  induction before with
  | nil => exact .inl ⟨found, Nat.le_refl _, matchAfterImport_settled matched⟩
  | cons unit before ih =>
      simp only [List.cons_append, matchAfterImport_cons]
      split
      next closing closes =>
        refine .inl ⟨_, ?_, fun _ => rfl⟩
        split at closes
        next => exact Nat.succ_le_succ (matchClosing_spec closes).1.length_le
        next => exact absurd closes nofun
      next =>
        split
        next => exact .inr fun _ => rfl
        next =>
          obtain ⟨other, least, finds⟩ | misses := ih
          · refine .inl ⟨unit :: other, Nat.succ_le_succ least, fun rest => ?_⟩
            rw [finds rest]
            rfl
          · refine .inr fun rest => ?_
            rw [misses rest]
            rfl

/-! ## The expressions -/

/-- A match is `import` and what is matched behind it. -/
theorem matchImportStatement_eq_some (matched : matchImportStatement text = some found) :
    ∃ rest after, text = importKeyword ++ rest ∧ found = importKeyword ++ after ∧
      matchAfterImport rest = some after := by
  rw [matchImportStatement] at matched
  split at matched
  next starts =>
    obtain ⟨rest, rfl⟩ := List.isPrefixOf_iff_prefix.mp starts
    rw [List.drop_left] at matched
    obtain ⟨after, matchedRest, rfl⟩ := Option.map_eq_some_iff.mp matched
    exact ⟨rest, after, rfl, rfl, matchedRest⟩
  next => exact absurd matched nofun

/-- Behind `import` the rest decides. -/
theorem matchImportStatement_append (rest : CodeUnits) :
    matchImportStatement (importKeyword ++ rest) =
      (matchAfterImport rest).map (importKeyword ++ ·) := by
  rw [matchImportStatement, if_pos (List.isPrefixOf_iff_prefix.mpr (List.prefix_append _ _)),
    List.drop_left]

/-- Without `import` there is no match. -/
theorem matchImportStatement_of_not_prefix (other : ¬ importKeyword <+: text) :
    matchImportStatement text = none := by
  rw [matchImportStatement, if_neg (mt List.isPrefixOf_iff_prefix.mp other)]

/-- From any place before it, a match ends before the line break too, or none is found. -/
theorem matchImportStatement_before
    (matched : matchImportStatement (found ++ lineFeed :: rest) = some found) (before : CodeUnits) :
    (∃ other, other.length ≤ (before ++ found).length ∧
        ∀ rest, matchImportStatement (before ++ found ++ lineFeed :: rest) = some other) ∨
      ∀ rest, matchImportStatement (before ++ found ++ lineFeed :: rest) = none := by
  obtain ⟨inner, after, whole, rfl, matchedRest⟩ := matchImportStatement_eq_some matched
  rw [List.append_assoc] at whole
  obtain rfl := List.append_cancel_left whole
  by_cases starts : importKeyword <+: before ++ (importKeyword ++ after)
  · obtain ⟨inner, same⟩ := starts
    obtain ⟨between, rfl⟩ : after <:+ inner := by
      have ends : inner <:+ before ++ (importKeyword ++ after) := ⟨_, same⟩
      have lengths := congrArg List.length same
      simp only [List.length_append] at lengths
      refine List.suffix_of_suffix_length_le ?_ ends (by omega)
      exact (List.suffix_append _ _).trans (List.suffix_append _ _)
    rw [← same]
    simp only [List.append_assoc, matchImportStatement_append]
    obtain ⟨other, least, finds⟩ | misses := matchAfterImport_before matchedRest between
    · refine .inl ⟨importKeyword ++ other, ?_, fun rest => ?_⟩
      · simp only [List.length_append] at least ⊢
        omega
      · rw [← List.append_assoc, finds rest]
        rfl
    · refine .inr fun rest => ?_
      rw [← List.append_assoc, misses rest]
      rfl
  · refine .inr fun rest => matchImportStatement_of_not_prefix fun longer => starts ?_
    refine List.prefix_of_prefix_length_le longer (List.prefix_append _ _) ?_
    simp only [List.length_append]
    omega

/-- Import statement regular expression with multi-line support -/
def importStatement : LineMatcher UInt16 lineFeed where
  matchAt := matchImportStatement
  isPrefix := by
    intro text found matched
    obtain ⟨rest, after, rfl, rfl, matchedRest⟩ := matchImportStatement_eq_some matched
    exact (List.prefix_append_right_inj _).mpr (matchAfterImport_spec matchedRest).1
  nonempty := by
    intro text found matched
    obtain ⟨rest, after, rfl, rfl, matched⟩ := matchImportStatement_eq_some matched
    exact nofun
  mark_none := fun rest => rfl
  getLast?_ne := by
    intro text found matched
    obtain ⟨rest, after, rfl, rfl, matchedRest⟩ := matchImportStatement_eq_some matched
    obtain ⟨-, last, ends, other⟩ := matchAfterImport_spec matchedRest
    rw [List.getLast?_append, ends]
    exact fun same => other (Option.some.inj same)
  settled := by
    intro found tail before matched
    exact matchImportStatement_before matched before

/-- The expression for imports. -/
theorem importStatement_matchAt (text : CodeUnits) :
    importStatement.matchAt text = matchImportStatement text := rfl

/-- `/describe\(.*/` -/
def describe : Matcher UInt16 where
  matchAt := matchDescribe
  isPrefix := by
    intro text found matched
    rw [matchDescribe] at matched
    split at matched
    next starts =>
      obtain ⟨rest, rfl⟩ := List.isPrefixOf_iff_prefix.mp starts
      obtain rfl := Option.some.inj matched
      rw [List.drop_left]
      exact (List.prefix_append_right_inj _).mpr (List.takeWhile_prefix _)
    next => exact absurd matched nofun
  nonempty := by
    intro text found matched
    rw [matchDescribe] at matched
    split at matched
    next =>
      obtain rfl := Option.some.inj matched
      exact nofun
    next => exact absurd matched nofun

/-! ## Generated lines -/

/-- A statement on one line that imports from a package. -/
structure ImportLine (line : CodeUnits) : Prop where
  parts : ∃ middle package, line = importKeyword ++ (middle ++
      doubleQuote :: (package ++ [doubleQuote, semicolon])) ∧
    (∀ unit ∈ middle, isQuote unit = false ∧ isLineTerminator unit = false) ∧
      ∀ unit ∈ package, isLineTerminator unit = false

/-- A package is matched up to its quote. -/
theorem matchClosing_package {package : CodeUnits}
    (plain : ∀ unit ∈ package, isLineTerminator unit = false) :
    matchClosing (package ++ [doubleQuote, semicolon]) =
      some (package ++ [doubleQuote, semicolon]) := by
  have line : (package ++ [doubleQuote, semicolon]).takeWhile
      (fun unit => ! isLineTerminator unit) = package ++ [doubleQuote] ++ [semicolon] := by
    rw [List.append_assoc]
    refine List.takeWhile_eq_self_iff.mpr fun unit among => ?_
    obtain inPackage | ends := List.mem_append.mp among
    · rw [plain unit inPackage]
      rfl
    · simp only [List.mem_cons, List.not_mem_nil, or_false] at ends
      obtain rfl | rfl := ends
      · rfl
      · rfl
  have closing : (package ++ [doubleQuote] ++ [semicolon]).rdropWhile (fun unit => ! isQuote unit) =
      package ++ [doubleQuote] := by
    rw [List.rdropWhile_concat_pos _ _ _ (by decide), List.rdropWhile_concat_neg _ _ _ (by decide)]
  have next : (package ++ [doubleQuote, semicolon])[(package ++ [doubleQuote]).length]? =
      some semicolon := by
    rw [List.length_append, List.getElem?_append_right (Nat.le_add_right _ _),
      Nat.add_sub_cancel_left]
    rfl
  simp only [matchClosing, line, closing, next]
  simp

/-- What stands before a package is matched with it. -/
theorem matchAfterImport_middle {middle package : CodeUnits}
    (plain : ∀ unit ∈ middle, isQuote unit = false ∧ isLineTerminator unit = false)
    (plainPackage : ∀ unit ∈ package, isLineTerminator unit = false) (rest : CodeUnits) :
    matchAfterImport (middle ++ doubleQuote :: (package ++ [doubleQuote, semicolon]) ++
        lineFeed :: rest) =
      some (middle ++ doubleQuote :: (package ++ [doubleQuote, semicolon])) := by
  induction middle with
  | nil =>
      rw [List.nil_append, List.cons_append, matchAfterImport_cons, if_pos (by decide),
        matchClosing_package plainPackage]
  | cons unit middle ih =>
      obtain ⟨noQuote, inLine⟩ := plain unit List.mem_cons_self
      have others := ih fun other among => plain other (List.mem_cons_of_mem _ among)
      rw [List.cons_append, List.cons_append, matchAfterImport_cons, if_neg (by simp [noQuote]),
        others]
      simp [inLine]

/-- A line that is an import is matched. -/
theorem ImportLine.matched {line : CodeUnits} (isLine : ImportLine line) (rest : CodeUnits) :
    importStatement.matchAt (line ++ lineFeed :: rest) = some line := by
  obtain ⟨middle, package, rfl, plain, plainPackage⟩ := isLine
  rw [importStatement_matchAt, List.append_assoc, matchImportStatement_append,
    matchAfterImport_middle plain plainPackage]
  rfl

/-! ## Calls of `describe` -/

/-- The expression for tests. -/
theorem describe_matchAt (text : CodeUnits) : describe.matchAt text = matchDescribe text := rfl

/-- A call is not begun at the end of a line, and what comes after it is on its line. -/
theorem describe_inLine (text rest : CodeUnits) :
    describe.matchAt (text ++ lineFeed :: rest) = describe.matchAt text := by
  rw [describe_matchAt, describe_matchAt, matchDescribe, matchDescribe]
  by_cases starts : describeCall <+: text
  · obtain ⟨after, rfl⟩ := starts
    have longer : describeCall <+: describeCall ++ after ++ lineFeed :: rest :=
      (List.prefix_append _ _).trans (List.prefix_append _ _)
    rw [if_pos (List.isPrefixOf_iff_prefix.mpr longer),
      if_pos (List.isPrefixOf_iff_prefix.mpr (List.prefix_append _ _)), List.drop_left,
      List.append_assoc, List.drop_left, takeWhile_append_lineFeed]
  · have longer : ¬ describeCall <+: text ++ lineFeed :: rest := by
      rwa [prefix_append_cons_iff (by decide)]
    rw [if_neg (mt List.isPrefixOf_iff_prefix.mp longer),
      if_neg (mt List.isPrefixOf_iff_prefix.mp starts)]

/-- No line feed is the last unit of a match. -/
theorem describe_getLast?_ne {text found : CodeUnits} (matched : describe.matchAt text = some found) :
    found.getLast? ≠ some lineFeed := by
  rw [describe_matchAt, matchDescribe] at matched
  split at matched
  next =>
    obtain rfl := Option.some.inj matched
    intro last
    obtain keyword | rest := List.mem_append.mp (List.mem_of_getLast? last)
    · exact absurd keyword (by decide)
    · exact absurd (List.mem_takeWhile_imp rest) (by decide)
  next => exact absurd matched nofun

/-- A text without a parenthesis has no call. -/
theorem afterFirst_describe_of_not_mem {text : CodeUnits} (plain : (0x28 : UInt16) ∉ text) :
    describe.afterFirst text = none := by
  induction text with
  | nil => rfl
  | cons unit rest ih =>
      have misses : describe.matchAt (unit :: rest) = none := by
        rw [describe_matchAt, matchDescribe, if_neg]
        intro starts
        have part := List.isPrefixOf_iff_prefix.mp starts
        exact plain (part.subset (by decide))
      rw [Matcher.afterFirst, misses]
      exact ih fun among => plain (List.mem_cons_of_mem _ among)

end Solpg.Client.Frameworks
