import Solpg.Client.Utils.Common
import Solpg.Std.Pattern
import Solpg.Std.RustSource
import Solpg.Std.UnixPath

/-!
# The program id of a Rust source

`updateIdRust` of `commands/build/build.ts` goes through the lines of a source, keeps track of
block comments by their markers and puts the program id into `declare_id!`. `updatesRightly_iff`
says for which sources it finds the one invocation that is code.
-/

namespace Solpg.Client.Commands.BuildFiles

open Solpg.Std Solpg.Client.Utils

/-! ## The source -/

/-- `declare_id!("`. -/
def declareId : Text := "declare_id!(\"".toList

/-- `")`. -/
def closing : Text := "\")".toList

/-- `::`. -/
def colons : Text := "::".toList

/-- `/*`, which opens a block comment. -/
def openComment : Text := "/*".toList

/-- `*/`, which closes a block comment. -/
def closeComment : Text := "*/".toList

/-- `/^(([\w]+::)*)declare_id!\("(\w*)"\)/`, with the whole match as its group 0. -/
def rustDeclareIdRegex : Pattern Char :=
  .group 0 (.sequence [.group 1 (.star (.group 2 (.sequence [.plus Text.isWord, .literal colons]))),
    .literal declareId, .group 3 (.many Text.isWord), .literal closing])

/-- `line.replace` with the expression, and whether the id was updated. -/
def replaceId (programPkStr line : Text) : Text × Bool :=
  match (rustDeclareIdRegex.matchAt line).bind fun captures => captures 0 with
  | none => (line, false)
  | some matched =>
      match rustDeclareIdRegex.matchAt matched with
      | none => (line, false)
      | some res =>
          ((res 1).getD [] ++ (declareId ++ (programPkStr ++ closing)) ++ line.drop matched.length,
            true)

/-- `insideBlockComment` after the line. -/
def insideAfter (insideBlockComment : Bool) (line : Text) : Bool :=
  (insideBlockComment || line.includes openComment) && !line.includes closeComment

/-- One line, and whether the id was updated in it. -/
def updateLine (programPkStr : Text) (insideBlockComment : Bool) (line : Text) : Text × Bool :=
  if insideBlockComment || line.includes openComment then (line, false)
  else if Text.startsWith (line.dropWhile Text.isSpace) "//".toList then (line, false)
  else replaceId programPkStr line

/-- The lines are updated one after the other, with the comment state carried along. -/
def updateLines (programPkStr : Text) : (insideBlockComment : Bool) → List Text → List Text × Bool
  | _, [] => ([], false)
  | insideBlockComment, line :: rest =>
      let (newLine, here) := updateLine programPkStr insideBlockComment line
      let (lines, updated) := updateLines programPkStr (insideAfter insideBlockComment line) rest
      (newLine :: lines, here || updated)

/-- Update the `declare_id!` macro in Rust source content with the current program's public key.
The flag says whether the id was updated. -/
def updateIdRust (programPkStr content : Text) : Text × Bool :=
  let (lines, updated) := updateLines programPkStr false (content.splitOn '\n')
  (['\n'].intercalate lines, updated)

/-! ## Invocations -/

/-- The segments of a path, each with its colons. -/
def IsPath (path : Text) : Prop :=
  ∃ segments : List Text, (∀ segment ∈ segments, segment ≠ [] ∧ ∀ char ∈ segment, Text.isWord char) ∧
    path = segments.flatMap fun segment => segment ++ colons

/-- `path::declare_id!("literal")`. -/
def invocation (path literal : Text) : Text := path ++ (declareId ++ (literal ++ closing))

/-- The line starts with an invocation. -/
structure Invokes (line path literal rest : Text) : Prop where
  split : line = invocation path literal ++ rest
  isPath : IsPath path
  isLiteral : ∀ char ∈ literal, char ≠ '"' ∧ char ≠ '\\'

variable {programPkStr line path literal rest : Text}

/-- A word character is not a character of another kind. -/
theorem isWord_ne {char other : Char} (word : Text.isWord char = true) (not : Text.isWord other = false) :
    char ≠ other := by
  rintro rfl
  rw [word] at not
  cases not

/-- A path has no exclamation mark. -/
theorem IsPath.no_mark (isPath : IsPath path) : ∀ char ∈ path, char ≠ '!' := by
  obtain ⟨segments, words, rfl⟩ := isPath
  intro char member
  obtain ⟨segment, among, inside⟩ := List.mem_flatMap.mp member
  rcases List.mem_append.mp inside with word | colon
  · exact isWord_ne ((words segment among).2 char word) (by decide)
  · rintro rfl
    exact absurd colon (by decide)

/-- Two texts are the same up to the first character of another class. -/
theorem append_cons_inj {class_ : Char → Bool} {first second after later : Text} {mark other : Char}
    (inFirst : ∀ char ∈ first, class_ char = true) (inSecond : ∀ char ∈ second, class_ char = true)
    (notMark : class_ mark = false) (notOther : class_ other = false)
    (same : first ++ mark :: after = second ++ other :: later) :
    first = second ∧ mark = other ∧ after = later := by
  have whole : ∀ {text rest : Text} {char : Char}, (∀ char ∈ text, class_ char = true) →
      class_ char = false → (text ++ char :: rest).takeWhile class_ = text := by
    intro text rest char all none_
    rw [List.takeWhile_append_of_pos all, List.takeWhile_cons_of_neg (by simp [none_]),
      List.append_nil]
  have equal : first = second := by
    rw [← whole inFirst notMark, same, whole inSecond notOther]
  subst equal
  exact ⟨rfl, List.cons.inj (List.append_cancel_left same)⟩

/-- A line has one invocation at most. -/
theorem Invokes.unique {path' literal' rest' : Text} (first : Invokes line path literal rest)
    (second : Invokes line path' literal' rest') : path = path' ∧ literal = literal' ∧ rest = rest' := by
  have name : declareId = "declare_id".toList ++ '!' :: "(\"".toList := rfl
  have parts : ∀ {path literal rest : Text}, Invokes line path literal rest →
      line = (path ++ "declare_id".toList) ++ '!' :: ("(\"".toList ++ (literal ++ '"' :: (')' :: rest))) := by
    intro path literal rest invokes
    rw [invokes.split, invocation, name, show closing = ['"', ')'] from rfl]
    simp
  have noMark : ∀ {path : Text}, IsPath path →
      ∀ char ∈ path ++ "declare_id".toList, (char != '!') = true := by
    intro path isPath char member
    rw [bne_iff_ne]
    rcases List.mem_append.mp member with inPath | inName
    · exact isPath.no_mark char inPath
    · rintro rfl
      exact absurd inName (by decide)
  have noQuote : ∀ {path literal rest : Text}, Invokes line path literal rest →
      ∀ char ∈ literal, (char != '"') = true :=
    fun invokes char member => bne_iff_ne.mpr (invokes.isLiteral char member).1
  obtain ⟨samePath, -, after⟩ := append_cons_inj (noMark first.isPath) (noMark second.isPath) rfl rfl
    ((parts first).symm.trans (parts second))
  obtain ⟨sameLiteral, -, afterLiteral⟩ := append_cons_inj (noQuote first) (noQuote second) rfl rfl
    (List.append_cancel_left after)
  exact ⟨List.append_cancel_right samePath, sameLiteral, (List.cons.inj afterLiteral).2⟩

/-! ## What the expression finds -/

/-- One segment of a path. -/
def pathSegment : Pattern Char := .group 2 (.sequence [.plus Text.isWord, .literal colons])

/-- A matched segment is a word and its colons. -/
theorem segment_of_matches {captures after : Pattern.Captures Char} {piece : Text}
    (matched : pathSegment.Matches captures piece after) : ∃ segment : Text,
      (segment ≠ [] ∧ ∀ char ∈ segment, Text.isWord char) ∧ piece = segment ++ colons := by
  cases matched with
  | group inner =>
      cases inner with
      | seq word rest =>
          cases rest with
          | seq literal empty =>
              cases empty
              rw [Pattern.matches_literal literal, List.append_nil]
              exact ⟨_, Pattern.matches_plus word, rfl⟩

/-- Segments put together are a path. -/
theorem isPath_flatten {pieces : List Text} (each : ∀ piece ∈ pieces, ∃ segment : Text,
    (segment ≠ [] ∧ ∀ char ∈ segment, Text.isWord char) ∧ piece = segment ++ colons) :
    IsPath pieces.flatten := by
  induction pieces with
  | nil => exact ⟨[], List.forall_mem_nil _, rfl⟩
  | cons piece rest ih =>
      rw [List.forall_mem_cons] at each
      obtain ⟨segment, word, rfl⟩ := each.1
      obtain ⟨segments, words, path⟩ := ih each.2
      exact ⟨segment :: segments, List.forall_mem_cons.mpr ⟨word, words⟩, by simp [path]⟩

/-- What the expression matches. -/
theorem invokes_of_matches {captures after : Pattern.Captures Char} {text : Text}
    (matched : rustDeclareIdRegex.Matches captures text after) :
    ∃ path literal, text = invocation path literal ∧ IsPath path ∧ ∀ char ∈ literal, Text.isWord char := by
  cases matched with
  | group inner =>
      cases inner with
      | seq path rest =>
          cases path with
          | group segments =>
              obtain ⟨pieces, rfl, each⟩ := Pattern.matches_star segments
              cases rest with
              | seq name rest =>
                  cases rest with
                  | seq literal rest =>
                      cases literal with
                      | group word =>
                          cases rest with
                          | seq close empty =>
                              cases empty
                              rw [Pattern.matches_literal name, Pattern.matches_literal close,
                                List.append_nil]
                              refine ⟨pieces.flatten, _, rfl, isPath_flatten fun piece member => ?_,
                                Pattern.matches_many word⟩
                              obtain ⟨_, _, matched⟩ := each piece member
                              exact segment_of_matches matched

/-- Before the name of the macro there are no more segments. -/
theorem refuses_segment (after : Text) : pathSegment.Refuses (declareId ++ after) := by
  refine Pattern.Refuses.of_matches fun text rest captures result split matched => ?_
  obtain ⟨segment, word, rfl⟩ := segment_of_matches matched
  have name : declareId ++ after = "declare_id".toList ++ '!' :: ("(\"".toList ++ after) := rfl
  have colon : segment ++ colons ++ rest = segment ++ ':' :: (':' :: rest) := by simp [colons]
  have inName : ∀ char ∈ "declare_id".toList, Text.isWord char = true :=
    List.all_eq_true.mp (by decide)
  rw [name, colon] at split
  exact absurd (append_cons_inj inName word.2 (by decide) (by decide) split).2.1 (by decide)

/-- The expression takes a segment wherever one stands. -/
theorem takes_segment {segment : Text} (nonempty : segment ≠ []) (word : ∀ char ∈ segment, Text.isWord char)
    (captures : Pattern.Captures Char) (rest : Text) : pathSegment.Takes captures (segment ++ colons)
      (Function.update captures 2 (some (segment ++ colons))) rest := by
  apply Pattern.Takes.group
  apply Pattern.Takes.cons
  · apply Pattern.Takes.plus nonempty word
    rintro item ⟨⟩
    rfl
  · exact .single (.literal colons)

/-- The segments of a path are repeated up to the name of the macro. -/
theorem repeats_path {segments : List Text}
    (words : ∀ segment ∈ segments, segment ≠ [] ∧ ∀ char ∈ segment, Text.isWord char)
    (captures : Pattern.Captures Char) (after : Text) : ∃ result, pathSegment.Repeats captures
      (segments.flatMap fun segment => segment ++ colons) result (declareId ++ after) := by
  induction segments generalizing captures with
  | nil => exact ⟨captures, .nil (refuses_segment after)⟩
  | cons segment rest ih =>
      rw [List.forall_mem_cons] at words
      obtain ⟨result, repeats⟩ := ih words.2 (Function.update (captures.clear pathSegment.groups) 2
        (some (segment ++ colons)))
      refine ⟨result, ?_⟩
      rw [List.flatMap_cons]
      exact .cons (by simp [words.1.1]) (takes_segment words.1.1 words.1.2 _ _) repeats

/-- The expression takes an invocation with a word for its literal. -/
theorem takes_invocation (isPath : IsPath path) (word : ∀ char ∈ literal, Text.isWord char) (rest : Text) :
    ∃ after : Pattern.Captures Char, after 0 = some (invocation path literal) ∧ after 1 = some path ∧
      rustDeclareIdRegex.Takes (fun _ => none) (invocation path literal) after rest := by
  obtain ⟨segments, words, rfl⟩ := isPath
  obtain ⟨result, repeats⟩ := repeats_path words (fun _ => none) ((literal ++ closing) ++ rest)
  refine ⟨_, Function.update_self .., ?_, Pattern.Takes.group (Pattern.Takes.cons
    (Pattern.Takes.group (repeats.takes : Pattern.Takes _ _ _ _ _)) (Pattern.Takes.cons
      (.literal declareId) (Pattern.Takes.cons (Pattern.Takes.group (.many word ?_))
        (.single (.literal closing)))))⟩
  · rw [Function.update_of_ne (by decide), Function.update_of_ne (by decide), Function.update_self]
  · rintro item ⟨⟩
    rfl

/-- The expression matches an invocation. -/
theorem matchAt_invocation (isPath : IsPath path) (word : ∀ char ∈ literal, Text.isWord char) (rest : Text) :
    ∃ after, rustDeclareIdRegex.matchAt (invocation path literal ++ rest) = some after ∧
      after 0 = some (invocation path literal) ∧ after 1 = some path := by
  obtain ⟨after, matched, captured, takes⟩ := takes_invocation isPath word rest
  exact ⟨after, takes _ _ rfl, matched, captured⟩

/-- The id takes the place of a literal that is a word. -/
theorem replaceId_of_invokes (invokes : Invokes line path literal rest)
    (word : ∀ char ∈ literal, Text.isWord char) :
    replaceId programPkStr line = (invocation path programPkStr ++ rest, true) := by
  obtain ⟨after, found, matched, -⟩ := matchAt_invocation invokes.isPath word rest
  obtain ⟨again, foundAgain, -, captured⟩ := matchAt_invocation invokes.isPath word []
  rw [List.append_nil] at foundAgain
  rw [replaceId, invokes.split, found]
  simp only [Option.bind_some, matched, foundAgain, captured, Option.getD_some, List.drop_left]
  rfl

/-- Any other line stays. -/
theorem replaceId_of_not (not : ∀ path literal rest, Invokes line path literal rest →
    ¬ ∀ char ∈ literal, Text.isWord char) : replaceId programPkStr line = (line, false) := by
  have missing : rustDeclareIdRegex.matchAt line = none := by
    by_contra found
    obtain ⟨result, found⟩ := Option.ne_none_iff_exists'.mp found
    obtain ⟨text, ⟨rest, rfl⟩, matched⟩ := Pattern.matches_of_matchAt found
    obtain ⟨path, literal, rfl, isPath, word⟩ := invokes_of_matches matched
    refine not path literal rest ⟨rfl, isPath, fun char member => ?_⟩ word
    exact ⟨isWord_ne (word char member) (by decide), isWord_ne (word char member) (by decide)⟩
  rw [replaceId, missing]
  rfl

/-! ## The lines that are updated -/

/-- An earlier line has the marker that opens a block comment, and from that line on no line has
the one that closes it. -/
def LeavesOpen (lines : List Text) : Prop :=
  ∃ before line after, lines = before ++ line :: after ∧ openComment <:+: line ∧
    ∀ later ∈ line :: after, ¬ closeComment <:+: later

/-- A comment is open after a line that does not close it. -/
theorem insideAfter_eq_true {inside : Bool} : insideAfter inside line = true ↔
    (inside = true ∨ openComment <:+: line) ∧ ¬ closeComment <:+: line := by
  rw [insideAfter, Bool.and_eq_true, Bool.or_eq_true, Bool.not_eq_true', ← Bool.not_eq_true,
    Text.includes_iff, Text.includes_iff]

/-- A comment stays open over one more line unless it closes it. -/
theorem leavesOpen_concat {lines : List Text} : LeavesOpen (lines ++ [line]) ↔
    (LeavesOpen lines ∨ openComment <:+: line) ∧ ¬ closeComment <:+: line := by
  constructor
  · rintro ⟨before, opening, after, split, opens, open_⟩
    induction after using List.reverseRecOn with
    | nil =>
        obtain ⟨-, rfl⟩ := List.append_inj' split rfl |>.imp_right List.singleton_inj.mp
        exact ⟨.inr opens, open_ line List.mem_cons_self⟩
    | append_singleton after last =>
        rw [← List.cons_append, ← List.append_assoc] at split
        obtain ⟨rfl, same⟩ := List.append_inj' split rfl
        obtain rfl := List.singleton_inj.mp same
        refine ⟨.inl ⟨before, opening, after, rfl, opens, fun later member => open_ later ?_⟩,
          open_ line (by simp)⟩
        rw [← List.cons_append]
        exact List.mem_append_left _ member
  · rintro ⟨⟨before, opening, after, rfl, opens, open_⟩ | opens, notClosed⟩
    · refine ⟨before, opening, after ++ [line], by simp, opens, ?_⟩
      rw [← List.cons_append, List.forall_mem_append, List.forall_mem_singleton]
      exact ⟨open_, notClosed⟩
    · exact ⟨lines, line, [], rfl, opens, List.forall_mem_singleton.mpr notClosed⟩

/-- What the loop keeps track of. -/
theorem foldl_insideAfter (lines : List Text) :
    lines.foldl insideAfter false = true ↔ LeavesOpen lines := by
  induction lines using List.reverseRecOn with
  | nil => exact iff_of_false Bool.false_ne_true fun ⟨before, line, after, split, _⟩ => by simp at split
  | append_singleton lines line ih =>
      rw [List.foldl_append, List.foldl_cons, List.foldl_nil, insideAfter_eq_true, ih, leavesOpen_concat]

/-- The loop, line by line. -/
theorem getElem?_updateLines (inside : Bool) (lines : List Text) (index : Nat) :
    (updateLines programPkStr inside lines).1[index]? = lines[index]?.map fun line =>
      (updateLine programPkStr ((lines.take index).foldl insideAfter inside) line).1 := by
  induction lines generalizing inside index with
  | nil => rfl
  | cons line rest ih =>
      cases index with
      | zero => rfl
      | succ index =>
          rw [updateLines, List.getElem?_cons_succ, List.getElem?_cons_succ, ih]
          rfl

/-- A source is updated when some line of it is. -/
theorem updated_iff (inside : Bool) (lines : List Text) :
    (updateLines programPkStr inside lines).2 = true ↔ ∃ index line, lines[index]? = some line ∧
      (updateLine programPkStr ((lines.take index).foldl insideAfter inside) line).2 = true := by
  induction lines generalizing inside with
  | nil => simp [updateLines]
  | cons line rest ih =>
      rw [updateLines, Bool.or_eq_true, ih]
      constructor
      · rintro (here | ⟨index, later, found, updated⟩)
        · exact ⟨0, line, rfl, here⟩
        · exact ⟨index + 1, later, found, updated⟩
      · rintro ⟨index, later, found, updated⟩
        cases index with
        | zero =>
            cases found
            exact .inl updated
        | succ index => exact .inr ⟨index, later, found, updated⟩

/-- A word character is no white space. -/
theorem isSpace_of_isWord {char : Char} (word : Text.isWord char = true) : Text.isSpace char = false := by
  have range : 48 ≤ char.toNat ∧ char.toNat ≤ 122 := by
    simp only [Text.isWord, Bool.or_eq_true, Text.isAlphanum_iff, decide_eq_true_eq] at word
    rcases word with ascii | rfl
    · omega
    · decide
  simp only [Text.isSpace, Bool.or_eq_false_iff, Bool.and_eq_false_imp, beq_eq_false_iff_ne,
    decide_eq_true_eq, decide_eq_false_iff_not]
  omega

/-- A line that starts with an invocation is no line comment. -/
theorem Invokes.no_comment (invokes : Invokes line path literal rest) :
    Text.startsWith (line.dropWhile Text.isSpace) "//".toList = false := by
  obtain ⟨char, tail, rfl, word⟩ : ∃ char tail, line = char :: tail ∧ Text.isWord char = true := by
    obtain ⟨segments, words, rfl⟩ := invokes.isPath
    rw [invokes.split, invocation]
    cases segments with
    | nil => exact ⟨'d', _, rfl, by decide⟩
    | cons segment segments =>
        obtain ⟨nonempty, word⟩ := words segment List.mem_cons_self
        obtain ⟨char, tail, rfl⟩ := List.exists_cons_of_ne_nil nonempty
        exact ⟨char, _, rfl, word char List.mem_cons_self⟩
  rw [List.dropWhile_cons_of_neg (by simp [isSpace_of_isWord word])]
  have other : char ≠ '/' := isWord_ne word (by decide)
  rw [Text.startsWith, Bool.eq_false_iff, ne_eq, List.isPrefixOf_iff_prefix]
  intro starts
  exact other (List.cons_prefix_cons.mp starts).1.symm

/-- The lines of a source. -/
def linesOf (source : Text) : List Text := source.splitOn '\n'

/-- The line starts with an invocation whose literal is a word, has no marker that opens a block
comment, and no earlier line leaves one open. -/
def Offers (lines : List Text) (index : Nat) : Prop :=
  ∃ line path literal rest, lines[index]? = some line ∧ Invokes line path literal rest ∧
    (∀ char ∈ literal, Text.isWord char) ∧ ¬ openComment <:+: line ∧ ¬ LeavesOpen (lines.take index)

/-- The line starts with an invocation that is code: it starts in no comment and in no string. -/
def IsInvocation (lines : List Text) (index : Nat) : Prop :=
  ∃ line path literal rest, lines[index]? = some line ∧ Invokes line path literal rest ∧
    RustSource.endsInCode ((lines.take index).flatMap fun line => line ++ ['\n']) = true

/-- The id takes the place of the literal of the invocation in the line, and nothing else changes. -/
def Replaces (programPkStr before : Text) (index : Nat) (after : Text) : Prop :=
  ∃ line path literal rest, (linesOf before)[index]? = some line ∧ Invokes line path literal rest ∧
    after = ['\n'].intercalate ((linesOf before).set index (invocation path programPkStr ++ rest))

/-- One invocation that is code is updated, and if there is none nothing is. -/
structure UpdatesRightly (programPkStr source : Text) (result : Text × Bool) : Prop where
  updated : result.2 = true ↔ ∃ index, IsInvocation (linesOf source) index
  kept : result.2 = false → result.1 = source
  replaced : result.2 = true →
    ∃ index, IsInvocation (linesOf source) index ∧ Replaces programPkStr source index result.1

section Updates

variable {source : Text} {lines : List Text} {index : Nat}

/-- An offered invocation is rewritten. -/
theorem updateLine_of_offered (found : lines[index]? = some line) (invokes : Invokes line path literal rest)
    (offers : Offers lines index) :
    updateLine programPkStr ((lines.take index).foldl insideAfter false) line =
      (invocation path programPkStr ++ rest, true) := by
  obtain ⟨line', path', literal', rest', found', invokes', word, unmarked, outside⟩ := offers
  obtain rfl := Option.some.inj (found.symm.trans found')
  obtain ⟨rfl, rfl, rfl⟩ := invokes.unique invokes'
  have before : (lines.take index).foldl insideAfter false = false := by
    rwa [← Bool.not_eq_true, foldl_insideAfter]
  have noMarker : line.includes openComment = false := by
    rwa [← Bool.not_eq_true, Text.includes_iff]
  rw [updateLine, before, noMarker, if_neg (by simp), invokes.no_comment, if_neg (by simp)]
  exact replaceId_of_invokes invokes word

/-- A line without an offered invocation stays. -/
theorem updateLine_of_not_offered (found : lines[index]? = some line) (not : ¬ Offers lines index) :
    updateLine programPkStr ((lines.take index).foldl insideAfter false) line = (line, false) := by
  rw [updateLine]
  split
  · rfl
  next outside =>
    split
    · rfl
    · refine replaceId_of_not fun path literal rest invokes word => not ?_
      rw [Bool.or_eq_true, not_or, foldl_insideAfter, Text.includes_iff] at outside
      exact ⟨line, path, literal, rest, found, invokes, word, outside.2, outside.1⟩

/-- The id is updated if the markers leave a line. -/
theorem updated_iff_offers : (updateIdRust programPkStr source).2 = true ↔
    ∃ index, Offers (linesOf source) index := by
  rw [updateIdRust, updated_iff]
  refine exists_congr fun index => ?_
  constructor
  · rintro ⟨line, found, updated⟩
    by_contra not
    rw [updateLine_of_not_offered found not] at updated
    cases updated
  · rintro ⟨line, path, literal, rest, found, invokes, offered⟩
    exact ⟨line, found, congrArg Prod.snd (updateLine_of_offered found invokes
      ⟨line, path, literal, rest, found, invokes, offered⟩)⟩

/-- A line that is offered gets the id, and any other line stays. -/
theorem getElem?_updated (found : lines[index]? = some line) (invokes : Invokes line path literal rest)
    (offers : Offers lines index) :
    (updateLines programPkStr false lines).1[index]? = some (invocation path programPkStr ++ rest) := by
  rw [getElem?_updateLines, found, Option.map_some, updateLine_of_offered found invokes offers]

/-- A line without an offered invocation stands where it stood. -/
theorem getElem?_not_updated (not : ¬ Offers lines index) :
    (updateLines programPkStr false lines).1[index]? = lines[index]? := by
  rw [getElem?_updateLines]
  cases found : lines[index]? with
  | none => rfl
  | some line => rw [Option.map_some, updateLine_of_not_offered found not]

/-- A source keeps its lines. -/
theorem updateLines_ne_nil {inside : Bool} (nonempty : lines ≠ []) :
    (updateLines programPkStr inside lines).1 ≠ [] := by
  cases lines with
  | nil => exact absurd rfl nonempty
  | cons line rest => exact List.cons_ne_nil _ _

/-- The updated content is its lines put together. -/
theorem content_updateIdRust : (updateIdRust programPkStr source).1 =
    ['\n'].intercalate (updateLines programPkStr false (linesOf source)).1 := rfl

/-- Lines put together determine the lines. -/
theorem intercalate_inj {first second : List Text} (noneFirst : ∀ line ∈ first, '\n' ∉ line)
    (noneSecond : ∀ line ∈ second, '\n' ∉ line) (firstNonempty : first ≠ [])
    (secondNonempty : second ≠ [])
    (same : ['\n'].intercalate first = ['\n'].intercalate second) : first = second := by
  rw [← List.splitOn_intercalate '\n' noneFirst firstNonempty, same,
    List.splitOn_intercalate '\n' noneSecond secondNonempty]

/-- Another literal does not end the line. -/
theorem Invokes.one_line {literal' : Text} (invokes : Invokes line path literal rest)
    (noEnd : '\n' ∉ line) (noEndLiteral : '\n' ∉ literal') : '\n' ∉ invocation path literal' ++ rest := by
  have fixed : '\n' ∉ declareId ∧ '\n' ∉ closing := by decide
  rw [invokes.split] at noEnd
  simp only [invocation, List.mem_append, not_or] at noEnd ⊢
  exact ⟨⟨noEnd.1.1, fixed.1, noEndLiteral, fixed.2⟩, noEnd.2⟩

/-- A line has no line feed. -/
theorem no_end_of_mem_linesOf (member : line ∈ linesOf source) : '\n' ∉ line :=
  Text.not_mem_of_mem_splitOn member

/-- Every source has a line. -/
theorem linesOf_ne_nil (source : Text) : linesOf source ≠ [] := List.splitOn_ne_nil _ _

/-- An id that no literal of the source is long enough for. -/
def freshId (source : Text) : Text := List.replicate (source.length + 1) 'a'

/-- An invocation of a fresh id is not in the source. -/
theorem freshId_ne (found : (linesOf source)[index]? = some line) :
    invocation path (freshId source) ++ rest ≠ line := by
  intro same
  have long : line.length ≤ source.length := by
    have part := @UnixPath.infix_intercalate ['\n'] _ _ (List.mem_of_getElem? found)
    rw [linesOf, List.intercalate_splitOn] at part
    exact part.length_le
  rw [← same] at long
  simp only [invocation, freshId, List.length_append, List.length_replicate] at long
  omega

/-- A source with a line that is offered holds the id afterwards. -/
theorem length_lt_updateIdRust (offers : Offers (linesOf source) index) :
    programPkStr.length < (updateIdRust programPkStr source).1.length := by
  obtain ⟨line, path, literal, rest, found, invokes, -⟩ := id offers
  have at_ := @getElem?_updated programPkStr _ _ _ _ _ _ found invokes offers
  have part := @UnixPath.infix_intercalate ['\n'] _ _ (List.mem_of_getElem? at_)
  rw [← content_updateIdRust] at part
  refine Nat.lt_of_lt_of_le ?_ part.length_le
  have mark : 0 < closing.length := by decide
  simp only [invocation, List.length_append]
  omega

/-- If one line is offered, the id takes its place there. -/
theorem replaces_of_offers (isInvocation : IsInvocation (linesOf source) index)
    (offers : ∀ other, Offers (linesOf source) other ↔ other = index) :
    Replaces programPkStr source index (updateIdRust programPkStr source).1 := by
  obtain ⟨line, path, literal, rest, found, invokes, -⟩ := isInvocation
  refine ⟨line, path, literal, rest, found, invokes, ?_⟩
  rw [content_updateIdRust]
  congr 1
  ext1 other
  by_cases here : other = index
  · subst here
    have within := (List.getElem?_eq_some_iff.mp found).1
    rw [List.getElem?_set_self within]
    exact getElem?_updated found invokes ((offers other).mpr rfl)
  · rw [List.getElem?_set_ne (Ne.symm here)]
    exact getElem?_not_updated fun offered => here ((offers other).mp offered)

/-- Where an id that is nowhere in the source takes the place of one literal only, no other line
is offered. -/
theorem offers_of_replaces
    (replaces : Replaces (freshId source) source index (updateIdRust (freshId source) source).1) :
    ∀ other, Offers (linesOf source) other ↔ other = index := by
  obtain ⟨line, path, literal, rest, found, invokes, same⟩ := replaces
  have fresh : '\n' ∉ freshId source := by simp [freshId]
  have noEnds : ∀ line ∈ (updateLines (freshId source) false (linesOf source)).1, '\n' ∉ line := by
    intro line member
    obtain ⟨index, at_⟩ := List.mem_iff_getElem?.mp member
    by_cases offers : Offers (linesOf source) index
    · obtain ⟨before, path, literal, rest, found, invokes, -⟩ := id offers
      rw [getElem?_updated found invokes offers, Option.some.injEq] at at_
      rw [← at_]
      exact invokes.one_line (no_end_of_mem_linesOf (List.mem_of_getElem? found)) fresh
    · rw [getElem?_not_updated offers] at at_
      exact no_end_of_mem_linesOf (List.mem_of_getElem? at_)
  have noEndsSet : ∀ later ∈ (linesOf source).set index (invocation path (freshId source) ++ rest),
      '\n' ∉ later := by
    intro later member
    rcases List.mem_or_eq_of_mem_set member with before | rfl
    · exact no_end_of_mem_linesOf before
    · exact invokes.one_line (no_end_of_mem_linesOf (List.mem_of_getElem? found)) fresh
  have equal := intercalate_inj noEnds noEndsSet (updateLines_ne_nil (linesOf_ne_nil source))
    (by simp [linesOf_ne_nil]) same
  have atIndex : ∀ other : Nat, (updateLines (freshId source) false (linesOf source)).1[other]? =
      ((linesOf source).set index (invocation path (freshId source) ++ rest))[other]? :=
    fun other => by rw [equal]
  have offersHere : Offers (linesOf source) index := by
    by_contra not
    have here := atIndex index
    rw [getElem?_not_updated not, found,
      List.getElem?_set_self (List.getElem?_eq_some_iff.mp found).1, Option.some.injEq] at here
    exact freshId_ne found here.symm
  intro other
  constructor
  · intro offers
    by_contra different
    obtain ⟨before, path, literal, rest, found, invokes, -⟩ := id offers
    have there := atIndex other
    rw [getElem?_updated found invokes offers, List.getElem?_set_ne (Ne.symm different), found,
      Option.some.injEq] at there
    exact freshId_ne found there
  · rintro rfl
    exact offersHere

/-- A source without an offered invocation stays as it is. -/
theorem kept_of_not_offers (none_ : ∀ index, ¬ Offers (linesOf source) index) :
    (updateIdRust programPkStr source).1 = source := by
  have same : (updateLines programPkStr false (linesOf source)).1 = linesOf source := by
    ext1 index
    exact getElem?_not_updated (none_ index)
  rw [content_updateIdRust, same, linesOf, List.intercalate_splitOn]

/-- A source is updated rightly, whatever the id is, if the line that the markers leave is the
only one and is code, or if there is neither. -/
theorem updatesRightly_iff (source : Text) :
    (∀ programPkStr, UpdatesRightly programPkStr source (updateIdRust programPkStr source)) ↔
      ((∀ index, ¬ Offers (linesOf source) index) ∧ ∀ index, ¬ IsInvocation (linesOf source) index) ∨
        ∃ index, IsInvocation (linesOf source) index ∧
          ∀ other, Offers (linesOf source) other ↔ other = index := by
  constructor
  · intro rightly
    have right := rightly (freshId source)
    by_cases offered : ∃ index, Offers (linesOf source) index
    · obtain ⟨index, isInvocation, replaces⟩ := right.replaced (updated_iff_offers.mpr offered)
      exact .inr ⟨index, isInvocation, offers_of_replaces replaces⟩
    · refine .inl ⟨not_exists.mp offered, fun index isInvocation => offered ?_⟩
      exact updated_iff_offers.mp (right.updated.mpr ⟨index, isInvocation⟩)
  · rintro (⟨noOffer, noInvocation⟩ | ⟨index, isInvocation, offers⟩) programPkStr
    · refine ⟨?_, fun _ => kept_of_not_offers noOffer, fun updated => ?_⟩
      · rw [updated_iff_offers]
        exact iff_of_false (not_exists.mpr noOffer) (not_exists.mpr noInvocation)
      · exact absurd (updated_iff_offers.mp updated) (not_exists.mpr noOffer)
    · have updated : (updateIdRust programPkStr source).2 = true :=
        updated_iff_offers.mpr ⟨index, (offers index).mpr rfl⟩
      refine ⟨iff_of_true updated ⟨index, isInvocation⟩, fun not => ?_,
        fun _ => ⟨index, isInvocation, replaces_of_offers isInvocation offers⟩⟩
      rw [updated] at not
      cases not

end Updates

end Solpg.Client.Commands.BuildFiles
