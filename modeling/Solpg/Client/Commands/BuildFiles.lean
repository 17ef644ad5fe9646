import Mathlib.Algebra.Order.BigOperators.Group.List
import Mathlib.Algebra.Order.Group.Nat
import Mathlib.Data.Bool.AllAny
import Solpg.Client.Commands.DeclareId
import Solpg.Client.Components.MonacoWorkspace
import Solpg.Client.Utils.Explorer.State

/-!
# The files of a build request

`getBuildFiles` of `commands/build/build.ts`: the files below `src` in the order in which the
program id is looked for, with the id in the first of them that has a place for it.
-/

namespace Solpg.Client.Commands.BuildFiles

open Solpg.Std Solpg.Client.Utils PgCommon

/-! ## Python -/

/-- `declare_id(`. -/
def callName : Text := "declare_id(".toList

/-- The class of the two quotation marks in the regular expression. -/
def quotationMark : Pattern Char := .alt (.symbol (· == '"')) (.symbol (· == '\''))

/-- `/^declare_id\(("|')(\w*)("|')\)/gm` without its anchor, with the whole match as its group 0. -/
def pythonDeclareIdRegex : Pattern Char :=
  .group 0 (.sequence [.literal callName, .group 1 quotationMark, .group 2 (.many Text.isWord),
    .group 3 quotationMark, .literal [')']])

/-- The match at the start of a line. -/
def pythonMatchAt (start : Bool) (text : Text) : Option Text :=
  if start then (pythonDeclareIdRegex.matchAt text).bind fun captures => captures 0 else none

/-- The matches of the expression, with the characters between them. `start` says whether a line
starts here, and `consumed` how many characters are part of the last match. -/
def pythonPieces : (start : Bool) → (consumed : Nat) → Text → List (Char ⊕ Text)
  | _, _, [] => []
  | _, consumed + 1, char :: rest => pythonPieces (Text.isLineTerminator char) consumed rest
  | start, 0, char :: rest =>
      match pythonMatchAt start (char :: rest) with
      | some matched => .inr matched ::
          pythonPieces (Text.isLineTerminator char) (matched.length - 1) rest
      | none => .inl char :: pythonPieces (Text.isLineTerminator char) 0 rest

/-- Where a line starts. -/
def startsLine (text : Text) (index : Nat) : Bool :=
  match index with
  | 0 => true
  | index + 1 => (text[index]?).any Text.isLineTerminator

/-- `pythonDeclareIdRegex.exec`, which starts at `lastIndex`: whether it matches, and `lastIndex`
after it. -/
def pythonExec (lastIndex : Nat) (text : Text) : Bool × Nat :=
  let matches_ := (List.range' lastIndex (text.length + 1 - lastIndex)).filterMap fun index =>
    (pythonMatchAt (startsLine text index) (text.drop index)).map fun matched => index + matched.length
  match matches_ with
  | end_ :: _ => (true, end_)
  | [] => (false, 0)

/-- `declare_id('literal')`. -/
def call (literal : Text) : Text := callName ++ ('\'' :: (literal ++ ['\'', ')']))

/-- The replacement of each match, with the `lastIndex` that the one before has left. -/
def replacePieces (programPkStr : Text) : (lastIndex : Nat) → List (Char ⊕ Text) → Text × Bool
  | _, [] => ([], false)
  | lastIndex, .inl char :: rest =>
      let (content, updated) := replacePieces programPkStr lastIndex rest
      (char :: content, updated)
  | lastIndex, .inr matched :: rest =>
      let (found, lastIndex) := pythonExec lastIndex matched
      let (content, updated) := replacePieces programPkStr lastIndex rest
      if found then (call programPkStr ++ content, true)
      else (matched ++ content, updated)

/-- The replacement of `declare_id` calls in a Python file. -/
def updateIdPython (programPkStr content : Text) : Text × Bool :=
  replacePieces programPkStr 0 (pythonPieces true 0 content)

/-! ## The files -/

/-- The path has the Rust extension. -/
def IsRust (path : Text) : Prop := Components.PgLanguage.getFromPath path = some "Rust".toList

/-- The path has the Python extension. -/
def IsPython (path : Text) : Prop := Components.PgLanguage.getFromPath path = some "Python".toList

instance (path : Text) : Decidable (IsRust path) := inferInstanceAs (Decidable (_ = _))

instance (path : Text) : Decidable (IsPython path) := inferInstanceAs (Decidable (_ = _))

/-- An empty content is not looked at. -/
def getUpdatedProgramIdContent (programPkStr path content : Text) : Text × Bool :=
  if content = [] then (content, false)
  else if IsRust path then updateIdRust programPkStr content
  else if IsPython path then updateIdPython programPkStr content
  else (content, false)

/-- Prioritize files where we are likely to find a rust `declare_id!`. -/
def prioritizedFileNames : List Text := ["lib.rs".toList, "id.rs".toList]

/-- The files in which a program id is declared by convention come first. -/
def prioritizedFilePaths (paths : List Text) : List Text :=
  paths.foldl (fun acc path =>
    if prioritizedFileNames.any fun name => path.endsWith name then path :: acc else acc ++ [path]) []

/-- The loop over the paths that are left. -/
def buildFilesFrom (self : PgExplorer) (programPkStr : Text) :
    (alreadyUpdatedId : Bool) → List Text → Except JsError (List (Text × Text))
  | _, [] => .ok []
  | alreadyUpdatedId, path :: rest => do
      let srcPath ← self.getCurrentSrcPath
      if !path.startsWith srcPath then buildFilesFrom self programPkStr alreadyUpdatedId rest
      else
        match self.files.item path with
        | none => .error (.ofMessage "Cannot read properties of undefined (reading 'content')")
        | some item =>
            match item.content with
            | none => buildFilesFrom self programPkStr alreadyUpdatedId rest
            | some content => do
                let (content, alreadyUpdatedId) :=
                  if alreadyUpdatedId then (content, true)
                  else getUpdatedProgramIdContent programPkStr path content
                if content = [] then buildFilesFrom self programPkStr alreadyUpdatedId rest
                else
                  let relative ← self.getRelativePath path
                  let buildFiles ← buildFilesFrom self programPkStr alreadyUpdatedId rest
                  return (joinPaths slash relative, content) :: buildFiles

/-- Get the files necessary for the build process. The id is the one of the program info, or the
one that is made for it. -/
def getBuildFiles (self : PgExplorer) (programPkStr : Text) : Except JsError (List (Text × Text)) :=
  buildFilesFrom self programPkStr false (prioritizedFilePaths self.files.keys)

/-! ## What happens to a Python source -/

section Python

variable {programPkStr content matched text : Text} {pieces : List (Char ⊕ Text)} {lastIndex : Nat}

/-- `declare_id('literal')`, with either quotation mark. -/
def IsCall (text : Text) : Prop :=
  ∃ first literal last, (first = '"' ∨ first = '\'') ∧ (last = '"' ∨ last = '\'') ∧
    (∀ char ∈ literal, Text.isWord char) ∧
      text = callName ++ (first :: (literal ++ [last, ')']))

/-- A matched quotation mark is one of the two. -/
theorem quotationMark_of_matches {captures after : Pattern.Captures Char}
    (matched : quotationMark.Matches captures text after) :
    ∃ mark, (mark = '"' ∨ mark = '\'') ∧ text = [mark] := by
  cases matched with
  | altFirst first =>
      cases first with
      | symbol member => exact ⟨_, .inl (eq_of_beq member), rfl⟩
  | altSecond second =>
      cases second with
      | symbol member => exact ⟨_, .inr (eq_of_beq member), rfl⟩

/-- What the expression matches is a call, and the whole of it is captured. -/
theorem isCall_of_matches {captures after : Pattern.Captures Char}
    (matched : pythonDeclareIdRegex.Matches captures text after) : IsCall text ∧ after 0 = some text := by
  cases matched with
  | group inner =>
      refine ⟨?_, Function.update_self ..⟩
      cases inner with
      | seq name rest =>
          cases rest with
          | seq first rest =>
              cases first with
              | group first =>
                  obtain ⟨firstMark, isFirst, rfl⟩ := quotationMark_of_matches first
                  cases rest with
                  | seq literal rest =>
                      cases literal with
                      | group word =>
                          cases rest with
                          | seq last rest =>
                              cases last with
                              | group last =>
                                  obtain ⟨lastMark, isLast, rfl⟩ := quotationMark_of_matches last
                                  cases rest with
                                  | seq close empty =>
                                      cases empty
                                      rw [Pattern.matches_literal name, Pattern.matches_literal close]
                                      exact ⟨firstMark, _, lastMark, isFirst, isLast,
                                        Pattern.matches_many word, by simp⟩

/-- What is matched is a call that stands there. -/
theorem isCall_of_pythonMatchAt {start : Bool} (found : pythonMatchAt start text = some matched) :
    IsCall matched ∧ matched <+: text := by
  rw [pythonMatchAt] at found
  split at found
  next =>
    obtain ⟨captures, at_, whole⟩ := Option.bind_eq_some_iff.mp found
    obtain ⟨inner, within, matches_⟩ := Pattern.matches_of_matchAt at_
    obtain ⟨isCall, same⟩ := isCall_of_matches matches_
    obtain rfl := Option.some.inj (same.symm.trans whole)
    exact ⟨isCall, within⟩
  next => cases found

/-- The text a piece stands for. -/
def pieceText : Char ⊕ Text → Text
  | .inl char => [char]
  | .inr matched => matched

/-- The matches among the pieces. -/
def matchesOf (pieces : List (Char ⊕ Text)) : List Text := pieces.filterMap Sum.getRight?

/-- A call is not empty. -/
theorem IsCall.ne_nil (isCall : IsCall text) : text ≠ [] := by
  obtain ⟨first, literal, last, -, -, -, rfl⟩ := isCall
  simp

/-- The pieces of a text put together give the text again. -/
theorem pieceText_pythonPieces (start : Bool) (consumed : Nat) (text : Text) :
    (pythonPieces start consumed text).flatMap pieceText = text.drop consumed := by
  induction text generalizing start consumed with
  | nil => simp [pythonPieces]
  | cons char rest ih =>
      cases consumed with
      | succ consumed => rw [pythonPieces, ih, List.drop_succ_cons]
      | zero =>
          rw [pythonPieces]
          cases found : pythonMatchAt start (char :: rest) with
          | none => simp [ih, pieceText]
          | some matched =>
              obtain ⟨isCall, after, split⟩ := isCall_of_pythonMatchAt found
              obtain ⟨head, tail, rfl⟩ := List.exists_cons_of_ne_nil isCall.ne_nil
              rw [List.cons_append] at split
              obtain ⟨rfl, rfl⟩ := List.cons.inj split
              simp [ih, pieceText]

@[simp] theorem matchesOf_inl (char : Char) (rest : List (Char ⊕ Text)) :
    matchesOf (.inl char :: rest) = matchesOf rest := rfl

@[simp] theorem matchesOf_inr (matched : Text) (rest : List (Char ⊕ Text)) :
    matchesOf (.inr matched :: rest) = matched :: matchesOf rest := rfl

/-- Every match in a text is a call. -/
theorem isCall_of_mem (start : Bool) (consumed : Nat) (text : Text) :
    ∀ matched ∈ matchesOf (pythonPieces start consumed text), IsCall matched := by
  induction text generalizing start consumed with
  | nil => exact List.forall_mem_nil _
  | cons char rest ih =>
      cases consumed with
      | succ consumed => exact ih _ _
      | zero =>
          rw [pythonPieces]
          cases found : pythonMatchAt start (char :: rest) with
          | none => exact ih _ _
          | some matched =>
              dsimp only
              rw [matchesOf_inr, List.forall_mem_cons]
              exact ⟨(isCall_of_pythonMatchAt found).1, ih _ _⟩

/-- Both quotation marks are taken. -/
theorem takes_quotationMark {mark : Char} (isMark : mark = '"' ∨ mark = '\'')
    (captures : Pattern.Captures Char) (rest : Text) :
    quotationMark.Takes captures [mark] captures rest := by
  rcases isMark with rfl | rfl
  · exact Pattern.Takes.altFirst fun _ _ found => found
  · refine Pattern.Takes.altSecond (fun _ _ => rfl) fun _ _ found => found

/-- The expression takes a call wherever one stands. -/
theorem takes_call (isCall : IsCall text) (rest : Text) : ∃ after : Pattern.Captures Char,
    after 0 = some text ∧ pythonDeclareIdRegex.Takes (fun _ => none) text after rest := by
  obtain ⟨first, literal, last, isFirst, isLast, word, rfl⟩ := isCall
  refine ⟨_, Function.update_self .., Pattern.Takes.group (Pattern.Takes.cons (.literal _)
    (Pattern.Takes.cons (Pattern.Takes.group (takes_quotationMark isFirst _ _))
      (Pattern.Takes.cons (Pattern.Takes.group (.many word ?_))
        (Pattern.Takes.cons (Pattern.Takes.group (takes_quotationMark isLast _ _))
          (.single (.literal [')']))))))⟩
  rintro item ⟨⟩
  rcases isLast with rfl | rfl <;> rfl

/-- A call at the start of a line is matched. -/
theorem pythonMatchAt_of_isCall (isCall : IsCall text) : pythonMatchAt true text = some text := by
  obtain ⟨after, whole, takes⟩ := takes_call isCall []
  have found := takes (fun _ captures => some captures) after rfl
  rw [List.append_nil] at found
  rw [pythonMatchAt, if_pos rfl, Pattern.matchAt, found, Option.bind_some, whole]

/-- A call stands on one line. -/
theorem no_lineTerminator_of_isCall (isCall : IsCall text) :
    ∀ char ∈ text, Text.isLineTerminator char = false := by
  obtain ⟨first, literal, last, isFirst, isLast, word, rfl⟩ := isCall
  have marks : ∀ mark, mark = '"' ∨ mark = '\'' → Text.isLineTerminator mark = false := by
    rintro mark (rfl | rfl) <;> rfl
  intro char member
  rcases List.mem_append.mp member with name | member
  · have free : ∀ char ∈ callName, Text.isLineTerminator char = false :=
      List.all_iff_forall_prop.mp (by decide)
    exact free char name
  rcases List.mem_cons.mp member with rfl | member
  · exact marks _ isFirst
  rcases List.mem_append.mp member with inWord | member
  · have wordChar := word char inWord
    simp only [Text.isLineTerminator, Bool.or_eq_false_iff, decide_eq_false_iff_not]
    exact ⟨⟨⟨isWord_ne wordChar rfl, isWord_ne wordChar rfl⟩, isWord_ne wordChar rfl⟩,
      isWord_ne wordChar rfl⟩
  rcases List.mem_cons.mp member with rfl | member
  · exact marks _ isLast
  · rw [List.mem_singleton.mp member]
    rfl

/-- From the start of a match `exec` finds it again. -/
theorem pythonExec_zero (isCall : IsCall text) : pythonExec 0 text = (true, text.length) := by
  have first : (pythonMatchAt (startsLine text 0) (text.drop 0)).map (fun matched => 0 + matched.length) =
      some text.length := by
    rw [startsLine, List.drop_zero, pythonMatchAt_of_isCall isCall, Option.map_some, Nat.zero_add]
  rw [pythonExec, Nat.sub_zero, List.range'_succ]
  simp only [List.filterMap_cons, first]

/-- From anywhere else it does not. -/
theorem pythonExec_of_pos (isCall : IsCall text) (later : 0 < lastIndex) :
    pythonExec lastIndex text = (false, 0) := by
  have nothing : ∀ index ∈ List.range' lastIndex (text.length + 1 - lastIndex),
      (pythonMatchAt (startsLine text index) (text.drop index)).map
        (fun matched => index + matched.length) = none := by
    intro index member
    obtain ⟨above, -⟩ := List.mem_range'_1.mp member
    obtain ⟨index, rfl⟩ := Nat.exists_eq_add_of_lt (later.trans_le above)
    have inside : startsLine text (0 + index + 1) = false := by
      rw [startsLine]
      cases at_ : text[0 + index]? with
      | none => rfl
      | some char => exact no_lineTerminator_of_isCall isCall char (List.mem_of_getElem? at_)
    rw [inside]
    rfl
  rw [pythonExec, List.filterMap_eq_nil_iff.mpr nothing]

/-! ### The replacements -/

/-- A call has characters. -/
theorem IsCall.length_pos (isCall : IsCall text) : 0 < text.length :=
  List.length_pos_of_ne_nil isCall.ne_nil

/-- Without a match the text is put together unchanged. -/
theorem replacePieces_of_none (none_ : matchesOf pieces = []) :
    replacePieces programPkStr lastIndex pieces = (pieces.flatMap pieceText, false) := by
  induction pieces with
  | nil => rfl
  | cons piece rest ih =>
      cases piece with
      | inl char =>
          rw [replacePieces, ih none_]
          rfl
      | inr matched => cases none_

/-- The match after one that was replaced stays. -/
theorem replacePieces_of_one (calls : ∀ matched ∈ matchesOf pieces, IsCall matched)
    (later : 0 < lastIndex) (one : (matchesOf pieces).length ≤ 1) :
    replacePieces programPkStr lastIndex pieces = (pieces.flatMap pieceText, false) := by
  induction pieces with
  | nil => rfl
  | cons piece rest ih =>
      cases piece with
      | inl char =>
          rw [replacePieces, ih calls one]
          rfl
      | inr matched =>
          rw [matchesOf_inr, List.length_cons] at one
          have none_ : matchesOf rest = [] := List.eq_nil_of_length_eq_zero (by omega)
          rw [replacePieces, pythonExec_of_pos (calls matched List.mem_cons_self) later]
          dsimp only
          rw [replacePieces_of_none none_]
          rfl

/-- Of two matches the first one is replaced. -/
theorem replacePieces_of_two (calls : ∀ matched ∈ matchesOf pieces, IsCall matched)
    (some_ : matchesOf pieces ≠ []) (two : (matchesOf pieces).length ≤ 2) :
    ∃ before matched after, IsCall matched ∧ pieces.flatMap pieceText = before ++ (matched ++ after) ∧
      replacePieces programPkStr 0 pieces = (before ++ (call programPkStr ++ after), true) := by
  induction pieces with
  | nil => exact absurd rfl some_
  | cons piece rest ih =>
      cases piece with
      | inl char =>
          obtain ⟨before, matched, after, isCall, whole, replaced⟩ := ih calls some_ two
          refine ⟨char :: before, matched, after, isCall, ?_, ?_⟩
          · rw [List.flatMap_cons, whole]
            rfl
          · rw [replacePieces, replaced]
            rfl
      | inr matched =>
          rw [matchesOf_inr, List.forall_mem_cons] at calls
          rw [matchesOf_inr, List.length_cons] at two
          refine ⟨[], matched, rest.flatMap pieceText, calls.1, List.flatMap_cons, ?_⟩
          have others := @replacePieces_of_one programPkStr _ _ calls.2 calls.1.length_pos (by omega)
          rw [replacePieces, pythonExec_zero calls.1]
          dsimp only
          rw [others]
          rfl

/-- The length of `declare_id(`. -/
theorem length_callName : callName.length = 11 := by decide

/-- The length of a call beside its literal. -/
theorem length_call (literal : Text) : (call literal).length = literal.length + 14 := by
  simp only [call, List.length_append, List.length_cons, List.length_nil, length_callName]
  omega

/-- A call is at least as long as one of an empty literal. -/
theorem IsCall.length_ge (isCall : IsCall text) : 14 ≤ text.length := by
  obtain ⟨first, literal, last, -, -, -, rfl⟩ := isCall
  simp only [List.length_append, List.length_cons, List.length_nil, length_callName]
  omega

/-- Every second match is replaced. -/
theorem length_replacePieces (calls : ∀ matched ∈ matchesOf pieces, IsCall matched) :
    (if lastIndex = 0 then ((matchesOf pieces).length + 1) / 2 else (matchesOf pieces).length / 2) *
      (call programPkStr).length ≤ (replacePieces programPkStr lastIndex pieces).1.length := by
  induction pieces generalizing lastIndex with
  | nil => simp [matchesOf]
  | cons piece rest ih =>
      cases piece with
      | inl char =>
          have longer := @ih lastIndex calls
          rw [replacePieces, matchesOf_inl]
          exact longer.trans (Nat.le_succ _)
      | inr matched =>
          rw [matchesOf_inr, List.forall_mem_cons] at calls
          rw [replacePieces, matchesOf_inr, List.length_cons]
          by_cases start : lastIndex = 0
          · have longer := @ih matched.length calls.2
            rw [if_neg calls.1.length_pos.ne'] at longer
            subst start
            rw [pythonExec_zero calls.1, if_pos rfl]
            simp only [if_true, List.length_append]
            rw [show ((matchesOf rest).length + 1 + 1) / 2 = (matchesOf rest).length / 2 + 1 by omega,
              Nat.succ_mul]
            omega
          · have longer := @ih 0 calls.2
            rw [if_pos rfl] at longer
            rw [pythonExec_of_pos calls.1 (Nat.pos_of_ne_zero start), if_neg start]
            simp only [Bool.false_eq_true, if_false, List.length_append]
            omega

/-- The `declare_id` calls the expression finds in a file. -/
def pythonMatches (content : Text) : List Text := matchesOf (pythonPieces true 0 content)

/-- The id takes the place of the literal of a call, and nothing else changes. -/
def ReplacesCall (programPkStr before after : Text) : Prop :=
  ∃ front matched back, IsCall matched ∧ before = front ++ (matched ++ back) ∧
    after = front ++ (call programPkStr ++ back)

/-- A file without a call stays as it is. -/
theorem updateIdPython_of_none (none_ : pythonMatches content = []) :
    updateIdPython programPkStr content = (content, false) := by
  rw [updateIdPython, replacePieces_of_none none_, pieceText_pythonPieces, List.drop_zero]

/-- Up to two calls are replaced one by one. -/
theorem updateIdPython_of_two (some_ : pythonMatches content ≠ [])
    (two : (pythonMatches content).length ≤ 2) :
    (updateIdPython programPkStr content).2 = true ∧
      ReplacesCall programPkStr content (updateIdPython programPkStr content).1 := by
  obtain ⟨front, matched, back, isCall, whole, replaced⟩ :=
    @replacePieces_of_two programPkStr _ (isCall_of_mem true 0 content) some_ two
  rw [pieceText_pythonPieces, List.drop_zero] at whole
  rw [updateIdPython, replaced]
  exact ⟨rfl, front, matched, back, isCall, whole, rfl⟩

/-- A Python file counts as updated exactly when it has a call. -/
theorem updatedPython_iff :
    (updateIdPython programPkStr content).2 = true ↔ pythonMatches content ≠ [] := by
  have calls := isCall_of_mem true 0 content
  rw [updateIdPython, pythonMatches]
  generalize pythonPieces true 0 content = pieces at calls
  induction pieces with
  | nil => exact iff_of_false Bool.false_ne_true fun some_ => some_ rfl
  | cons piece rest ih =>
      cases piece with
      | inl char => exact ih calls
      | inr matched =>
          rw [replacePieces, pythonExec_zero (calls matched List.mem_cons_self)]
          exact iff_of_true rfl (List.cons_ne_nil _ _)

/-- An updated file holds the whole new id. -/
theorem length_lt_updateIdPython (some_ : pythonMatches content ≠ []) :
    programPkStr.length < (updateIdPython programPkStr content).1.length := by
  have long := @length_replacePieces programPkStr _ 0 (isCall_of_mem true 0 content)
  have several : 0 < (matchesOf (pythonPieces true 0 content)).length := List.length_pos_of_ne_nil some_
  have once : (call programPkStr).length ≤ (updateIdPython programPkStr content).1.length :=
    (Nat.le_mul_of_pos_left _ (by rw [if_pos rfl]; omega)).trans long
  rw [length_call] at once
  omega

/-- Of more than two calls more than one is replaced. -/
theorem two_of_replacesCall
    (replaces : ReplacesCall (freshId content) content (updateIdPython (freshId content) content).1) :
    (pythonMatches content).length ≤ 2 := by
  by_contra many
  have long := @length_replacePieces (freshId content) _ 0 (isCall_of_mem true 0 content)
  obtain ⟨front, matched, back, isCall, before, after⟩ := replaces
  have lengthBefore := congrArg List.length before
  have lengthAfter := congrArg List.length after
  have longMatched := isCall.length_ge
  have twice : 2 * (call (freshId content)).length ≤
      (updateIdPython (freshId content) content).1.length := by
    rw [if_pos rfl] at long
    rw [pythonMatches] at many
    refine le_trans (Nat.mul_le_mul_right _ ?_) long
    omega
  simp only [List.length_append, length_call] at lengthBefore lengthAfter twice
  have fresh : (freshId content).length = content.length + 1 := List.length_replicate
  omega

end Python

/-! ## Which file gets the id -/

/-- The id is updated in the file. -/
def Hits (file : Text × Text) : Prop :=
  IsRust file.1 ∧ (∃ index, Offers (linesOf file.2) index) ∨
    IsPython file.1 ∧ pythonMatches file.2 ≠ []

/-- The file has one place for the id. -/
structure HitsOnce (file : Text × Text) : Prop where
  rust : IsRust file.1 → ∃ index, IsInvocation (linesOf file.2) index ∧
    ∀ other, Offers (linesOf file.2) other ↔ other = index
  python : IsPython file.1 → (pythonMatches file.2).length ≤ 2

/-- The id takes the place of one literal of the file. -/
def ReplacesOne (programPkStr path before after : Text) : Prop :=
  IsRust path ∧ (∃ index, IsInvocation (linesOf before) index ∧
      Replaces programPkStr before index after) ∨
    IsPython path ∧ ReplacesCall programPkStr before after

/-- The file is one of Rust with an invocation in code. -/
def Invoked (file : Text × Text) : Prop :=
  IsRust file.1 ∧ ∃ index, IsInvocation (linesOf file.2) index

section Contents

variable {programPkStr path content : Text}

/-- No file is both Rust and Python. -/
theorem not_rust_of_python (python : IsPython path) : ¬ IsRust path := fun rust =>
  absurd (Option.some.inj (python.symm.trans rust)) (by decide)

/-- An empty file has no declaration. -/
theorem not_hits_nil (path : Text) : ¬ Hits (path, []) := by
  rintro (⟨-, index, line, path, literal, rest, found, invokes, -⟩ | ⟨-, some_⟩)
  · have empty : line = [] := List.mem_singleton.mp (List.mem_of_getElem? found)
    have whole := invokes.split.symm.trans empty
    rw [invocation, List.append_eq_nil_iff, List.append_eq_nil_iff] at whole
    exact List.append_ne_nil_of_left_ne_nil (List.cons_ne_nil _ _) _ whole.1.2
  · exact some_ rfl

/-- A Rust file is updated by the macro replacement. -/
theorem updated_rust (rust : IsRust path) (nonempty : content ≠ []) :
    getUpdatedProgramIdContent programPkStr path content = updateIdRust programPkStr content := by
  rw [getUpdatedProgramIdContent, if_neg nonempty, if_pos rust]

/-- A Python file is updated by the call replacement. -/
theorem updated_python (python : IsPython path) (nonempty : content ≠ []) :
    getUpdatedProgramIdContent programPkStr path content = updateIdPython programPkStr content := by
  rw [getUpdatedProgramIdContent, if_neg nonempty, if_neg (not_rust_of_python python),
    if_pos python]

/-- A file with a declaration is not empty. -/
theorem Hits.nonempty (hits : Hits (path, content)) : content ≠ [] :=
  fun empty => not_hits_nil path (empty ▸ hits)

/-- A file without a place for the id stays. -/
theorem kept_of_not_hits (not : ¬ Hits (path, content)) :
    getUpdatedProgramIdContent programPkStr path content = (content, false) := by
  obtain ⟨notRust, notPython⟩ := not_or.mp not
  rw [getUpdatedProgramIdContent]
  split
  · rfl
  split
  next rust =>
    have none_ : ¬ ∃ index, Offers (linesOf content) index := fun offers => notRust ⟨rust, offers⟩
    refine Prod.ext (kept_of_not_offers (not_exists.mp none_)) ?_
    rw [← Bool.not_eq_true, updated_iff_offers]
    exact none_
  split
  next python =>
    exact updateIdPython_of_none (not_not.mp fun some_ => notPython ⟨python, some_⟩)
  next => rfl

/-- A file with a declaration counts as updated. -/
theorem updated_of_hits (hits : Hits (path, content)) :
    (getUpdatedProgramIdContent programPkStr path content).2 = true := by
  rcases id hits with ⟨rust, offers⟩ | ⟨python, some_⟩
  · rw [updated_rust rust hits.nonempty]
    exact updated_iff_offers.mpr offers
  · rw [updated_python python hits.nonempty]
    exact updatedPython_iff.mpr some_

/-- One that has a place holds the id afterwards. -/
theorem length_lt_of_hits (hits : Hits (path, content)) :
    programPkStr.length < (getUpdatedProgramIdContent programPkStr path content).1.length := by
  rcases id hits with ⟨rust, index, offers⟩ | ⟨python, some_⟩
  · rw [updated_rust rust hits.nonempty]
    exact length_lt_updateIdRust offers
  · rw [updated_python python hits.nonempty]
    exact length_lt_updateIdPython some_

/-- The content has room for the id that was put into it. -/
theorem length_le_of_replacesOne {after : Text} (replaces : ReplacesOne programPkStr path content after) :
    programPkStr.length ≤ after.length := by
  rcases replaces with ⟨-, index, -, line, front, literal, rest, found, -, rfl⟩ |
      ⟨-, front, matched, back, -, -, rfl⟩
  · have within := (List.getElem?_eq_some_iff.mp found).1
    have part := @UnixPath.infix_intercalate ['\n'] _ _
      (List.mem_set within (invocation front programPkStr ++ rest))
    have holds : programPkStr.length ≤ (invocation front programPkStr ++ rest).length := by
      simp only [invocation, List.length_append]
      omega
    exact holds.trans part.length_le
  · simp only [call, List.length_append, List.length_cons]
    omega

/-- A file whose declaration stands once has exactly that one replaced. -/
theorem replacesOne_of_hitsOnce (hits : Hits (path, content)) (once : HitsOnce (path, content)) :
    ReplacesOne programPkStr path content (getUpdatedProgramIdContent programPkStr path content).1 := by
  rcases id hits with ⟨rust, -⟩ | ⟨python, some_⟩
  · obtain ⟨index, isInvocation, offers⟩ := once.rust rust
    rw [updated_rust rust hits.nonempty]
    exact .inl ⟨rust, index, isInvocation, replaces_of_offers isInvocation offers⟩
  · rw [updated_python python hits.nonempty]
    exact .inr ⟨python, (updateIdPython_of_two some_ (once.python python)).2⟩

/-- Where one declaration was replaced there was only one. -/
theorem hitsOnce_of_replacesOne (hits : Hits (path, content))
    (replaces : ReplacesOne (freshId content) path content
      (getUpdatedProgramIdContent (freshId content) path content).1) : HitsOnce (path, content) := by
  rcases replaces with ⟨rust, index, isInvocation, replaced⟩ | ⟨python, replaced⟩
  · rw [updated_rust rust hits.nonempty] at replaced
    exact ⟨fun _ => ⟨index, isInvocation, offers_of_replaces replaced⟩,
      fun python => absurd rust (not_rust_of_python python)⟩
  · rw [updated_python python hits.nonempty] at replaced
    exact ⟨fun rust => absurd rust (not_rust_of_python python),
      fun _ => two_of_replacesCall replaced⟩

end Contents

/-! ## The loop -/

/-- The folder of the files below a root. -/
def srcBelow (root : Text) : Text := root ++ ("src".toList ++ slash)

/-- A file of the workspace that is below `src`. Folders have no content. -/
def srcFile (self : PgExplorer) (root path : Text) : Option (Text × Text) :=
  if path.startsWith (srcBelow root) then (self.files.content path).map fun content => (path, content)
  else none

/-- The workspace's files below `src`. -/
def srcFiles (self : PgExplorer) (root : Text) (paths : List Text) : List (Text × Text) :=
  paths.filterMap (srcFile self root)

/-- The path from the workspace. -/
def shownPath (root path : Text) : Text := slash ++ path.drop root.length

/-- A file under the path that the build request shows. -/
def shown (root : Text) (file : Text × Text) : Text × Text := (shownPath root file.1, file.2)

/-- The loop over files. -/
def collected (programPkStr root : Text) : (alreadyUpdatedId : Bool) → List (Text × Text) →
    List (Text × Text)
  | _, [] => []
  | alreadyUpdatedId, file :: rest =>
      let (content, alreadyUpdatedId) :=
        if alreadyUpdatedId then (file.2, true)
        else getUpdatedProgramIdContent programPkStr file.1 file.2
      if content = [] then collected programPkStr root alreadyUpdatedId rest
      else (shownPath root file.1, content) :: collected programPkStr root alreadyUpdatedId rest

section Loop

variable {self : PgExplorer} {programPkStr root path : Text} {paths : List Text}
  {files before after : List (Text × Text)} {file : Text × Text} {alreadyUpdatedId : Bool}

/-- The root of a project ends in a slash. -/
theorem endsWith_root (opened : self.getProjectRootPath = .ok root) : root.endsWith slash = true := by
  have ends : ∀ str : Text, str.endsWith slash = true →
      (slash ++ withoutPreSlash str).endsWith slash = true := by
    intro str ends
    rw [withoutPreSlash.eq_def]
    split
    · exact ends
    · exact List.isSuffixOf_iff_suffix.mpr
        ((List.isSuffixOf_iff_suffix.mp ends).trans (List.suffix_append _ _))
  rw [PgExplorer.getProjectRootPath] at opened
  split at opened
  · cases opened
    rfl
  · rw [PgExplorer.getRequiredCurrentWorkspacePath] at opened
    split at opened
    · cases opened
    · split at opened
      · cases opened
      · cases opened
      · cases opened
        exact ends _ (endsWith_appendSlash _)

/-- The source directory of an opened project lies below its root. -/
theorem getCurrentSrcPath_of_opened (opened : self.getProjectRootPath = .ok root) :
    self.getCurrentSrcPath = .ok (srcBelow root) := by
  have notEnded : (root ++ "src".toList).endsWith slash = false := by
    rw [← Bool.not_eq_true, Text.endsWith, List.isSuffixOf_iff_suffix]
    rintro ⟨front, same⟩
    have last := congrArg List.getLast? same
    rw [List.getLast?_append_of_ne_nil _ (by decide), List.getLast?_append_of_ne_nil _ (by decide)] at last
    exact absurd last (by decide)
  have name : withoutPreSlash "src".toList = "src".toList := rfl
  rw [PgExplorer.getCurrentSrcPath, opened, Except.map, joinPaths,
    appendSlash_of_endsWith (endsWith_root opened), name, appendSlash, notEnded,
    if_neg Bool.false_ne_true, List.append_assoc, srcBelow]

/-- A source file has a path relative to the project. -/
theorem getRelativePath_of_opened (opened : self.getProjectRootPath = .ok root)
    (below : path.startsWith (srcBelow root) = true) :
    (self.getRelativePath path).map (joinPaths slash) = .ok (shownPath root path) := by
  obtain ⟨inner, rfl⟩ := List.isPrefixOf_iff_prefix.mp below
  have nonempty : root ≠ [] := by
    rintro rfl
    exact absurd (endsWith_root opened) (by decide)
  have path : srcBelow root ++ inner = root ++ ("src".toList ++ slash ++ inner) := by
    rw [srcBelow, List.append_assoc]
  have relative : self.getRelativePath (srcBelow root ++ inner) =
      .ok ("src".toList ++ slash ++ inner) := by
    rw [PgExplorer.getProjectRootPath] at opened
    rw [PgExplorer.getRelativePath, path]
    split at opened
    next temporary =>
      cases opened
      rw [if_pos temporary]
      rfl
    next stored =>
      obtain ⟨first, rest, rfl⟩ := List.exists_cons_of_ne_nil nonempty
      rw [if_neg stored, opened, Except.map, Text.replace_append]
  rw [relative, shownPath, path, List.drop_left]
  rfl

/-- On an opened project the loop collects the source files in the given order. -/
theorem buildFilesFrom_eq (opened : self.getProjectRootPath = .ok root)
    (keyed : ∀ path ∈ paths, (self.files.item path).isSome) :
    buildFilesFrom self programPkStr alreadyUpdatedId paths =
      .ok (collected programPkStr root alreadyUpdatedId (srcFiles self root paths)) := by
  induction paths generalizing alreadyUpdatedId with
  | nil => rfl
  | cons path rest ih =>
      rw [List.forall_mem_cons] at keyed
      obtain ⟨⟨text, info⟩, found⟩ := Option.isSome_iff_exists.mp keyed.1
      have content : self.files.content path = text := by
        rw [ExplorerFiles.content, found, Option.bind_some]
      rw [buildFilesFrom, getCurrentSrcPath_of_opened opened, srcFiles, List.filterMap_cons, srcFile]
      change (if _ then _ else _) = _
      cases below : path.startsWith (srcBelow root) with
      | false => exact ih keyed.2
      | true =>
          rw [if_neg (by simp), if_pos rfl, found, content]
          cases text with
          | none => exact ih keyed.2
          | some text =>
              dsimp only [Option.map_some]
              rw [collected]
              dsimp only
              generalize (if alreadyUpdatedId = true then (text, true)
                else getUpdatedProgramIdContent programPkStr path text) = result
              by_cases empty : result.1 = []
              · rw [if_pos empty, if_pos empty]
                exact ih keyed.2
              · rw [if_neg empty, if_neg empty, ih keyed.2]
                have shows := getRelativePath_of_opened opened below
                cases relative : self.getRelativePath path with
                | error error =>
                    rw [relative] at shows
                    cases shows
                | ok relativePath =>
                    rw [relative] at shows
                    rw [← Except.ok.inj shows]
                    rfl

/-- After the id has been updated all files that are not empty are kept. -/
theorem collected_true (files : List (Text × Text)) : collected programPkStr root true files =
    (files.filter fun file => file.2 ≠ []).map (shown root) := by
  induction files with
  | nil => rfl
  | cons file rest ih =>
      by_cases empty : file.2 = []
      · simp [collected, empty, ih]
      · simp [collected, empty, ih, shown]

/-- Files without a place for the id are kept. -/
theorem collected_append (none_ : ∀ file ∈ before, ¬ Hits file) (after : List (Text × Text)) :
    collected programPkStr root false (before ++ after) =
      (before.filter fun file => file.2 ≠ []).map (shown root) ++
        collected programPkStr root false after := by
  induction before with
  | nil => rfl
  | cons file rest ih =>
      rw [List.forall_mem_cons] at none_
      have kept : getUpdatedProgramIdContent programPkStr file.1 file.2 = (file.2, false) :=
        kept_of_not_hits none_.1
      rw [List.cons_append, collected, kept]
      by_cases empty : file.2 = []
      · simp [empty, ih none_.2]
      · simp [empty, ih none_.2, shown]

/-- The first file with a place for the id gets it. -/
theorem collected_hit (hits : Hits file) (rest : List (Text × Text)) :
    collected programPkStr root false (file :: rest) =
      (shownPath root file.1, (getUpdatedProgramIdContent programPkStr file.1 file.2).1) ::
        (rest.filter fun file => file.2 ≠ []).map (shown root) := by
  have updated : (getUpdatedProgramIdContent programPkStr file.1 file.2).2 = true :=
    updated_of_hits hits
  have nonempty : (getUpdatedProgramIdContent programPkStr file.1 file.2).1 ≠ [] :=
    List.ne_nil_of_length_pos (Nat.zero_lt_of_lt (length_lt_of_hits hits))
  rw [collected, if_neg Bool.false_ne_true]
  generalize getUpdatedProgramIdContent programPkStr file.1 file.2 = result at updated nonempty
  obtain ⟨content, flag⟩ := result
  dsimp only at updated nonempty ⊢
  rw [if_neg nonempty, updated, collected_true]

/-- Either no file has a place for the id, or there is a first one. -/
theorem exists_first_hit (files : List (Text × Text)) : (∀ file ∈ files, ¬ Hits file) ∨
    ∃ before file after, files = before ++ file :: after ∧ (∀ other ∈ before, ¬ Hits other) ∧
      Hits file := by
  induction files with
  | nil => exact .inl (List.forall_mem_nil _)
  | cons file rest ih =>
      by_cases hits : Hits file
      · exact .inr ⟨[], file, rest, rfl, List.forall_mem_nil _, hits⟩
      · rcases ih with none_ | ⟨before, other, after, rfl, none_, hitsOther⟩
        · exact .inl (List.forall_mem_cons.mpr ⟨hits, none_⟩)
        · exact .inr ⟨file :: before, other, after, rfl, List.forall_mem_cons.mpr ⟨hits, none_⟩,
            hitsOther⟩

/-- Without a declaration every file is sent unchanged. -/
theorem collected_of_none (none_ : ∀ file ∈ files, ¬ Hits file) :
    collected programPkStr root false files =
      (files.filter fun file => file.2 ≠ []).map (shown root) := by
  have whole := @collected_append programPkStr root files none_ []
  rwa [List.append_nil, collected, List.append_nil] at whole

/-- The first file with a declaration is updated and all the others are sent unchanged. -/
theorem collected_of_hit (none_ : ∀ other ∈ before, ¬ Hits other) (hits : Hits file) :
    collected programPkStr root false (before ++ file :: after) =
      (before.filter fun file => file.2 ≠ []).map (shown root) ++
        (shownPath root file.1, (getUpdatedProgramIdContent programPkStr file.1 file.2).1) ::
          (after.filter fun file => file.2 ≠ []).map (shown root) := by
  rw [collected_append none_, collected_hit hits]

/-- One file is sent for each source file with a content. -/
theorem length_collected : (collected programPkStr root false files).length =
    (files.filter fun file => file.2 ≠ []).length := by
  rcases exists_first_hit files with none_ | ⟨before, file, after, rfl, none_, hits⟩
  · rw [collected_of_none none_, List.length_map]
  · have nonempty : file.2 ≠ [] := Hits.nonempty hits
    rw [collected_of_hit none_ hits, List.filter_append, List.filter_cons_of_pos (by simp [nonempty])]
    simp

/-! ### The order -/

/-- Putting files first loses none of them. -/
theorem prioritizedFilePaths_perm (paths : List Text) : (prioritizedFilePaths paths).Perm paths := by
  suffices loop : ∀ acc : List Text, (paths.foldl (fun acc path =>
      if prioritizedFileNames.any fun name => path.endsWith name then path :: acc
      else acc ++ [path]) acc).Perm (acc ++ paths) from loop []
  induction paths with
  | nil => exact fun acc => by rw [List.append_nil]; exact .refl _
  | cons path rest ih =>
      intro acc
      refine (ih _).trans ?_
      beta_reduce
      split
      · exact List.perm_middle.symm
      · rw [List.append_assoc]
        exact .refl _

/-- The source files keep the order of the paths. -/
theorem fst_srcFiles_sublist (paths : List Text) :
    ((srcFiles self root paths).map Prod.fst).Sublist paths := by
  induction paths with
  | nil => exact .slnil
  | cons path rest ih =>
      rw [srcFiles, List.filterMap_cons]
      cases found : srcFile self root path with
      | none => exact ih.cons path
      | some file =>
          have same : file.1 = path := by
            rw [srcFile] at found
            split at found
            · obtain ⟨content, -, rfl⟩ := Option.map_eq_some_iff.mp found
              rfl
            · cases found
          dsimp only
          rw [List.map_cons, same]
          exact ih.cons_cons path

/-- A source file lies below the project root. -/
theorem below_of_mem (member : file ∈ srcFiles self root paths) : root <+: file.1 := by
  obtain ⟨path, -, found⟩ := List.mem_filterMap.mp member
  rw [srcFile] at found
  split at found
  next below =>
    obtain ⟨content, -, rfl⟩ := Option.map_eq_some_iff.mp found
    exact (List.prefix_append root _).trans (List.isPrefixOf_iff_prefix.mp below)
  next => cases found

/-- Two files of a project are shown under two paths. -/
theorem shownPath_injective {other : Text} (below : root <+: path) (otherBelow : root <+: other)
    (same : shownPath root path = shownPath root other) : path = other := by
  obtain ⟨inner, rfl⟩ := below
  obtain ⟨otherInner, rfl⟩ := otherBelow
  rw [shownPath, shownPath, List.drop_left, List.drop_left] at same
  rw [List.append_cancel_left same]

/-- No path is there twice. -/
theorem nodup_shown (nodup : paths.Nodup) :
    ((srcFiles self root paths).map fun file => shownPath root file.1).Nodup := by
  have distinct : ((srcFiles self root paths).map Prod.fst).Nodup :=
    nodup.sublist (fst_srcFiles_sublist paths)
  have shown_ : ((srcFiles self root paths).map fun file => shownPath root file.1) =
      ((srcFiles self root paths).map Prod.fst).map (shownPath root) := by
    rw [List.map_map]
    rfl
  rw [shown_]
  refine distinct.map_on fun first inFirst second inSecond same => ?_
  obtain ⟨file, member, rfl⟩ := List.mem_map.mp inFirst
  obtain ⟨other, otherMember, rfl⟩ := List.mem_map.mp inSecond
  exact shownPath_injective (below_of_mem member) (below_of_mem otherMember) same

end Loop

/-! ## The request -/

/-- The files of the request are the given ones, each once and with its path from the workspace,
and their contents are the same apart from one literal, unless there is none to replace. -/
structure Faithful (programPkStr root : Text) (files result : List (Text × Text)) : Prop where
  nodup : (result.map Prod.fst).Nodup
  contents : (∀ file ∈ files, ¬ Invoked file) ∧ result.Perm (files.map (shown root)) ∨
    ∃ path before after rest,
      files.Perm ((path, before) :: rest) ∧
        result.Perm ((shownPath root path, after) :: rest.map (shown root)) ∧
          ReplacesOne programPkStr path before after

/-- The first file with a place for the id has one place only. -/
def FirstHitOnce (files : List (Text × Text)) : Prop :=
  ∀ before file after, files = before ++ file :: after → (∀ other ∈ before, ¬ Hits other) →
    Hits file → HitsOnce file

/-- Where no file has a place for the id, none has an invocation in code. -/
def NoneMissed (files : List (Text × Text)) : Prop :=
  (∀ file ∈ files, ¬ Hits file) → ∀ file ∈ files, ¬ Invoked file

section Request

variable {self : PgExplorer} {programPkStr root : Text} {files prioritized result : List (Text × Text)}
  {file : Text × Text}

/-- A faithful request has as many files as the project. -/
theorem Faithful.length_eq (faithful : Faithful programPkStr root files result) :
    result.length = files.length := by
  rcases faithful.contents with ⟨-, same⟩ | ⟨path, before, after, rest, ofFiles, ofResult, -⟩
  · rw [same.length_eq, List.length_map]
  · rw [ofFiles.length_eq, ofResult.length_eq, List.length_cons, List.length_cons, List.length_map]

/-- A file that is not as it was is the one with the id. -/
theorem Faithful.replaced {content : Text} (faithful : Faithful programPkStr root files result)
    (distinct : (files.map fun file => shownPath root file.1).Nodup) (member : file ∈ files)
    (changed : content ≠ file.2) (sent : (shownPath root file.1, content) ∈ result) :
    ReplacesOne programPkStr file.1 file.2 content := by
  have notSame : (shownPath root file.1, content) ∉ files.map (shown root) := by
    intro among
    obtain ⟨other, otherMember, same⟩ := List.mem_map.mp among
    obtain ⟨samePath, sameContent⟩ := Prod.mk.inj same
    obtain rfl := List.inj_on_of_nodup_map distinct otherMember member samePath
    exact changed sameContent.symm
  rcases faithful.contents with ⟨-, same⟩ | ⟨path, before, after, rest, ofFiles, ofResult, replaces⟩
  · exact absurd (same.mem_iff.mp sent) notSame
  · rcases List.mem_cons.mp (ofResult.mem_iff.mp sent) with here | later
    · obtain ⟨samePath, rfl⟩ := Prod.mk.inj here
      have there : (path, before) ∈ files := ofFiles.mem_iff.mpr List.mem_cons_self
      obtain rfl := List.inj_on_of_nodup_map distinct member there samePath
      exact replaces
    · refine absurd ?_ notSame
      obtain ⟨other, otherMember, same⟩ := List.mem_map.mp later
      exact List.mem_map.mpr ⟨other, ofFiles.mem_iff.mpr (List.mem_cons_of_mem _ otherMember), same⟩

/-- Nothing is filtered out of files that all have a content. -/
theorem filter_nonempty (nonempty : ∀ file ∈ files, file.2 ≠ []) :
    (files.filter fun file => file.2 ≠ []) = files :=
  List.filter_eq_self.mpr fun file member => by simp [nonempty file member]

/-- With contents in all files, with one place for the id in the first that has any, and with no
invocation where there is no such file. -/
theorem faithful_collected (order : prioritized.Perm files)
    (distinct : (prioritized.map fun file => shownPath root file.1).Nodup)
    (nonempty : ∀ file ∈ prioritized, file.2 ≠ []) (once : FirstHitOnce prioritized)
    (missed : NoneMissed prioritized) :
    Faithful programPkStr root files (collected programPkStr root false prioritized) := by
  rcases exists_first_hit prioritized with none_ | ⟨before, file, after, rfl, none_, hits⟩
  · rw [collected_of_none none_, filter_nonempty nonempty]
    refine ⟨?_, .inl ⟨fun file member => missed none_ file (order.mem_iff.mpr member), order.map _⟩⟩
    rw [List.map_map]
    exact distinct
  · rw [List.forall_mem_append, List.forall_mem_cons] at nonempty
    rw [collected_of_hit none_ hits, filter_nonempty nonempty.1, filter_nonempty nonempty.2.2]
    refine ⟨?_, .inr ⟨file.1, file.2, _, before ++ after, ?_, ?_,
      replacesOne_of_hitsOnce hits (once before file after rfl none_ hits)⟩⟩
    · rw [List.map_append, List.map_cons, List.map_map, List.map_map]
      rw [List.map_append, List.map_cons] at distinct
      exact distinct
    · exact order.symm.trans List.perm_middle
    · rw [List.map_append]
      exact List.perm_middle

/-- The other way round. -/
theorem conditions_of_faithful (order : prioritized.Perm files)
    (distinct : (files.map fun file => shownPath root file.1).Nodup)
    (faithful : ∀ programPkStr,
      Faithful programPkStr root files (collected programPkStr root false prioritized)) :
    (∀ file ∈ prioritized, file.2 ≠ []) ∧ FirstHitOnce prioritized ∧ NoneMissed prioritized := by
  refine ⟨?_, ?_, ?_⟩
  · have lengths := (faithful []).length_eq
    rw [length_collected, ← order.length_eq, List.length_filter_eq_length_iff] at lengths
    exact fun file member => by simpa using lengths file member
  · rintro before file after rfl none_ hits
    have sent : (shownPath root file.1,
        (getUpdatedProgramIdContent (freshId file.2) file.1 file.2).1) ∈
          collected (freshId file.2) root false (before ++ file :: after) := by
      rw [collected_of_hit none_ hits]
      exact List.mem_append_right _ List.mem_cons_self
    refine hitsOnce_of_replacesOne hits ((faithful (freshId file.2)).replaced distinct
      (order.mem_iff.mp (by simp)) ?_ sent)
    intro same
    have longer := @length_lt_of_hits (freshId file.2) file.1 file.2 hits
    rw [same, freshId, List.length_replicate] at longer
    omega
  · intro none_ file member
    -- an id that is longer than all contents together is in none of them
    have kept := faithful (List.replicate (1 + (prioritized.map fun file => file.2.length).sum) 'a')
    rw [collected_of_none none_] at kept
    rcases kept.contents with ⟨free, -⟩ | ⟨path, before, after, rest, -, ofResult, replaces⟩
    · exact free file (order.mem_iff.mp member)
    · have sent := ofResult.mem_iff.mpr List.mem_cons_self
      obtain ⟨other, among, same⟩ := List.mem_map.mp sent
      obtain ⟨-, rfl⟩ := Prod.mk.inj same
      have long := length_le_of_replacesOne replaces
      have short := List.le_sum_of_mem
        (List.mem_map_of_mem (f := fun file : Text × Text => file.2.length) (List.mem_of_mem_filter among))
      rw [List.length_replicate] at long
      omega

end Request

/-- The request is faithful, whatever the id is, if no file is empty, the first file with a place for
the id has one place only, and without such a file there is no invocation; and a Rust source is
updated rightly if the line that the markers leave is the only one and is code, or if there is
neither. -/
theorem getBuildFiles_faithful_iff {self : PgExplorer} {root : Text}
    (opened : self.getProjectRootPath = .ok root)
    (keyed : ∀ path ∈ self.files.keys, (self.files.item path).isSome) :
    ((∀ programPkStr, ∃ result, getBuildFiles self programPkStr = .ok result ∧
        Faithful programPkStr root (srcFiles self root self.files.keys) result) ↔
      (∀ file ∈ srcFiles self root self.files.keys, file.2 ≠ []) ∧
        FirstHitOnce (srcFiles self root (prioritizedFilePaths self.files.keys)) ∧
        NoneMissed (srcFiles self root (prioritizedFilePaths self.files.keys))) ∧
    ∀ source, (∀ programPkStr,
        UpdatesRightly programPkStr source (updateIdRust programPkStr source)) ↔
      ((∀ index, ¬ Offers (linesOf source) index) ∧ ∀ index, ¬ IsInvocation (linesOf source) index) ∨
        ∃ index, IsInvocation (linesOf source) index ∧
          ∀ other, Offers (linesOf source) other ↔ other = index := by
  have paths := prioritizedFilePaths_perm self.files.keys
  have order : (srcFiles self root (prioritizedFilePaths self.files.keys)).Perm
      (srcFiles self root self.files.keys) := paths.filterMap _
  have files : ∀ programPkStr, getBuildFiles self programPkStr =
      .ok (collected programPkStr root false
        (srcFiles self root (prioritizedFilePaths self.files.keys))) :=
    fun programPkStr => buildFilesFrom_eq opened fun path member =>
      keyed path (paths.mem_iff.mp member)
  refine ⟨⟨fun faithful => ?_, fun conditions programPkStr => ?_⟩, updatesRightly_iff⟩
  · have all := conditions_of_faithful order (nodup_shown self.files.nodup_keys)
      fun programPkStr => by
        obtain ⟨result, returned, holds⟩ := faithful programPkStr
        rw [files, Except.ok.injEq] at returned
        exact returned ▸ holds
    exact ⟨fun file member => all.1 file (order.mem_iff.mpr member), all.2⟩
  · refine ⟨_, files programPkStr, faithful_collected order ?_ ?_ conditions.2.1 conditions.2.2⟩
    · exact nodup_shown (paths.nodup_iff.mpr self.files.nodup_keys)
    · exact fun file member => conditions.1 file (order.mem_iff.mp member)

/-- A workspace with one Rust file. -/
def sampleExplorer : PgExplorer where
  explorer := ⟨OrderedMap.empty.set "/a/src/lib.rs".toList
    (some ⟨some "declare_id!(\"1\");".toList, none⟩), [], none⟩
  generation := 0
  isTemporary := false
  hasWorkspace := true
  workspaces := ⟨["a".toList], some "a".toList⟩
  initializedWorkspaceName := some "a".toList
  dispatched := []

/-- The equivalence at a project of two files. -/
theorem getBuildFiles_faithful_iff_sample :
    ((∀ programPkStr, ∃ result, getBuildFiles sampleExplorer programPkStr = .ok result ∧
        Faithful programPkStr "/a/".toList
          (srcFiles sampleExplorer "/a/".toList sampleExplorer.files.keys) result) ↔
      (∀ file ∈ srcFiles sampleExplorer "/a/".toList sampleExplorer.files.keys, file.2 ≠ []) ∧
        FirstHitOnce (srcFiles sampleExplorer "/a/".toList
          (prioritizedFilePaths sampleExplorer.files.keys)) ∧
        NoneMissed (srcFiles sampleExplorer "/a/".toList
          (prioritizedFilePaths sampleExplorer.files.keys))) ∧
    ∀ source, (∀ programPkStr,
        UpdatesRightly programPkStr source (updateIdRust programPkStr source)) ↔
      ((∀ index, ¬ Offers (linesOf source) index) ∧ ∀ index, ¬ IsInvocation (linesOf source) index) ∨
        ∃ index, IsInvocation (linesOf source) index ∧
          ∀ other, Offers (linesOf source) other ↔ other = index :=
  getBuildFiles_faithful_iff rfl (by decide)

/-- A line comment with the marker of a block comment, before the id. -/
def globComment : Text := "// programs/*\ndeclare_id!(\"1\");".toList

/-- The declaration behind the glob in a comment is a real invocation. -/
theorem globComment_isInvocation : IsInvocation (linesOf globComment) 1 := by
  have invokes : Invokes "declare_id!(\"1\");".toList [] ['1'] [';'] := by
    refine ⟨rfl, ⟨[], List.forall_mem_nil _, rfl⟩, ?_⟩
    exact List.all_iff_forall_prop.mp (by decide)
  exact ⟨_, _, _, _, rfl, invokes, by decide⟩

/-- The id is not updated there. -/
theorem not_always_faithful :
    ¬ ((∀ (self : PgExplorer) (root : Text), self.getProjectRootPath = .ok root →
        (∀ path ∈ self.files.keys, (self.files.item path).isSome) → ∀ programPkStr,
          ∃ result, getBuildFiles self programPkStr = .ok result ∧
            Faithful programPkStr root (srcFiles self root self.files.keys) result) ∧
      ∀ programPkStr source, UpdatesRightly programPkStr source (updateIdRust programPkStr source)) := by
  intro always
  have updated := (always.2 ['2'] globComment).updated.mpr ⟨1, globComment_isInvocation⟩
  have kept : (updateIdRust ['2'] globComment).2 = false := by decide
  rw [kept] at updated
  cases updated

end Solpg.Client.Commands.BuildFiles
