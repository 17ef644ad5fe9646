import Solpg.Server.Deployed
import Solpg.Std.Text

/-!
# The client's reading of a build response

`buildCurrentProgram` of `commands/build/build.ts` gets the text that the
server answered and tells from two regular expressions whether the build
failed. `failed_iff` says on which outcomes of the server this is right.
-/

namespace Solpg.Client.Commands

open Solpg.Std
open Solpg.Server.Program

/-! ## The two expressions -/

/-- `\b`. -/
def isBoundary (before after : Option Char) : Bool :=
  before.any Text.isWord != after.any Text.isWord

/-- A text without regard to case. Only ASCII letters fold to ASCII letters. -/
def caseless (text : String) : Regex Char :=
  .word (text.toList.map fun expected actual => actual.toLower == expected.toLower)

/-- `Finished release`. -/
def finishedRelease : List Char :=
  ['F', 'i', 'n', 'i', 's', 'h', 'e', 'd', ' ', 'r', 'e', 'l', 'e', 'a', 's', 'e']

/-- `\bFinished release\b`. -/
def completedRustBuild : Regex Char :=
  .seq (.assertion isBoundary) (.seq (.literal finishedRelease) (.assertion isBoundary))

/-- `(^|\n)\s*(error|IDL error)(?:\[[^\]]+\])?:` without regard to case. -/
def errorLine : Regex Char :=
  .seq (.alt (.assertion fun before _ => before.isNone) (.symbol (· == '\n'))) <|
  .seq (.star (.symbol Text.isSpace)) <|
  .seq (.alt (caseless "error") (caseless "IDL error")) <|
  .seq (.optional (.seq (.symbol (· == '[')) (.seq (.plus (.symbol (· != ']')))
    (.symbol (· == ']'))))) (.symbol (· == ':'))

/-- The `failed` flag that the client computes from a response. -/
def failed (stderr : String) : Bool :=
  !completedRustBuild.isMatch stderr.toList && errorLine.isMatch stderr.toList

variable {Idl : Type}

/-- The body of a build response. -/
structure BuildResponse (Idl : Type) where
  stderr : String
  uuid : Option String
  idl : Option Idl

/-- What is stored in the program info of the workspace. -/
structure BuildUpdate (Idl : Type) where
  idl : Option Idl
  uuid : Option String
  lastBuildFailed : Bool

/-- `buildCurrentProgram`, from the response on: `uuid` is the one captured
before the request. -/
def buildCurrentProgram (result : BuildResponse Idl) (uuid : Option String) : BuildUpdate Idl where
  idl := result.idl
  uuid := result.uuid <|> uuid
  lastBuildFailed := failed result.stderr

/-! ## What the server's text can say -/

/-- The two words stand in the text as words. -/
def Mentions (text : List Char) : Prop :=
  ∃ before after, text = before ++ finishedRelease ++ after ∧
    before.getLast?.any Text.isWord = false ∧ after.head?.any Text.isWord = false

theorem completedRustBuild_found (text : List Char) :
    completedRustBuild.Found text ↔ Mentions text := by
  have opening : ∀ before after : List Char,
      isBoundary before.getLast? (finishedRelease ++ after).head? = true ↔
        before.getLast?.any Text.isWord = false := by
    intro before after
    have first : finishedRelease.head?.any Text.isWord = true := by decide
    rw [List.head?_append_of_ne_nil _ (by decide), isBoundary, first]
    simp
  have closing : ∀ before after : List Char,
      isBoundary (before ++ finishedRelease).getLast? after.head? = true ↔
        after.head?.any Text.isWord = false := by
    intro before after
    have last : finishedRelease.getLast?.any Text.isWord = true := by decide
    rw [List.getLast?_append_of_ne_nil _ (by decide), isBoundary, last]
    simp
  simp only [Regex.Found, completedRustBuild, Regex.matches_seq, Regex.matches_assertion,
    Regex.matches_literal, Mentions]
  constructor
  · rintro ⟨before, middle, after, rfl, start, rest, rfl, ⟨rfl, opens⟩, words, finish, rfl, rfl,
      rfl, closes⟩
    refine ⟨before, after, by simp, (opening before after).mp ?_, (closing before after).mp ?_⟩
    · simpa only [List.append_nil, List.append_assoc, List.nil_append] using opens
    · simpa only [List.append_nil, List.append_assoc, List.nil_append] using closes
  · rintro ⟨before, after, rfl, opens, closes⟩
    refine ⟨before, finishedRelease, after, rfl, [], finishedRelease, rfl, ⟨rfl, ?_⟩,
      finishedRelease, [], (List.append_nil _).symm, rfl, rfl, ?_⟩
    · exact (opening before after).mpr opens
    · simpa only [List.append_nil] using (closing before after).mpr closes

/-- `IDL error: `, which the server puts in front of an IDL error. -/
def idlError : List Char := ['I', 'D', 'L', ' ', 'e', 'r', 'r', 'o', 'r', ':', ' ']

/-- That text ends in a blank and has no `F`, so it takes no part in the words. -/
theorem mentions_idlError (text : List Char) : Mentions (idlError ++ text) ↔ Mentions text := by
  have edge : ∀ before : List Char, (idlError ++ before).getLast?.any Text.isWord =
      before.getLast?.any Text.isWord := by
    intro before
    cases before with
    | nil => decide
    | cons head before => rw [List.getLast?_append_of_ne_nil _ (List.cons_ne_nil head before)]
  constructor
  · rintro ⟨before, after, split, opens, closes⟩
    rw [List.append_assoc, List.append_eq_append_iff] at split
    obtain ⟨rest, rfl, rfl⟩ | ⟨rest, inside, tail⟩ := split
    · exact ⟨rest, after, by simp, (edge rest).symm.trans opens, closes⟩
    · cases rest with
      | nil => exact ⟨[], after, by simpa using tail.symm, rfl, closes⟩
      | cons head rest =>
          have first : head = 'F' := by
            simpa [finishedRelease] using (congrArg List.head? tail).symm
          have member : 'F' ∈ idlError := by simp [inside, first]
          exact absurd member (by decide)
  · rintro ⟨before, after, rfl, opens, closes⟩
    exact ⟨idlError ++ before, after, by simp, (edge before).trans opens, closes⟩

theorem caseless_matches_self (word : String) (before after : List Char) :
    (caseless word).Matches before word.toList after := by
  rw [caseless, Regex.matches_word, List.forall₂_map_left_iff, List.forall₂_same]
  intro char _
  exact beq_self_eq_true _

/-- An IDL error is an error line. -/
theorem errorLine_idlError (text : List Char) : errorLine.Found (idlError ++ text) := by
  refine ⟨[], idlError.dropLast, ' ' :: text, rfl, ?_⟩
  have colon : idlError.dropLast = "IDL error".toList ++ [':'] := by decide
  rw [colon]
  refine Regex.matches_seq.mpr ⟨[], _, rfl, .altLeft (.assertion rfl), ?_⟩
  refine Regex.matches_seq.mpr ⟨[], _, rfl, .starNil, ?_⟩
  refine Regex.matches_seq.mpr ⟨_, _, rfl, .altRight (caseless_matches_self _ _ _), ?_⟩
  exact Regex.matches_seq.mpr ⟨[], _, rfl, .altRight .empty, .symbol rfl⟩

/-! ## Outcomes of the server -/

/-- What the response of a finished build is made from. -/
structure Outcome (Idl : Type) where
  status : ExitStatus
  stderr : String
  idl : Option (Except String Idl)

namespace Outcome

variable (outcome : Outcome Idl)

/-- The text and the IDL that `program::build` returns. -/
def response : String × Option Idl :=
  if outcome.status.isSuccess then describe outcome.stderr outcome.idl else (outcome.stderr, none)

/-- The compilation or the IDL generation failed. -/
def FailedOnServer : Prop :=
  outcome.status.isSuccess = false ∨ ∃ error, outcome.idl = some (.error error)

/-- The text tells the outcome. A failed compilation has an error line and does
not mention the words; an IDL error does not mention them; and a success does,
or has no error line. -/
def Telling : Prop :=
  if outcome.status.isSuccess = false then
    ¬ Mentions outcome.stderr.toList ∧ errorLine.Found outcome.stderr.toList
  else
    match outcome.idl with
    | some (.error error) => ¬ Mentions error.toList
    | _ => Mentions outcome.stderr.toList ∨ ¬ errorLine.Found outcome.stderr.toList

end Outcome

theorem failed_eq_true (stderr : String) :
    failed stderr = true ↔ ¬ Mentions stderr.toList ∧ errorLine.Found stderr.toList := by
  simp [failed, ← completedRustBuild_found, ← Regex.isMatch_iff]

/-- The outcome of a compiler run, once the sources are as in `files`. -/
structure Outcome.Of (outcome : Outcome Idl) (env : Environment Idl) (programName : String)
    (flags : BuildFlags) (output : CompilerOutput) (files : FileTree ByteArray) : Prop where
  status : outcome.status = output.status
  stderr : String.fromUTF8? output.stderr = some outcome.stderr
  idl : outcome.status.isSuccess = true → ∃ content lib,
    files.node (programPath programName ++ ["src", "lib.rs"]) = some (.file content) ∧
      String.fromUTF8? content = some lib ∧
      outcome.idl = if "anchor_lang".toList <:+: lib.toList then
        some (env.parseIdl files.content (programPath programName ++ ["src", "lib.rs"]) "0.1.0"
          flags.seedsFeature flags.noDocs flags.safetyChecks)
      else none

theorem readToString_ok {path : Path} {world after : World ByteArray} {text : String}
    (ran : readToString path world = (.ok text, after)) : after.files = world.files ∧
      ∃ content, world.files.node path = some (.file content) ∧
        String.fromUTF8? content = some text := by
  obtain ⟨content, between, read, decoded⟩ := FileM.bind_ok ran
  obtain ⟨unchanged, stored⟩ := FileM.read_ok (FileM.mapError_ok read)
  cases text_ : String.fromUTF8? content with
  | none =>
      rw [text_] at decoded
      cases decoded
  | some found =>
      rw [text_] at decoded
      cases decoded
      exact ⟨unchanged, content, stored, text_⟩

/-- Every response that the server makes of a compiler run is that of an outcome. -/
theorem respond_ok {env : Environment Idl} {programName : String} {flags : BuildFlags}
    {output : CompilerOutput} {world after : World ByteArray} {response : String × Option Idl}
    (responded : respond env programName flags output world = (.ok response, after)) :
    ∃ outcome : Outcome Idl, outcome.Of env programName flags output world.files ∧
      response = outcome.response := by
  simp only [respond] at responded
  split at responded
  · cases responded
  split at responded
  · cases responded
  cases decoded : String.fromUTF8? output.stderr with
  | none =>
      rw [decoded] at responded
      cases responded
  | some stderr =>
      rw [decoded] at responded
      simp only at responded
      split at responded
      next failure =>
        cases responded
        have failure : output.status.isSuccess = false := by simpa using failure
        refine ⟨⟨output.status, stderr, none⟩, ⟨rfl, decoded, fun success => ?_⟩, ?_⟩
        · exact absurd (failure.symm.trans success) Bool.false_ne_true
        · simp [Outcome.response, failure]
      next success =>
        have success : output.status.isSuccess = true := by simpa using success
        obtain ⟨text, between, lib, parsed⟩ := FileM.bind_ok responded
        obtain ⟨unchanged, content, stored, decodedLib⟩ := readToString_ok lib
        by_cases anchor : "anchor_lang".toList <:+: text.toList
        · rw [if_pos anchor] at parsed
          cases parsed
          refine ⟨⟨output.status, stderr, some _⟩, ⟨rfl, decoded, fun _ =>
            ⟨content, text, stored, decodedLib, (if_pos anchor).symm⟩⟩, ?_⟩
          simp [Outcome.response, success, unchanged]
        · rw [if_neg anchor] at parsed
          cases parsed
          refine ⟨⟨output.status, stderr, none⟩, ⟨rfl, decoded, fun _ =>
            ⟨content, text, stored, decodedLib, (if_neg anchor).symm⟩⟩, ?_⟩
          simp [Outcome.response, success]

/-- The client's flag on the response of an outcome is right exactly if the text
tells the outcome. -/
theorem Outcome.failed_response_iff (outcome : Outcome Idl) :
    (failed outcome.response.1 = true ↔ outcome.FailedOnServer) ↔ outcome.Telling := by
  rw [failed_eq_true]
  by_cases success : outcome.status.isSuccess = true
  · cases parsed : outcome.idl with
    | none =>
        simp only [response, FailedOnServer, Telling, success, describe, parsed]
        simp only [if_true, Bool.true_eq_false, if_false, false_or, reduceCtorEq, exists_false,
          iff_false]
        tauto
    | some result =>
        cases result with
        | ok idl =>
            simp only [response, FailedOnServer, Telling, success, describe, parsed]
            simp only [if_true, Bool.true_eq_false, if_false, false_or, Option.some.injEq,
              reduceCtorEq, exists_false, iff_false]
            tauto
        | error error =>
            have text : (s!"IDL error: {error}").toList = idlError ++ error.toList := by
              have prefix_ : "IDL error: ".toList = idlError := by decide
              simp only [toString, String.toList_append, prefix_]
            have line : errorLine.Found (idlError ++ error.toList) := errorLine_idlError _
            simp only [response, FailedOnServer, Telling, success, describe, parsed, if_true, text]
            simp [mentions_idlError, line]
  · have failure : outcome.status.isSuccess = false := by simpa using success
    simp only [response, FailedOnServer, Telling, failure]
    simp

/-- For every build that the server answers, `lastBuildFailed` says whether its
compilation or IDL generation failed exactly if the text tells the outcome. -/
theorem lastBuildFailed_iff {env : Environment Idl} {toolchain : Toolchain} {concurrencyId : Nat}
    {programName : String} {files : Files} {flags : BuildFlags} {world after : World ByteArray}
    {response : String × Option Idl}
    (built : build env toolchain concurrencyId programName files flags world =
      (.ok response, after)) (responseUuid uuid : Option String) :
    ∃ ready compiled output, prepare env concurrencyId programName files world = (.ok (), ready) ∧
      compile toolchain concurrencyId programName ready = (.ok output, compiled) ∧
      ∃ outcome : Outcome Idl, outcome.Of env programName flags output compiled.files ∧
        (((buildCurrentProgram ⟨response.1, responseUuid, response.2⟩ uuid).lastBuildFailed = true ↔
          outcome.FailedOnServer) ↔ outcome.Telling) := by
  obtain ⟨value, ready, prepared, compiling⟩ := FileM.bind_ok built
  obtain ⟨output, compiled, ran, responded⟩ := FileM.bind_ok compiling
  obtain ⟨outcome, made, rfl⟩ := respond_ok responded
  exact ⟨ready, compiled, output, prepared, ran, outcome, made, outcome.failed_response_iff⟩

/-- The build of an empty source file compiles. -/
theorem goodBuild_compiled : ∃ ready compiled,
    prepare plainEnvironment goodBuild.concurrencyId goodBuild.uuid goodBuild.files newServer =
      (.ok (), ready) ∧
    compile goodBuild.toolchain goodBuild.concurrencyId goodBuild.uuid ready =
      (.ok ⟨.success, ByteArray.empty, some ByteArray.empty, rfl⟩, compiled) ∧
    compiled.files.node (programPath goodBuild.uuid ++ ["src", "lib.rs"]) =
      some (.file ByteArray.empty) := ⟨_, _, rfl, rfl, rfl⟩

/-- No bytes are an empty text. -/
theorem fromUTF8_empty : String.fromUTF8? ByteArray.empty = some "" := by decide

/-- Its outcome is a success without a text, and is told. -/
theorem lastBuildFailed_of_goodBuild : ∃ outcome : Outcome Unit, outcome = ⟨.success, "", none⟩ ∧
    (((buildCurrentProgram (⟨"", none, none⟩ : BuildResponse Unit) none).lastBuildFailed = true ↔
      outcome.FailedOnServer) ↔ outcome.Telling) := by
  obtain ⟨ready, compiled, prepared, ran, lib⟩ := goodBuild_compiled
  have built : ∃ after, build plainEnvironment goodBuild.toolchain goodBuild.concurrencyId
      goodBuild.uuid goodBuild.files goodBuild.flags newServer = (.ok ("", none), after) :=
    ⟨_, rfl⟩
  obtain ⟨after, built⟩ := built
  obtain ⟨_, _, _, prepared', ran', ⟨status, stderr, idl⟩, made, told⟩ :=
    lastBuildFailed_iff built none none
  cases prepared'.symm.trans prepared
  cases ran'.symm.trans ran
  have success : status = .success := made.status
  have text : "" = stderr := Option.some_inj.mp (fromUTF8_empty.symm.trans made.stderr)
  have plain : idl = none := by
    obtain ⟨content, lib', stored, decoded, parsed⟩ := made.idl (by rw [success]; rfl)
    cases stored.symm.trans lib
    cases Option.some_inj.mp (fromUTF8_empty.symm.trans decoded)
    exact parsed.trans (if_neg (by decide))
  exact ⟨_, by rw [success, ← text, plain], told⟩
/-- A build whose compiler stops without an error line. -/
def quietBuild : BuildRequest :=
  { badBuild with toolchain := fun _ _ => ⟨.failure 1, "no target".toUTF8, none, isSome_noBinary⟩ }

/-- A build without a new binary need not be flagged. -/
theorem not_always_flagged : ¬ ∀ (env : Environment Unit) (request : BuildRequest)
    (world after : World ByteArray) (response : String × Option Unit),
    request.run env world = (.ok response, after) → request.compiles env world = false →
      (buildCurrentProgram ⟨response.1, none, response.2⟩ none).lastBuildFailed = true := by
  intro flagged
  have built : ∃ after, quietBuild.run plainEnvironment newServer =
      (.ok ("no target", none), after) := ⟨_, rfl⟩
  obtain ⟨after, built⟩ := built
  exact absurd (flagged plainEnvironment quietBuild newServer after _ built (by decide)) (by decide)

end Solpg.Client.Commands
