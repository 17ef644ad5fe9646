import Solpg.Client.Utils.Terminal.Parse

/-!
# Completion of an input

What Tab does follows from the text before the cursor and from the candidates for it.
-/

namespace Solpg.Client.Utils.Terminal

open Solpg.Std CodeUnits

/-- A token with a space is put between quotes. -/
def quoteToken (token : CodeUnits) : CodeUnits :=
  if space ∈ token then doubleQuote :: token ++ [doubleQuote] else token

/-- `tokens.join(" ")`, in which an entry that was never set is empty -/
def joinTokens (tokens : List (Option CodeUnits)) : CodeUnits :=
  [space].intercalate (tokens.map fun token => token.getD [])

/-- The fragment with a candidate in place of its last token, in quotes if necessary. -/
def createNewInput (inputFragment : CodeUnits) (candidates : List CodeUnits)
    (candidate : CodeUnits) : CodeUnits :=
  let tokens := (parse inputFragment).map fun token => token.map quoteToken
  let firstCharOfLastToken := (inputFragment.splitOn space).getLast?.bind List.head?
  let quote := if firstCharOfLastToken = some singleQuote then singleQuote else doubleQuote
  let spaced := space ∈ candidate
  -- the user has put a quotation mark, which `parse` does not keep
  let quoted := firstCharOfLastToken = some quote
  let opened := if spaced ∨ quoted then quote :: candidate else candidate
  let closed :=
    if (spaced ∧ ¬ [space] <:+ candidate) ∨ (quoted ∧ candidates.length = 1)
    then opened ++ [quote] else opened
  -- without any token, the assignment to the index -1 adds no entry
  if tokens = [] then joinTokens [] else joinTokens (tokens.dropLast ++ [some closed])

/-- What all candidates begin with. -/
def commonCandidate (candidates : List CodeUnits) : CodeUnits :=
  let first := candidates.headD []
  let matching := (List.range first.length).takeWhile fun i =>
    candidates.all fun cand => cand[i]? = first[i]?
  first.take matching.length

/-- `/[^\\][ \t]$/m` -/
def hasSpaceAtEnd : CodeUnits → Bool
  | before :: blank :: rest =>
      (before ≠ backslash ∧ (blank = space ∨ blank = tab) ∧
        rest.head?.all isLineTerminator) ∨ hasSpaceAtEnd (blank :: rest)
  | _ => false

inductive Completion where
  | addSpace
  | none
  | setInput (newInput : CodeUnits)
  | printCandidates
  | askToDisplay
  deriving DecidableEq, Repr

/-- Depending on the number of candidates, they are handled in a different way. -/
def completionOf (inputFragment : CodeUnits) (candidates : List CodeUnits) : Completion :=
  if candidates.length = 0 then
    if hasSpaceAtEnd inputFragment then .none else .addSpace
  else if candidates.length = 1 then
    .setInput (createNewInput inputFragment candidates (candidates.headD []))
  else if candidates.length ≤ 100 then
    let newInput := createNewInput inputFragment candidates (commonCandidate candidates)
    if inputFragment = newInput then .printCandidates else .setInput newInput
  else .askToDisplay

end Solpg.Client.Utils.Terminal
