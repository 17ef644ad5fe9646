import Solpg.Std.CodeUnits
import Solpg.Std.EditLine

/-!
# Words and ends of an input

Where the cursor goes when it moves by a word, and whether an input goes on after Enter.
-/

namespace Solpg.Client.Utils.Terminal

open Solpg.Std

/-- Get all the word boundaries from the given input: where the matches of `/\w+/g` start,
or where they end. -/
def getWordBoundaries (input : CodeUnits) (leftSide : Bool) : List Nat :=
  if leftSide then Runs.starts CodeUnits.isWordUnit 0 none input
  else Runs.ends CodeUnits.isWordUnit 0 none input

/-- Get the closest *left* word boundary of the given input at the given offset. -/
def closestLeftBoundary (input : CodeUnits) (offset : Int) : Nat :=
  ((getWordBoundaries input true).reverse.find? fun x : Nat => (x : Int) < offset).getD 0

/-- Get the closest *right* word boundary of the given input at the given offset. -/
def closestRightBoundary (input : CodeUnits) (offset : Int) : Nat :=
  ((getWordBoundaries input false).find? fun x : Nat => offset < (x : Int)).getD input.length

theorem closestLeftBoundary_eq (line : EditLine UInt16) :
    closestLeftBoundary line.text line.cursor = (line.wordLeft CodeUnits.isWordUnit).cursor := by
  have found := Runs.find?_starts CodeUnits.isWordUnit line.before line.after
  rw [closestLeftBoundary, getWordBoundaries, if_pos rfl]
  simp only [EditLine.cursor, Int.ofNat_lt]
  exact found

theorem closestRightBoundary_eq (line : EditLine UInt16) :
    closestRightBoundary line.text line.cursor = (line.wordRight CodeUnits.isWordUnit).cursor := by
  have found := Runs.find?_ends CodeUnits.isWordUnit line.before line.after
  rw [closestRightBoundary, getWordBoundaries, if_neg Bool.false_ne_true]
  simp only [EditLine.cursor, Int.ofNat_lt]
  refine found.trans ?_
  simp only [EditLine.wordRight, List.length_append, List.length_take]
  omega

/-- The last piece of the input when it is split at `/(\|\||\||&&)/g`, after what has been
read of the piece. -/
def lastPiece (piece : CodeUnits) : CodeUnits → CodeUnits
  | [] => piece
  | [unit] => if unit = CodeUnits.pipe then [] else piece ++ [unit]
  | first :: second :: rest =>
      if first = CodeUnits.pipe then
        if second = CodeUnits.pipe then lastPiece [] rest else lastPiece [] (second :: rest)
      else if first = CodeUnits.ampersand ∧ second = CodeUnits.ampersand then lastPiece [] rest
      else lastPiece (piece ++ [first]) (second :: rest)

/-- Checks if there is an incomplete input: one with unterminated single or double quotes,
with an incomplete boolean or pipe expression, or that ends with a backslash. -/
def isIncompleteInput (input : CodeUnits) : Bool :=
  if CodeUnits.trim input = [] then false
  else if input.count CodeUnits.singleQuote % 2 ≠ 0 then true
  else if input.count CodeUnits.doubleQuote % 2 ≠ 0 then true
  else if CodeUnits.trim (lastPiece [] input) = [] then true
  else [CodeUnits.backslash] <:+ input ∧ ¬ [CodeUnits.backslash, CodeUnits.backslash] <:+ input

end Solpg.Client.Utils.Terminal
