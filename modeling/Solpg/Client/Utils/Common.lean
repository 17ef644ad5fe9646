import Mathlib.Data.List.Infix
import Solpg.Std.Text

/-!
# Paths as texts

The path functions of `PgCommon` and the utilities of `PgExplorer` that work on
the text of a path alone.
-/

namespace Solpg.Client.Utils

open Solpg.Std

def slash : Text := ['/']

namespace PgCommon

def appendSlash (str : Text) : Text := if str.endsWith slash then str else str ++ slash

def withoutPreSlash : Text → Text
  | '/' :: rest => rest
  | str => str

/-- `joinPaths` of two paths. -/
def joinPaths (first second : Text) : Text := appendSlash first ++ withoutPreSlash second

def isPathsEqual (pathOne pathTwo : Text) : Bool := appendSlash pathOne = appendSlash pathTwo

end PgCommon

open PgCommon

inductive ItemType where
  | file
  | folder
  deriving DecidableEq, Repr

def getItemNameFromPath (path : Text) : Text :=
  let items := path.splitOn '/'
  if path.endsWith slash then items.dropLast.getLastD [] else items.getLastD []

def getItemTypeFromName (itemName : Text) : ItemType :=
  if itemName.contains '.' then .file else .folder

def getItemTypeFromPath (path : Text) : ItemType := getItemTypeFromName (getItemNameFromPath path)

/-- A path of one name only has no parent: `reduce` of no names throws there,
and a full path is never one. -/
def getParentPathFromPath (path : Text) : Text :=
  let names := path.splitOn '/'
  let pad := if getItemTypeFromPath path = .folder ∧ path.endsWith slash then 2 else 1
  match names.eraseIdx (names.length - pad) with
  | [] => slash
  | first :: rest => appendSlash (rest.foldl (fun acc itemName => acc ++ slash ++ itemName) first)

/-- The regular expression asks for one character only: it is not anchored at
the end. Its range from dot to slash stands for these two. -/
def isItemNameValid (name : Text) : Bool :=
  (match name with
    | first :: _ => first ≠ '.' && (Text.isWord first || first = '/')
    | [] => false) &&
  !name.includes ['/', '/'] && !name.includes ['.', '.'] && !name.endsWith slash &&
  !name.endsWith ['.']

theorem appendSlash_of_endsWith {str : Text} (ends : str.endsWith slash = true) :
    appendSlash str = str := if_pos ends

theorem endsWith_appendSlash (str : Text) : (appendSlash str).endsWith slash = true := by
  by_cases ends : str.endsWith slash
  · rwa [appendSlash_of_endsWith ends]
  · rw [appendSlash, if_neg ends]
    exact List.isSuffixOf_iff_suffix.mpr (List.suffix_append _ _)

end Solpg.Client.Utils
