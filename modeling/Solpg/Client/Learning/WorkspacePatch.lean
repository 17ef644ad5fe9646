import Solpg.Client.Utils.Explorer.Paths
import Solpg.Std.Outcome

/-!
# The patch that the tutor proposes

`validateWorkspacePatch` and the shape of the paths that it accepts: they lead
into `src` or `tests`, but dots for the directory itself are not refused.
-/

namespace Solpg.Client.Learning

open Solpg.Std Solpg.Client.Utils

def MAX_PATCH_FILES : Nat := 16

def MAX_FILE_CONTENT_LENGTH : Nat := 128 * 1024

structure PatchFile where
  path : Text
  content : Text
  deriving DecidableEq, Repr

structure WorkspacePatch where
  title : Text
  explanation : Text
  learningObjective : Text
  files : List PatchFile
  deriving DecidableEq, Repr

def textOr (value : Option Json) (fallback : String) : Text :=
  match value with
  | some (.string text) => text
  | _ => fallback.toList

def unsafePath : JsError := .ofMessage "The tutor proposed an unsafe workspace path."

def validRoot (path : Text) : Bool :=
  path.startsWith "src/".toList || path.startsWith "tests/".toList

/-- The body of `files.map` in `validateWorkspacePatch`. -/
def validateFile (candidate : Json) : Except JsError PatchFile :=
  match Json.property candidate "path", Json.property candidate "content" with
  | some (.string path), some (.string content) =>
      if !validRoot path || path.includes "..".toList || path.includes "//".toList ||
          MAX_FILE_CONTENT_LENGTH < content.utf16Length then
        .error unsafePath
      else .ok ⟨path, content⟩
  | _, _ => .error unsafePath

def proposedFiles (value : Json) : List Json :=
  match Json.property value "files" with
  | some (.array files) => files
  | _ => []

def validateWorkspacePatch (value : Json) : Except JsError WorkspacePatch :=
  let files := proposedFiles value
  if files.isEmpty || MAX_PATCH_FILES < files.length then
    .error (.ofMessage "The tutor proposed an invalid number of files.")
  else
    (files.mapM validateFile).map fun files =>
      { title := textOr (Json.property value "title") "Tutor code proposal"
        explanation := textOr (Json.property value "explanation") ""
        learningObjective := textOr (Json.property value "learningObjective") ""
        files }

/-- What is checked of a path. -/
structure SafePath (path : Text) : Prop where
  root : validRoot path = true
  noDotDot : path.includes "..".toList = false
  noDoubleSlash : path.includes "//".toList = false

theorem validateFile_ok {candidate : Json} {file : PatchFile}
    (valid : validateFile candidate = .ok file) :
    SafePath file.path ∧ file.content.utf16Length ≤ MAX_FILE_CONTENT_LENGTH := by
  rw [validateFile] at valid
  split at valid
  next path content _ _ =>
    split at valid
    · cases valid
    next accepted =>
      cases valid
      simp only [Bool.or_eq_true, Bool.not_eq_true', decide_eq_true_eq, not_or, not_lt] at accepted
      obtain ⟨⟨⟨root, noDotDot⟩, noDoubleSlash⟩, short⟩ := accepted
      exact ⟨⟨by simpa using root, by simpa using noDotDot, by simpa using noDoubleSlash⟩, short⟩
  · cases valid

theorem validateWorkspacePatch_ok {value : Json} {patch : WorkspacePatch}
    (valid : validateWorkspacePatch value = .ok patch) :
    patch.files ≠ [] ∧ ∀ file ∈ patch.files, SafePath file.path := by
  rw [validateWorkspacePatch] at valid
  split at valid
  · cases valid
  next number =>
    rw [Bool.or_eq_true, not_or, List.isEmpty_iff] at number
    cases checked : (proposedFiles value).mapM validateFile with
    | error error =>
        rw [checked] at valid
        cases valid
    | ok files =>
        rw [checked] at valid
        cases valid
        have each := Outcome.mapM_eq_ok_iff.mp checked
        refine ⟨fun none_ => number.1 ?_, fun file member => ?_⟩
        · exact List.length_eq_zero_iff.mp (each.length_eq.trans (List.length_eq_zero_iff.mpr none_))
        · obtain ⟨index, inside, rfl⟩ := List.getElem_of_mem member
          exact (validateFile_ok (each.get (each.length_eq ▸ inside) inside)).1

theorem SafePath.pieces {path : Text} (safe : SafePath path) : ∃ root rest, rest ≠ [] ∧
    path.splitOn '/' = root :: rest ∧ (root = "src".toList ∨ root = "tests".toList) := by
  have valid := safe.root
  rw [validRoot, Bool.or_eq_true, startsWith_iff, startsWith_iff] at valid
  have split : ∀ root tail : Text, '/' ∉ root →
      (root ++ '/' :: tail).splitOn '/' = root :: tail.splitOn '/' :=
    fun root tail noSlash => List.splitOn_append_cons_self_of_not_mem noSlash tail
  obtain ⟨tail, rfl⟩ | ⟨tail, rfl⟩ := valid
  · exact ⟨_, _, List.splitOn_ne_nil _ _, split "src".toList tail (by decide), .inl rfl⟩
  · exact ⟨_, _, List.splitOn_ne_nil _ _, split "tests".toList tail (by decide), .inr rfl⟩

/-- A safe path that does not end with a slash consists of names and dots. -/
theorem SafePath.rough {path : Text} (safe : SafePath path) (noSlash : path.endsWith slash = false) :
    UnixPath.Rough (path.splitOn '/') := by
  intro name member
  refine ⟨?_, UnixPath.slashless_splitOn path name member, ?_⟩
  · rintro rfl
    obtain ⟨before, after, split⟩ := List.append_of_mem member
    have whole := UnixPath.text_splitOn path
    rw [split] at whole
    obtain ⟨root, rest, -, shape, isRoot⟩ := safe.pieces
    cases before with
    | nil =>
        -- The first piece is the root folder.
        rw [split, List.nil_append, List.cons.injEq] at shape
        obtain ⟨rfl, -⟩ := shape
        simp at isRoot
    | cons first before =>
        have path_ : first ++ UnixPath.text before ++ '/' :: UnixPath.text after = path := by
          simpa using whole
        cases after with
        | nil =>
            have ends : path.endsWith slash = true :=
              (endsWith_iff _ _).mpr ⟨first ++ UnixPath.text before, by simpa [slash] using path_⟩
            rw [noSlash] at ends
            cases ends
        | cons next after =>
            have double : path.includes "//".toList = true := by
              rw [Text.includes_iff]
              exact ⟨first ++ UnixPath.text before, next ++ UnixPath.text after, by
                rw [← path_]
                simp⟩
            rw [safe.noDoubleSlash] at double
            cases double
  · rintro rfl
    have piece := @UnixPath.infix_intercalate ['/'] _ _ member
    rw [List.intercalate_splitOn] at piece
    have up := (Text.includes_iff path "..".toList).mpr piece
    rw [safe.noDotDot] at up
    cases up

end Solpg.Client.Learning
