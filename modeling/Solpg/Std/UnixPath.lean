import Mathlib.Data.List.Infix
import Solpg.Std.Text

/-!
# Unix paths

A path is whether it is absolute and its components, as `std::path` sees them:
repeated slashes and `.` are gone, `..` is kept. `location` is where the path
leads from a working directory when no component is a symbolic link.
-/

namespace Solpg.Std

/-- A path. -/
structure UnixPath where
  absolute : Bool
  components : List Text
  deriving DecidableEq, Repr

namespace UnixPath

/-- The name that leads up. -/
def dotDot : Text := ['.', '.']

/-- `Path::new`. -/
def ofText (text : Text) : UnixPath where
  absolute := text.head? = some '/'
  components := (text.splitOn '/').filter fun name => !(name.isEmpty || name = ['.'])

/-- `Path::join`: an absolute path takes the place of the base. -/
def join (base path : UnixPath) : UnixPath :=
  if path.absolute then path else ⟨base.absolute, base.components ++ path.components⟩

/-- `Path::parent`. -/
def parent (path : UnixPath) : Option UnixPath :=
  if path.components.isEmpty then none
  else some { path with components := path.components.dropLast }

/-- The part of a file name before its last dot, if something stands there. -/
def fileStem (name : Text) : Text :=
  match (name.reverse.dropWhile (· ≠ '.')).drop 1 with
  | [] => name
  | before => before.reverse

/-- `Path::with_extension`: only a last component other than `..` is a file name. -/
def withExtension (path : UnixPath) (extension : Text) : UnixPath :=
  match path.components.getLast? with
  | some name =>
      if name = dotDot then path
      else
        { path with
          components := path.components.dropLast ++ [fileStem name ++ '.' :: extension] }
  | none => path

/-- Follow the components; the root is its own parent. -/
def follow (start : List Text) (components : List Text) : List Text :=
  components.foldl (fun place name => if name = dotDot then place.dropLast else place ++ [name]) start

/-- Where a path leads from the working directory. -/
def location (cwd : List Text) (path : UnixPath) : List Text :=
  follow (if path.absolute then [] else cwd) path.components

/-- The path leads to the directory `dir` of the working directory or to
something below it. -/
def Inside (cwd : List Text) (dir : Text) (path : UnixPath) : Prop :=
  cwd ++ [dir] <+: path.location cwd

instance (cwd : List Text) (dir : Text) (path : UnixPath) : Decidable (path.Inside cwd dir) :=
  inferInstanceAs (Decidable (_ <+: _))

/-- The path has a character that no file call accepts. -/
def hasNul (path : UnixPath) : Bool := path.components.any fun name => name.contains '\x00'

/-- A name that stands for an entry of a directory. -/
def IsName (name : Text) : Prop :=
  name ≠ [] ∧ '/' ∉ name ∧ name ≠ ['.'] ∧ name ≠ dotDot

instance (name : Text) : Decidable (IsName name) := inferInstanceAs (Decidable (_ ∧ _))

/-- The path of an entry. -/
def entry (path : UnixPath) (name : Text) : UnixPath :=
  { path with components := path.components ++ [name] }

variable {cwd : List Text} {dir name : Text} {path base : UnixPath}

/-- A name is a path of one component. -/
theorem ofText_of_isName (isName : IsName name) : ofText name = ⟨false, [name]⟩ := by
  obtain ⟨nonempty, noSlash, notDot, -⟩ := isName
  have relative : name.head? ≠ some '/' := fun first => noSlash (List.mem_of_mem_head? first)
  simp [ofText, relative, List.splitOn_eq_singleton noSlash, nonempty, notDot]

/-- Joining a name adds a component. -/
theorem join_name (isName : IsName name) (base : UnixPath) :
    base.join (ofText name) = base.entry name := by
  simp [join, entry, ofText_of_isName isName]

/-- Components may be followed in two goes. -/
theorem follow_append (start first second : List Text) :
    follow start (first ++ second) = follow (follow start first) second :=
  List.foldl_append

/-- An absolute path replaces what it is joined to. -/
@[simp] theorem join_absolute (absolute : path.absolute = true) : base.join path = path := by
  simp [join, absolute]

/-- An entry is one name further. -/
theorem location_entry (notUp : name ≠ dotDot) (path : UnixPath) :
    (path.entry name).location cwd = path.location cwd ++ [name] :=
  (follow_append _ _ _).trans (if_neg notUp)

/-- An entry of a directory inside is inside. -/
theorem Inside.entry (inside : path.Inside cwd dir) (notUp : name ≠ dotDot) :
    (path.entry name).Inside cwd dir := by
  rw [Inside, location_entry notUp]
  exact inside.trans (List.prefix_append _ _)

/-- Only an entry of the name `dir` can be inside when its directory is not. -/
theorem inside_entry_iff (notUp : name ≠ dotDot) (other : name ≠ dir) :
    (path.entry name).Inside cwd dir ↔ path.Inside cwd dir := by
  rw [Inside, location_entry notUp, List.prefix_concat_iff]
  constructor
  · rintro (same | inside)
    · exact absurd (List.append_inj_right' same rfl) (by simpa using other.symm)
    · exact inside
  · exact .inr

/-- Names keep to the directory they start in. -/
theorem follow_of_names {names : List Text} (down : ∀ name ∈ names, name ≠ dotDot)
    (start : List Text) : follow start names = start ++ names := by
  induction names generalizing start with
  | nil => simp [follow]
  | cons name rest ih =>
      have first := down name List.mem_cons_self
      have others := ih (fun other member => down other (List.mem_cons_of_mem _ member))
        (start ++ [name])
      simpa [follow, first] using others

/-- A relative path below `dir` that never goes up is inside. -/
theorem inside_of_names {names : List Text} (down : ∀ name ∈ names, name ≠ dotDot)
    (start : dir ≠ dotDot) : (⟨false, dir :: names⟩ : UnixPath).Inside cwd dir := by
  have all : ∀ name ∈ dir :: names, name ≠ dotDot := by
    intro name member
    rcases List.mem_cons.mp member with rfl | member
    · exact start
    · exact down name member
  simp only [Inside, location, Bool.false_eq_true, if_false, follow_of_names all]
  exact ⟨names, by simp⟩

/-- Every piece is an infix of the joined text. -/
theorem infix_intercalate {separator piece : Text} {pieces : List Text} (member : piece ∈ pieces) :
    piece <:+: separator.intercalate pieces := by
  induction pieces with
  | nil => cases member
  | cons first rest ih =>
      cases rest with
      | nil =>
          obtain rfl := List.mem_singleton.mp member
          simp
      | cons second others =>
          rw [List.intercalate_cons_cons]
          rcases List.mem_cons.mp member with rfl | later
          · exact ⟨[], separator ++ separator.intercalate (second :: others), by simp⟩
          · exact (ih later).trans (List.suffix_append _ _).isInfix

/-- A component of a text is a piece of it. -/
theorem infix_of_mem_components {text : Text} (member : name ∈ (ofText text).components) :
    name <:+: text := by
  have piece : name ∈ text.splitOn '/' := (List.mem_filter.mp member).1
  have whole := @infix_intercalate ['/'] _ _ piece
  rwa [List.intercalate_splitOn] at whole

end UnixPath
end Solpg.Std
