import Mathlib.Data.List.TakeWhile

/-!
# The string functions of Rust

`str::trim` of the standard library, on a string as the list of its characters. Rust
takes the `White_Space` property of Unicode, which is not what ECMAScript strips:
U+0085 is white space here and U+FEFF is none.
-/

namespace Solpg.Std.RustStr

/-- `char::is_whitespace`: the `White_Space` property of Unicode. -/
def isWhitespace (char : Char) : Bool :=
  (9 ≤ char.toNat && char.toNat ≤ 13) || char.toNat == 0x20 || char.toNat == 0x85 ||
    char.toNat == 0xa0 || char.toNat == 0x1680 ||
    (0x2000 ≤ char.toNat && char.toNat ≤ 0x200a) || char.toNat == 0x2028 ||
    char.toNat == 0x2029 || char.toNat == 0x202f || char.toNat == 0x205f || char.toNat == 0x3000

/-- `str::trim`. -/
def trim (text : List Char) : List Char :=
  ((text.dropWhile isWhitespace).reverse.dropWhile isWhitespace).reverse

/-- Blanks in front of a text do not matter. -/
theorem trim_space_cons (text : List Char) : trim (' ' :: text) = trim text := by
  simp [trim, isWhitespace]

/-- Dropping what a text has nothing of keeps the text. -/
theorem dropWhile_eq_self {text : List Char} (solid : ∀ char ∈ text, isWhitespace char = false) :
    text.dropWhile isWhitespace = text := by
  cases text with
  | nil => rfl
  | cons char rest => exact List.dropWhile_cons_of_neg (by simp [solid char List.mem_cons_self])

/-- A text without white space is its own trim. -/
theorem trim_eq_self {text : List Char} (solid : ∀ char ∈ text, isWhitespace char = false) :
    trim text = text := by
  have reversed : ∀ char ∈ text.reverse, isWhitespace char = false :=
    fun char member => solid char (List.mem_reverse.mp member)
  rw [trim, dropWhile_eq_self solid, dropWhile_eq_self reversed, List.reverse_reverse]

/-- A text that starts with what is no white space is not trimmed to nothing. -/
theorem trim_cons_isEmpty {char : Char} {rest : List Char} (visible : isWhitespace char = false) :
    (trim (char :: rest)).isEmpty = false := by
  rw [trim, List.dropWhile_cons_of_neg (by simp [visible]), List.isEmpty_reverse]
  cases dropped : (char :: rest).reverse.dropWhile isWhitespace with
  | cons => rfl
  | nil =>
      have spaces := List.dropWhile_eq_nil_iff.mp dropped char (by simp)
      exact absurd spaces (by simp [visible])

end Solpg.Std.RustStr
