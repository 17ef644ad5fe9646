import Mathlib.Algebra.GroupWithZero.Nat
import Mathlib.Data.List.Infix
import Mathlib.Data.List.TakeWhile

/-!
# Texts and JSON values

A `Text` is a string as the list of its characters, with the string functions
of ECMAScript that the client uses. `Json` is the result of `JSON.parse`.
-/

namespace Solpg.Std

/-- A string as the list of its characters. -/
abbrev Text := List Char

namespace Text

/-- One name for the law by which membership in a list of texts is decided. -/
instance : LawfulBEq Text := inferInstance

/-- `\w` of ECMAScript. -/
def isWord (char : Char) : Bool := char.isAlphanum || char = '_'

/-- What `String.prototype.trim` strips: white space and line terminators. -/
def isSpace (char : Char) : Bool :=
  (9 ≤ char.toNat && char.toNat ≤ 13) || char.toNat == 0x20 || char.toNat == 0xa0 ||
    char.toNat == 0x1680 || (0x2000 ≤ char.toNat && char.toNat ≤ 0x200a) ||
    char.toNat == 0x2028 || char.toNat == 0x2029 || char.toNat == 0x202f ||
    char.toNat == 0x205f || char.toNat == 0x3000 || char.toNat == 0xfeff

/-- What `.` does not match in a regular expression. -/
def isLineTerminator (char : Char) : Bool :=
  char = '\n' || char = '\r' || char = '\u2028' || char = '\u2029'

/-- `String.prototype.trim`. -/
def trim (text : Text) : Text :=
  ((text.dropWhile isSpace).reverse.dropWhile isSpace).reverse

/-- `String.prototype.startsWith`. -/
def startsWith (text start : Text) : Bool := start.isPrefixOf text

/-- `String.prototype.includes`. -/
def includes (text piece : Text) : Bool := text.tails.any piece.isPrefixOf

/-- `String.prototype.endsWith`. -/
def endsWith (text finish : Text) : Bool := finish.isSuffixOf text

/-- The patterns with a dollar sign that `String.prototype.replace` expands in
its replacement. -/
def expand (matched before after : Text) : Text → Text
  | '$' :: '$' :: rest => '$' :: expand matched before after rest
  | '$' :: '&' :: rest => matched ++ expand matched before after rest
  | '$' :: '\x60' :: rest => before ++ expand matched before after rest
  | '$' :: '\x27' :: rest => after ++ expand matched before after rest
  | char :: rest => char :: expand matched before after rest
  | [] => []

/-- `String.prototype.replace` with a string for pattern, from a position on. -/
def replaceFrom (pattern replacement before : Text) : Text → Text
  | [] => if pattern.isEmpty then before ++ expand pattern before [] replacement else before
  | char :: rest =>
      if pattern.isPrefixOf (char :: rest) then
        let after := (char :: rest).drop pattern.length
        before ++ expand pattern before after replacement ++ after
      else replaceFrom pattern replacement (before ++ [char]) rest

/-- `String.prototype.replace`: only the first place is replaced. -/
def replace (text pattern replacement : Text) : Text := replaceFrom pattern replacement [] text

/-- `length`: the number of code units of UTF-16. -/
def utf16Length (text : Text) : Nat :=
  (text.map fun char => if char.toNat < 0x10000 then 1 else 2).sum

/-- The number of bytes of the text in UTF-8. -/
def utf8Length (text : Text) : Nat := (text.map Char.utf8Size).sum

/-- What a text is split at is in none of the pieces. -/
theorem not_mem_of_mem_splitOn {α : Type*} [BEq α] [LawfulBEq α] {mark : α} {text piece : List α}
    (member : piece ∈ text.splitOn mark) : mark ∉ piece := by
  induction text generalizing piece with
  | nil =>
      obtain rfl : piece = [] := by simpa using member
      exact List.not_mem_nil
  | cons char rest ih =>
      obtain ⟨first, others, split⟩ := List.exists_cons_of_ne_nil (List.splitOn_ne_nil mark rest)
      rw [List.splitOn_cons_eq_if_modifyHead, split] at member
      rw [split] at ih
      by_cases here : char = mark
      · rw [if_pos (by simpa using here)] at member
        rcases List.mem_cons.mp member with rfl | later
        · exact List.not_mem_nil
        · exact ih later
      · rw [if_neg (by simpa using here), List.modifyHead_cons] at member
        rcases List.mem_cons.mp member with rfl | later
        · simpa [Ne.symm here] using ih List.mem_cons_self
        · exact ih (List.mem_cons_of_mem _ later)

/-- Letters and digits are those of ASCII. -/
theorem isAlphanum_iff {char : Char} : char.isAlphanum = true ↔
    (48 ≤ char.toNat ∧ char.toNat ≤ 57) ∨ (65 ≤ char.toNat ∧ char.toNat ≤ 90) ∨
      (97 ≤ char.toNat ∧ char.toNat ≤ 122) := by
  have letter : char.isAlpha = (char.isUpper || char.isLower) := rfl
  have upper : char.isUpper = true ↔ 65 ≤ char.toNat ∧ char.toNat ≤ 90 := decide_eq_true_iff
  have lower : char.isLower = true ↔ 97 ≤ char.toNat ∧ char.toNat ≤ 122 :=
    Bool.and_eq_true_iff.trans (and_congr decide_eq_true_iff decide_eq_true_iff)
  have digit : char.isDigit = true ↔ 48 ≤ char.toNat ∧ char.toNat ≤ 57 :=
    Bool.and_eq_true_iff.trans (and_congr decide_eq_true_iff decide_eq_true_iff)
  rw [Char.isAlphanum, letter, Bool.or_eq_true, Bool.or_eq_true, upper, lower, digit]
  omega

/-- A text that begins and ends with no white space is its own trim. -/
theorem trim_eq_self {text : Text} (first : ∀ char ∈ text.head?, isSpace char = false)
    (last : ∀ char ∈ text.getLast?, isSpace char = false) : trim text = text := by
  have stays : ∀ text : Text, (∀ char ∈ text.head?, isSpace char = false) →
      text.dropWhile isSpace = text := by
    intro text first
    cases text with
    | nil => rfl
    | cons char rest => exact List.dropWhile_cons_of_neg (by simp [first char rfl])
  rw [trim, stays text first, stays text.reverse, List.reverse_reverse]
  simpa [List.head?_reverse] using last

/-- A text of white space only. -/
def Spaces (text : Text) : Prop := ∀ char ∈ text, isSpace char = true

/-- White space in front of a text is dropped with that of the text. -/
theorem dropWhile_spaces {front : Text} (text : Text) (spaces : Spaces front) :
    (front ++ text).dropWhile isSpace = text.dropWhile isSpace :=
  List.dropWhile_append_of_pos spaces

/-- A text has white space around its trim. -/
theorem spaces_around_trim (text : Text) :
    ∃ front back, Spaces front ∧ Spaces back ∧ text = front ++ (text.trim ++ back) := by
  refine ⟨text.takeWhile isSpace, ((text.dropWhile isSpace).reverse.takeWhile isSpace).reverse,
    fun char among => List.mem_takeWhile_imp among,
    fun char among => List.mem_takeWhile_imp (List.mem_reverse.mp among), ?_⟩
  rw [trim, ← List.reverse_append, List.takeWhile_append_dropWhile, List.reverse_reverse,
    List.takeWhile_append_dropWhile]

/-- A replacement without a dollar sign is taken as it is. -/
theorem expand_eq_self {replacement : Text} (plain : '$' ∉ replacement) (matched before after : Text) :
    expand matched before after replacement = replacement := by
  induction replacement with
  | nil => rfl
  | cons char rest ih =>
      have other : char ≠ '$' := fun same => plain (same ▸ List.mem_cons_self)
      rw [expand, ih fun member => plain (List.mem_cons_of_mem _ member)]
      all_goals
        rintro _ rfl
        exact absurd rfl other

/-- What a text starts with is the first place to be replaced. -/
theorem replaceFrom_append {pattern : Text} (nonempty : pattern ≠ []) (replacement passed after : Text) :
    replaceFrom pattern replacement passed (pattern ++ after) =
      passed ++ expand pattern passed after replacement ++ after := by
  obtain ⟨first, rest, rfl⟩ := List.exists_cons_of_ne_nil nonempty
  have here : (first :: rest).isPrefixOf (first :: (rest ++ after)) = true := by simp
  simp only [List.cons_append, replaceFrom, here, if_true]
  simp

/-- The first place of a text is the first one that is replaced. -/
theorem replace_append {first : Char} {rest : Text} (path : Text) :
    replace ((first :: rest) ++ path) (first :: rest) [] = path :=
  (replaceFrom_append (List.cons_ne_nil first rest) [] [] path).trans (by simp [expand])

/-- A place that is replaced is the first one. -/
theorem replaceFrom_split {pattern : Text} (replacement : Text) (nonempty : pattern ≠ [])
    (passed text : Text) (occurs : pattern <:+: text) : ∃ before after, text = before ++ (pattern ++ after) ∧
      (∀ other rest, text = other ++ (pattern ++ rest) → before.length ≤ other.length) ∧
      replaceFrom pattern replacement passed text =
        passed ++ before ++ expand pattern (passed ++ before) after replacement ++ after := by
  induction text generalizing passed with
  | nil => exact absurd (List.infix_nil.mp occurs) nonempty
  | cons char text ih =>
      by_cases here : pattern.isPrefixOf (char :: text) = true
      · obtain ⟨after, split⟩ := List.isPrefixOf_iff_prefix.mp here
        refine ⟨[], after, split.symm, fun _ _ _ => Nat.zero_le _, ?_⟩
        rw [replaceFrom, if_pos here, ← split, List.drop_left]
        simp
      · have later : pattern <:+: text :=
          (List.infix_cons_iff.mp occurs).resolve_left (mt List.isPrefixOf_iff_prefix.mpr here)
        obtain ⟨before, after, rfl, first, replaced⟩ := ih (passed ++ [char]) later
        refine ⟨char :: before, after, rfl, ?_, ?_⟩
        · intro other rest split
          cases other with
          | nil => exact absurd (List.isPrefixOf_iff_prefix.mpr ⟨rest, split.symm⟩) here
          | cons head other =>
              obtain ⟨-, split⟩ := List.cons.inj split
              exact Nat.succ_le_succ (first other rest split)
        · rw [replaceFrom, if_neg here, replaced]
          simp

/-- A text includes its infixes. -/
theorem includes_iff (text piece : Text) : text.includes piece = true ↔ piece <:+: text := by
  rw [includes, List.any_eq_true]
  simp only [List.isPrefixOf_iff_prefix, List.mem_tails]
  constructor
  · rintro ⟨tail, suffix, within⟩
    exact within.isInfix.trans suffix.isInfix
  · rintro ⟨before, after, rfl⟩
    exact ⟨piece ++ after, ⟨before, by simp⟩, List.prefix_append _ _⟩

end Text

/-- A number is kept as it is written. -/
inductive Json where
  | null
  | bool (value : Bool)
  | number (text : Text)
  | string (text : Text)
  | array (items : List Json)
  | object (fields : List (Text × Json))

namespace Json

/-- `value[key]` of what JSON gives, which is `undefined` if there is no such property. -/
def property (value : Json) (key : String) : Option Json :=
  match value with
  | object fields => fields.lookup key.toList
  | _ => none

/-- `None` is written as `null`. -/
def optional : Option Text → Json
  | none => null
  | some text => string text

/-- What holds of a value when it holds of its parts. -/
theorem induction {motive : Json → Prop} (null : motive null) (bool : ∀ value, motive (bool value))
    (number : ∀ text, motive (number text)) (string : ∀ text, motive (string text))
    (array : ∀ items, (∀ item ∈ items, motive item) → motive (array items))
    (object : ∀ fields, (∀ field ∈ fields, motive field.2) → motive (object fields)) :
    ∀ value, motive value
  | .null => null
  | .bool value => bool value
  | .number text => number text
  | .string text => string text
  | .array items => array items fun item _ => induction null bool number string array object item
  | .object fields => object fields fun field _ =>
      induction null bool number string array object field.2
termination_by value => sizeOf value
decreasing_by
  · rename_i among
    have := List.sizeOf_lt_of_mem among
    simp only [Json.array.sizeOf_spec]
    omega
  · rename_i among
    have := List.sizeOf_lt_of_mem among
    have : sizeOf field = 1 + sizeOf field.1 + sizeOf field.2 := rfl
    simp only [Json.object.sizeOf_spec]
    omega

end Json
end Solpg.Std
