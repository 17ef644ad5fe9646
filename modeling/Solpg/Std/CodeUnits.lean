import Solpg.Std.Text
import Mathlib.Data.List.DropRight

/-!
# Strings as lists of code units

A string of ECMAScript is a list of code units of UTF-16, which `length` counts and
`charAt` reads. A character outside the basic plane takes two of them.
-/

namespace Solpg.Std

/-- A string of ECMAScript as its code units. -/
abbrev CodeUnits := List UInt16

namespace CodeUnits

/-- What holds of each unit of a text is decided along the text, and not along all units there
are. -/
instance (p : UInt16 → Prop) [DecidablePred p] (text : CodeUnits) :
    Decidable (∀ unit ∈ text, p unit) := List.decidableBAll p text

/-- The code units of a character. -/
def ofChar (char : Char) : CodeUnits :=
  if char.toNat < 0x10000 then [char.toNat.toUInt16]
  else
    let offset := char.toNat - 0x10000
    [(0xd800 + offset / 0x400).toUInt16, (0xdc00 + offset % 0x400).toUInt16]

/-- The code units of a text. -/
def ofText (text : Text) : CodeUnits := text.flatMap ofChar

/-- `\n`. -/
def lineFeed : UInt16 := 0x0a

/-- `\r`. -/
def carriageReturn : UInt16 := 0x0d

/-- A blank. -/
def space : UInt16 := 0x20

/-- A double quote. -/
def doubleQuote : UInt16 := 0x22

/-- A single quote. -/
def singleQuote : UInt16 := 0x27

/-- A backslash. -/
def backslash : UInt16 := 0x5c

/-- `&`. -/
def ampersand : UInt16 := 0x26

/-- `\|`. -/
def pipe : UInt16 := 0x7c

/-- `\t`. -/
def tab : UInt16 := 0x09

/-- What ends a line. -/
def isLineTerminator (unit : UInt16) : Bool :=
  unit ∈ ([0x0a, 0x0d, 0x2028, 0x2029] : List UInt16)

/-- White space and line terminators, which `trim` removes. -/
def isSpace (unit : UInt16) : Bool :=
  isLineTerminator unit ∨ (0x2000 ≤ unit ∧ unit ≤ 0x200a) ∨
    unit ∈ ([0x09, 0x0b, 0x0c, 0x20, 0xa0, 0x1680, 0x202f, 0x205f, 0x3000, 0xfeff] : List UInt16)

/-- `String.prototype.trim`. -/
def trim (text : CodeUnits) : CodeUnits := (text.dropWhile isSpace).rdropWhile isSpace

/-- `\w` of a regular expression -/
def isWordUnit (unit : UInt16) : Bool :=
  (0x30 ≤ unit ∧ unit ≤ 0x39) ∨ (0x41 ≤ unit ∧ unit ≤ 0x5a) ∨ (0x61 ≤ unit ∧ unit ≤ 0x7a) ∨
    unit = 0x5f

/-- `substring` brings its bounds into the text, and swaps them when they are not in order. -/
def substring (text : CodeUnits) (start finish : Int) : CodeUnits :=
  let start := min start.toNat text.length
  let finish := min finish.toNat text.length
  (text.take (max start finish)).drop (min start finish)

/-- `String.prototype.includes` -/
def includes (text piece : CodeUnits) : Bool := text.tails.any piece.isPrefixOf

/-- `String.prototype.indexOf` -/
def indexOf (piece : CodeUnits) : CodeUnits → Option Nat
  | [] => if piece = [] then some 0 else none
  | unit :: rest =>
      if piece.isPrefixOf (unit :: rest) then some 0 else (indexOf piece rest).map (· + 1)

/-- `String.prototype.replaceAll` with a pattern that is not empty and a replacement without
dollar signs. So many units belong to the place before. -/
def replaceFrom (pattern replacement : CodeUnits) : (skipped : Nat) → CodeUnits → CodeUnits
  | _, [] => []
  | skipped + 1, _ :: rest => replaceFrom pattern replacement skipped rest
  | 0, unit :: rest =>
      if pattern.isPrefixOf (unit :: rest)
      then replacement ++ replaceFrom pattern replacement (pattern.length - 1) rest
      else unit :: replaceFrom pattern replacement 0 rest

/-- Replace every occurrence of a pattern. -/
def replaceAll (text pattern replacement : CodeUnits) : CodeUnits :=
  replaceFrom pattern replacement 0 text

/-- `Array.from` of a string: the two code units of a character stay together. -/
def codePoints : CodeUnits → List CodeUnits
  | high :: low :: rest =>
      if (0xd800 ≤ high ∧ high ≤ 0xdbff) ∧ (0xdc00 ≤ low ∧ low ≤ 0xdfff)
      then [high, low] :: codePoints rest
      else [high] :: codePoints (low :: rest)
  | [unit] => [[unit]]
  | [] => []

/-! ## Lines -/

/-- A text without a mark is at the start of another one when it is at the start of what comes
before the mark. -/
theorem prefix_append_cons_iff {α : Type*} {part before after : List α} {mark : α}
    (notIn : mark ∉ part) : part <+: before ++ mark :: after ↔ part <+: before := by
  refine ⟨?_, fun starts => starts.trans (List.prefix_append _ _)⟩
  rintro ⟨more, whole⟩
  obtain ⟨other, same, -⟩ | ⟨other, same, ends⟩ := List.append_eq_append_iff.mp whole
  · exact ⟨other, same.symm⟩
  · cases other with
    | nil => exact ⟨[], by rw [same, List.append_nil, List.append_nil]⟩
    | cons first other =>
        obtain rfl := (List.cons.inj ends).1
        rw [same] at notIn
        exact absurd (List.mem_append_right _ List.mem_cons_self) notIn

variable {pattern replacement : CodeUnits} {mark unit : UInt16}

/-- A mark that is found is there. -/
theorem mem_of_indexOf_singleton {text : CodeUnits} {index : Nat}
    (found : indexOf [mark] text = some index) : mark ∈ text := by
  induction text generalizing index with
  | nil => exact absurd found nofun
  | cons unit rest ih =>
      rw [indexOf] at found
      split at found
      next starts =>
        obtain ⟨after, whole⟩ := List.isPrefixOf_iff_prefix.mp starts
        rw [← whole]
        exact List.mem_cons_self
      next =>
        obtain ⟨inner, later, -⟩ := Option.map_eq_some_iff.mp found
        exact List.mem_cons_of_mem _ (ih later)

/-- A mark that is not found is not there. -/
theorem not_mem_of_indexOf_singleton {text : CodeUnits} (none : indexOf [mark] text = none) :
    mark ∉ text := by
  induction text with
  | nil => exact List.not_mem_nil
  | cons unit rest ih =>
      rw [indexOf] at none
      split at none
      · cases none
      · next other =>
          have differs : mark ≠ unit := fun same => other (by simp [same])
          exact List.not_mem_cons_of_ne_of_not_mem differs (ih (Option.map_eq_none_iff.mp none))

/-- What stands in the result stood in the text, or stands in the replacement. -/
theorem mem_replaceFrom {skipped : Nat} {text : CodeUnits}
    (among : unit ∈ replaceFrom pattern replacement skipped text) :
    unit ∈ text ∨ unit ∈ replacement := by
  induction text generalizing skipped with
  | nil => exact absurd among (by cases skipped <;> exact List.not_mem_nil)
  | cons first rest ih =>
      cases skipped with
      | succ skipped => exact (ih among).imp_left (List.mem_cons_of_mem _)
      | zero =>
          rw [replaceFrom] at among
          split at among
          next =>
            obtain inserted | later := List.mem_append.mp among
            · exact .inr inserted
            · exact (ih later).imp_left (List.mem_cons_of_mem _)
          next =>
            obtain rfl | later := List.mem_cons.mp among
            · exact .inl List.mem_cons_self
            · exact (ih later).imp_left (List.mem_cons_of_mem _)

/-- A pattern without a mark is replaced before the mark and after it. -/
theorem replaceFrom_append_cons (nonempty : pattern ≠ []) (notIn : mark ∉ pattern)
    (after : CodeUnits) {skipped : Nat} {before : CodeUnits} (within : skipped ≤ before.length) :
    replaceFrom pattern replacement skipped (before ++ mark :: after) =
      replaceFrom pattern replacement skipped before ++ mark :: after.replaceAll pattern replacement := by
  induction before generalizing skipped with
  | nil =>
      obtain rfl := Nat.le_zero.mp within
      have elsewhere : ¬ pattern <+: mark :: after := by
        rw [← List.nil_append (mark :: after), prefix_append_cons_iff notIn]
        exact fun empty => nonempty (List.prefix_nil.mp empty)
      have passed : replaceFrom pattern replacement 0 (mark :: after) =
          mark :: replaceFrom pattern replacement 0 after := by
        rw [replaceFrom, if_neg (mt List.isPrefixOf_iff_prefix.mp elsewhere)]
      exact passed
  | cons first before ih =>
      cases skipped with
      | succ skipped => exact ih (Nat.le_of_succ_le_succ within)
      | zero =>
          have here : pattern.isPrefixOf (first :: (before ++ mark :: after)) =
              pattern.isPrefixOf (first :: before) := by
            rw [Bool.eq_iff_iff, List.isPrefixOf_iff_prefix, List.isPrefixOf_iff_prefix,
              ← List.cons_append, prefix_append_cons_iff notIn]
          rw [List.cons_append, replaceFrom, replaceFrom, here]
          split
          next starts =>
            have least := (List.isPrefixOf_iff_prefix.mp starts).length_le
            rw [List.length_cons] at least
            rw [ih (by omega), List.append_assoc]
          next => rw [ih (Nat.zero_le _), List.cons_append]

/-- It is replaced in each line. -/
theorem splitOn_replaceAll (nonempty : pattern ≠ []) (notIn : mark ∉ pattern)
    (notInserted : mark ∉ replacement) (text : CodeUnits) :
    (text.replaceAll pattern replacement).splitOn mark =
      (text.splitOn mark).map fun line => replaceAll line pattern replacement := by
  induction size : text.length using Nat.strong_induction_on generalizing text with
  | _ count ih =>
      by_cases marked : mark ∈ text
      · obtain ⟨before, after, rfl, -⟩ := List.eq_append_cons_of_mem marked
        have shorter : after.length < count := by
          rw [← size, List.length_append, List.length_cons]
          omega
        have shorterBefore : before.length < count := by
          rw [← size, List.length_append, List.length_cons]
          omega
        rw [replaceAll, replaceFrom_append_cons nonempty notIn after (Nat.zero_le _),
          List.splitOn_append_cons_self, List.splitOn_append_cons_self, List.map_append,
          ih _ shorter after rfl]
        congr 1
        exact ih _ shorterBefore before rfl
      · have plain : mark ∉ text.replaceAll pattern replacement :=
          fun among => (mem_replaceFrom among).elim marked notInserted
        rw [List.splitOn_eq_singleton plain, List.splitOn_eq_singleton marked]
        rfl

end CodeUnits
end Solpg.Std
