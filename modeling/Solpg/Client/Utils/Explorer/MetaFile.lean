import Solpg.Client.Utils.Explorer.Explorer

/-!
# The metadata file as JSON

What `JSON.stringify` writes of metadata whose paths have no control characters, and a reader
that gets back the metadata.
-/

namespace Solpg.Client.Utils

open Solpg.Std

namespace MetaFile

/-! ## Keys -/

/-- The text in front of the path. -/
@[irreducible] def pathKey : Text := "\x7b\"path\":".toList

/-- The text in front of `isTabs`. -/
@[irreducible] def isTabsKey : Text := ",\"isTabs\":".toList

/-- The text in front of `isCurrent`. -/
@[irreducible] def isCurrentKey : Text := ",\"isCurrent\":".toList

/-- The text in front of `topLineNumber`. -/
@[irreducible] def topLineNumberKey : Text := "\"position\":\x7b\"topLineNumber\":".toList

/-- The text in front of the selection's start. -/
@[irreducible] def fromKey : Text := "\"cursor\":\x7b\"from\":".toList

/-- The text in front of the selection's end. -/
@[irreducible] def toKey : Text := "\"to\":".toList

/-! ## Writing -/

/-- A quotation mark or a backslash is escaped. -/
def escape (char : Char) : Text := if char = '"' ∨ char = '\\' then ['\\', char] else [char]

/-- A text in quotation marks. -/
def writeString (text : Text) : Text := '"' :: (text.flatMap escape ++ ['"'])

/-- `true` or `false`. -/
def writeBool (value : Bool) : Text := if value then ['t', 'r', 'u', 'e'] else ['f', 'a', 'l', 's', 'e']

/-- A number in decimal. -/
def writeNumber (number : Nat) : Text := Nat.toDigits 10 number

/-- The position of an entry. -/
def writeBody (position : Position) : Text :=
  topLineNumberKey ++ writeNumber position.topLineNumber ++
    ',' :: (fromKey ++ writeNumber position.cursorFrom ++
      ',' :: (toKey ++ writeNumber position.cursorTo ++ ['\x7d', '\x7d', '\x7d']))

/-- A position that is `undefined` is not written. -/
def writePosition : Option Position → Text
  | none => ['\x7d']
  | some position => ',' :: writeBody position

/-- One entry of the metadata. -/
def writeEntry (entry : ItemMetaEntry) : Text :=
  pathKey ++ writeString entry.path ++
    isTabsKey ++ writeBool entry.isTabs ++
    isCurrentKey ++ writeBool entry.isCurrent ++ writePosition entry.position

/-- The entries behind the opening bracket. -/
def writeEntries : List ItemMetaEntry → Text
  | [] => [']']
  | [entry] => writeEntry entry ++ [']']
  | entry :: rest => writeEntry entry ++ ',' :: writeEntries rest

/-- The metadata file of these entries. -/
def write (entries : List ItemMetaEntry) : Text := '[' :: writeEntries entries

/-! ## Reading

A reader gives its value and the text that is left.
-/

/-- A literal is read. -/
def expect (literal text : Text) : Option Text :=
  if literal.isPrefixOf text then some (text.drop literal.length) else none

/-- The characters of a string are read up to its end. -/
def readChars : Text → Option (Text × Text)
  | '"' :: rest => some ([], rest)
  | '\\' :: char :: rest => (readChars rest).map fun read => (char :: read.1, read.2)
  | char :: rest => (readChars rest).map fun read => (char :: read.1, read.2)
  | [] => none

/-- A string is read. -/
def readString (text : Text) : Option (Text × Text) := (expect ['"'] text).bind readChars

/-- A boolean is read. -/
def readBool (text : Text) : Option (Bool × Text) :=
  match expect ['t', 'r', 'u', 'e'] text with
  | some rest => some (true, rest)
  | none => (expect ['f', 'a', 'l', 's', 'e'] text).map fun rest => (false, rest)

/-- A decimal number is read. -/
def readNumber (text : Text) : Option (Nat × Text) :=
  some (Nat.ofDigitChars 10 (text.takeWhile Char.isDigit) 0, text.dropWhile Char.isDigit)

/-- The position of an entry is read. -/
def readBody (text : Text) : Option (Position × Text) := do
  let text ← expect topLineNumberKey text
  let (topLineNumber, text) ← readNumber text
  let text ← expect [','] text
  let text ← expect fromKey text
  let (cursorFrom, text) ← readNumber text
  let text ← expect [','] text
  let text ← expect toKey text
  let (cursorTo, text) ← readNumber text
  let text ← expect ['\x7d', '\x7d', '\x7d'] text
  pure (⟨topLineNumber, cursorFrom, cursorTo⟩, text)

/-- The end of an entry is read, with or without a position. -/
def readPosition : Text → Option (Option Position × Text)
  | '\x7d' :: rest => some (none, rest)
  | ',' :: rest => (readBody rest).map fun read => (some read.1, read.2)
  | _ => none

/-- One entry is read. -/
def readEntry (text : Text) : Option (ItemMetaEntry × Text) := do
  let text ← expect pathKey text
  let (path, text) ← readString text
  let text ← expect isTabsKey text
  let (isTabs, text) ← readBool text
  let text ← expect isCurrentKey text
  let (isCurrent, text) ← readBool text
  let (position, text) ← readPosition text
  pure (⟨path, isTabs, isCurrent, position⟩, text)

/-- Each entry takes some of the text, so that its length is bound enough. -/
def readEntries : Nat → Text → Option (List ItemMetaEntry)
  | 0, _ => none
  | fuel + 1, text => do
      let (entry, text) ← readEntry text
      match text with
      | [']'] => some [entry]
      | ',' :: rest => (readEntries fuel rest).map fun entries => entry :: entries
      | _ => none

/-- The entries of a metadata file are read. -/
def read : Text → Option (List ItemMetaEntry)
  | '[' :: rest => if rest = [']'] then some [] else readEntries rest.length rest
  | _ => none

/-! ## What is written is read -/

@[simp] theorem expect_append (literal rest : Text) : expect literal (literal ++ rest) = some rest := by
  simp [expect]

/-- Escaped characters are read back. -/
theorem readChars_escape (text rest : Text) :
    readChars (text.flatMap escape ++ '"' :: rest) = some (text, rest) := by
  induction text with
  | nil => rfl
  | cons char text ih =>
      rw [List.flatMap_cons, List.append_assoc, escape]
      split
      · simp [readChars, ih]
      · rename_i plain
        rw [not_or] at plain
        rw [List.singleton_append, readChars, ih]
        · rfl
        · exact plain.1
        · exact fun _ _ same _ => plain.2 same

/-- A written string is read back. -/
@[simp] theorem readString_append (text rest : Text) :
    readString (writeString text ++ rest) = some (text, rest) := by
  have shape : writeString text ++ rest = ['"'] ++ (text.flatMap escape ++ '"' :: rest) := by
    simp [writeString]
  rw [readString, shape, expect_append, Option.bind_some, readChars_escape]

/-- A written boolean is read back. -/
@[simp] theorem readBool_append (value : Bool) (rest : Text) :
    readBool (writeBool value ++ rest) = some (value, rest) := by
  cases value with
  | true => simp only [readBool, writeBool, if_true, expect_append]
  | false =>
      have other : expect ['t', 'r', 'u', 'e'] (['f', 'a', 'l', 's', 'e'] ++ rest) = none := rfl
      simp only [readBool, writeBool, Bool.false_eq_true, if_false, other, expect_append,
        Option.map_some]

/-- What follows a number does not begin with a digit. -/
theorem readNumber_append (number : Nat) {first : Char} (stops : first.isDigit = false)
    (rest : Text) :
    readNumber (writeNumber number ++ first :: rest) = some (number, first :: rest) := by
  have digits : ∀ char ∈ Nat.toDigits 10 number, char.isDigit = true := fun char member =>
    Nat.isDigit_of_mem_toDigits (by omega) (by omega) member
  rw [readNumber, writeNumber, List.takeWhile_append_of_pos digits,
    List.dropWhile_append_of_pos digits, List.takeWhile_cons_of_neg (by simp [stops]),
    List.dropWhile_cons_of_neg (by simp [stops]), List.append_nil, Nat.ofDigitChars_ten_toDigits]

/-- A written position is read back. -/
theorem readBody_append (position : Position) (rest : Text) :
    readBody (writeBody position ++ rest) = some (position, rest) := by
  have comma : ∀ rest, expect [','] (',' :: rest) = some rest := fun rest => expect_append [','] rest
  have closing : expect ['\x7d', '\x7d', '\x7d'] ('\x7d' :: '\x7d' :: '\x7d' :: rest) = some rest :=
    expect_append ['\x7d', '\x7d', '\x7d'] rest
  simp only [readBody, writeBody, List.append_assoc, List.cons_append, List.nil_append,
    expect_append, readNumber_append _ (show ','.isDigit = false from rfl),
    readNumber_append _ (show '\x7d'.isDigit = false from rfl), comma, closing,
    Option.bind_eq_bind, Option.bind_some, Option.pure_def]

/-- The written end of an entry is read back. -/
@[simp] theorem readPosition_append (position : Option Position) (rest : Text) :
    readPosition (writePosition position ++ rest) = some (position, rest) := by
  cases position with
  | none => rfl
  | some position =>
      rw [writePosition, List.cons_append, readPosition, readBody_append]
      rfl

/-- A written entry is read back. -/
theorem readEntry_append (entry : ItemMetaEntry) (rest : Text) :
    readEntry (writeEntry entry ++ rest) = some (entry, rest) := by
  simp only [readEntry, writeEntry, List.append_assoc, expect_append, readString_append,
    readBool_append, readPosition_append, Option.bind_eq_bind, Option.bind_some, Option.pure_def]

/-- An entry has at least the quotes of its path. -/
theorem length_writeEntry (entry : ItemMetaEntry) : 2 ≤ (writeEntry entry).length := by
  simp only [writeEntry, writeString, List.length_append, List.length_cons, List.length_nil]
  omega

/-- The entries start with the first. -/
theorem writeEntries_cons (entry : ItemMetaEntry) (rest : List ItemMetaEntry) :
    ∃ last, writeEntries (entry :: rest) = writeEntry entry ++ last := by
  cases rest with
  | nil => exact ⟨_, rfl⟩
  | cons next rest => exact ⟨_, rfl⟩

/-- Written entries are read back, given a turn for each. -/
theorem readEntries_append {entries : List ItemMetaEntry} {fuel : Nat} (some_ : entries ≠ [])
    (enough : entries.length ≤ fuel) : readEntries fuel (writeEntries entries) = some entries := by
  induction entries generalizing fuel with
  | nil => exact absurd rfl some_
  | cons entry rest ih =>
      obtain ⟨fuel, rfl⟩ := Nat.exists_eq_add_one_of_ne_zero (show fuel ≠ 0 by
        rw [List.length_cons] at enough
        omega)
      cases rest with
      | nil =>
          rw [readEntries, writeEntries, readEntry_append]
          rfl
      | cons next rest =>
          have later := ih (List.cons_ne_nil next rest) (Nat.le_of_succ_le_succ enough)
          rw [readEntries, writeEntries, readEntry_append]
          · change (readEntries fuel (writeEntries (next :: rest))).map _ = _
            rw [later]
            rfl
          · exact List.cons_ne_nil next rest

/-- Every entry takes a character at least. -/
theorem length_writeEntries (entries : List ItemMetaEntry) :
    entries.length ≤ (writeEntries entries).length := by
  induction entries with
  | nil => exact Nat.zero_le _
  | cons entry rest ih =>
      have positive := length_writeEntry entry
      cases rest with
      | nil =>
          simp only [writeEntries, List.length_append, List.length_singleton]
          omega
      | cons next rest =>
          have whole : writeEntries (entry :: next :: rest) =
              writeEntry entry ++ ',' :: writeEntries (next :: rest) := rfl
          simp only [whole, List.length_append, List.length_cons] at ih ⊢
          omega

/-- Reading undoes writing. -/
theorem read_write (entries : List ItemMetaEntry) : read (write entries) = some entries := by
  cases entries with
  | nil => rfl
  | cons entry rest =>
      have some_ := List.cons_ne_nil entry rest
      have notEmpty : writeEntries (entry :: rest) ≠ [']'] := by
        intro same
        obtain ⟨last, whole⟩ := writeEntries_cons entry rest
        have long := length_writeEntry entry
        have lengths := congrArg List.length (whole.symm.trans same)
        rw [List.length_append, List.length_singleton] at lengths
        omega
      rw [write, read, if_neg notEmpty]
      exact readEntries_append some_ (length_writeEntries (entry :: rest))

/-- The list of workspaces, when there is a current one. -/
def writeWorkspaces (workspaces : Workspaces) : Text :=
  "\x7b\"currentName\":".toList ++ writeString (workspaces.currentName.getD []) ++
    ",\"allNames\":[".toList ++ [','].intercalate (workspaces.allNames.map writeString) ++
    "]\x7d".toList

end MetaFile

/-- `JSON` for the files of the explorer, without an explorer in `localStorage`. -/
def PgExplorer.jsonBrowser : Browser where
  lsFiles := none
  stringifyMetaFile := MetaFile.write
  parseMetaFile := MetaFile.read
  stringifyWorkspaces := MetaFile.writeWorkspaces

end Solpg.Client.Utils
