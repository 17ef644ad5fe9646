import Solpg.Std.CodeUnits
import Mathlib.Data.List.Basic

/-!
# Tokens of a command

`parse` walks over an input with the index of the current token, and one flag for both kinds
of quotes. A line is words with spaces before, between and after them; `parse` gives its
words back only where there is nothing to it that the index or the flag does not see.
-/

namespace Solpg.Client.Utils.Terminal

open Solpg.Std
open CodeUnits (ofText doubleQuote singleQuote)

/-- An entry of the array of tokens that is never set is `none`. -/
structure Parser where
  tokens : List (Option CodeUnits) := []
  currentTokenIndex : Nat := 0
  isInQuotes : Bool := false
  deriving DecidableEq, Repr

namespace Parser

/-- `tokens[index]` -/
def token (parser : Parser) (index : Nat) : Option CodeUnits := parser.tokens[index]?.join

/-- `tokens[index] = token` -/
def setToken (parser : Parser) (index : Nat) (token : CodeUnits) : Parser :=
  let missing := List.replicate (index + 1 - parser.tokens.length) none
  { parser with tokens := (parser.tokens ++ missing).set index (some token) }

/-- The current token is begun with the character, or goes on with it. -/
def addChar (parser : Parser) (char : UInt16) : Parser :=
  match parser.token parser.currentTokenIndex with
  | none | some [] => parser.setToken parser.currentTokenIndex [char]
  | some token => parser.setToken parser.currentTokenIndex (token ++ [char])

def isQuote (char : UInt16) : Bool := char = doubleQuote ∨ char = singleQuote

/-- The next character of the input. -/
def step (parser : Parser) (char : UInt16) : Parser :=
  if isQuote char then
    let toggled := { parser with isInQuotes := ! parser.isInQuotes }
    match parser.token parser.currentTokenIndex with
    | none | some [] => toggled.setToken parser.currentTokenIndex []
    | some _ => toggled
  else if char = CodeUnits.space ∧ ¬ parser.isInQuotes then
    let next := { parser with currentTokenIndex := parser.currentTokenIndex + 1 }
    next.setToken next.currentTokenIndex []
  else parser.addChar char

end Parser

/-- Parse the given input to tokens. -/
def parse (input : CodeUnits) : List (Option CodeUnits) := (input.foldl Parser.step {}).tokens

namespace Parser

/-- The tokens before the current one, and the current one as far as there is one. -/
structure View (parser : Parser) (closed : List (Option CodeUnits))
    (current : Option CodeUnits) : Prop where
  tokens : parser.tokens = closed ++ current.toList.map some
  index : parser.currentTokenIndex = closed.length

variable {parser : Parser} {closed : List (Option CodeUnits)} {current : Option CodeUnits}

theorem View.token (view : View parser closed current) :
    parser.token parser.currentTokenIndex = current := by
  rw [Parser.token, view.tokens, view.index, List.getElem?_append_right (Nat.le_refl _),
    Nat.sub_self]
  cases current with
  | none => rfl
  | some token => rfl

theorem View.setToken (view : View parser closed current) (token : CodeUnits) :
    View (parser.setToken parser.currentTokenIndex token) closed (some token) := by
  refine ⟨?_, view.index⟩
  simp only [Parser.setToken, view.tokens, view.index]
  cases current with
  | none => simp [List.set_append_right]
  | some token => simp [List.set_append_right]

/-- A character of a token, also a space in quotes. -/
theorem View.char (view : View parser closed current) {char : UInt16} (plain : isQuote char = false)
    (inside : char = CodeUnits.space → parser.isInQuotes = true) :
    View (parser.step char) closed (some (current.getD [] ++ [char])) ∧
      (parser.step char).isInQuotes = parser.isInQuotes := by
  have noSpace : ¬ (char = CodeUnits.space ∧ ¬ parser.isInQuotes = true) :=
    fun both => both.2 (inside both.1)
  rw [step, if_neg (by simp [plain]), if_neg noSpace, addChar, view.token]
  split
  next => exact ⟨view.setToken _, rfl⟩
  next => exact ⟨view.setToken _, rfl⟩
  next => exact ⟨view.setToken _, rfl⟩

/-- A quote of either kind. -/
theorem View.quote (view : View parser closed current) {char : UInt16} (quotes : isQuote char = true) :
    View (parser.step char) closed (some (current.getD [])) ∧
      (parser.step char).isInQuotes = ! parser.isInQuotes := by
  have toggled : View { parser with isInQuotes := ! parser.isInQuotes } closed current :=
    ⟨view.tokens, view.index⟩
  rw [step, if_pos quotes, view.token]
  cases current with
  | none => exact ⟨toggled.setToken [], rfl⟩
  | some token =>
      cases token with
      | nil => exact ⟨toggled.setToken [], rfl⟩
      | cons first rest => exact ⟨toggled, rfl⟩

/-- A space between tokens. -/
theorem View.space (view : View parser closed current) (outside : parser.isInQuotes = false) :
    View (parser.step CodeUnits.space) (closed ++ [current]) (some []) ∧
      (parser.step CodeUnits.space).isInQuotes = false := by
  rw [step, if_neg (by decide), if_pos (by simp [outside])]
  refine ⟨⟨?_, by simp [Parser.setToken, view.index]⟩, outside⟩
  simp only [Parser.setToken, view.tokens, view.index]
  cases current with
  | none =>
      have missing : closed.length + 1 + 1 - closed.length = 2 := by omega
      simp [List.set_append_right, missing, List.replicate_succ]
  | some token => simp [List.set_append_right]

/-- Each of several spaces ends a token. -/
theorem View.spaces (view : View parser closed current) (outside : parser.isInQuotes = false)
    (count : Nat) : ∃ before last,
      View ((List.replicate count CodeUnits.space).foldl step parser) before last ∧
      before.length = closed.length + count ∧ (current.isSome = true → last.isSome = true) ∧
        ((List.replicate count CodeUnits.space).foldl step parser).isInQuotes = false := by
  induction count generalizing parser closed current with
  | zero => exact ⟨closed, current, view, rfl, id, outside⟩
  | succ count ih =>
      obtain ⟨after, still⟩ := view.space outside
      obtain ⟨before, last, views, length, ends, quotes⟩ := ih after still
      rw [List.length_append, List.length_singleton] at length
      exact ⟨before, last, views, by omega, fun _ => ends rfl, quotes⟩

/-- Characters of a token. -/
theorem View.chars (view : View parser closed current) {text : CodeUnits}
    (plain : ∀ char ∈ text, isQuote char = false)
    (inside : CodeUnits.space ∈ text → parser.isInQuotes = true) :
    (text ≠ [] ∨ current.isSome = true →
      View (text.foldl step parser) closed (some (current.getD [] ++ text))) ∧
      (text.foldl step parser).isInQuotes = parser.isInQuotes := by
  induction text generalizing parser current with
  | nil =>
      refine ⟨fun begun => ?_, rfl⟩
      obtain ⟨token, rfl⟩ := Option.isSome_iff_exists.mp (begun.resolve_left (absurd rfl))
      rw [List.append_nil]
      exact view
  | cons first rest ih =>
      obtain ⟨after, still⟩ := view.char (plain first List.mem_cons_self)
        fun same => inside (same ▸ List.mem_cons_self)
      obtain ⟨views, quotes⟩ := ih after (fun char among => plain char (List.mem_cons_of_mem _ among))
        fun among => still.trans (inside (List.mem_cons_of_mem _ among))
      refine ⟨fun _ => ?_, quotes.trans still⟩
      have all := views (.inr rfl)
      rw [Option.getD_some, List.append_assoc] at all
      exact all

end Parser

/-! ## Lines of words -/

inductive Quote where
  | single
  | double
  deriving DecidableEq, Repr

def Quote.char : Quote → UInt16
  | single => singleQuote
  | double => doubleQuote

/-- A token as it is typed: without spaces and quotes, or between quotes of a kind that it
does not have itself. -/
inductive Word where
  | plain (token : { text : CodeUnits // text ≠ [] ∧
      ∀ char ∈ text, char ≠ CodeUnits.space ∧ Parser.isQuote char = false })
  | quoted (quote : Quote) (token : { text : CodeUnits // quote.char ∉ text })

namespace Word

def token : Word → CodeUnits
  | plain token => token.1
  | quoted _ token => token.1

def text : Word → CodeUnits
  | plain token => token.1
  | quoted quote token => quote.char :: token.1 ++ [quote.char]

end Word

namespace Word

/-- No quote of the other kind is between the quotes. -/
def Simple (word : Word) : Prop := ∀ char ∈ word.token, Parser.isQuote char = false

instance (word : Word) : Decidable word.Simple := inferInstanceAs (Decidable (∀ _ ∈ _, _))

theorem isQuote_char (quote : Quote) : Parser.isQuote quote.char = true := by
  cases quote <;> rfl

end Word

/-- A word without a quote of the other kind is read as its token. -/
theorem Parser.View.word {parser : Parser} {closed : List (Option CodeUnits)}
    {current : Option CodeUnits}
    (view : View parser closed current) (outside : parser.isInQuotes = false) {word : Word}
    (simple : word.Simple) :
    View (word.text.foldl step parser) closed (some (current.getD [] ++ word.token)) ∧
      (word.text.foldl step parser).isInQuotes = false := by
  cases word with
  | plain token =>
      obtain ⟨token, nonempty, plain⟩ := token
      obtain ⟨views, quotes⟩ := view.chars (fun char among => (plain char among).2)
        fun among => absurd rfl (plain CodeUnits.space among).1
      exact ⟨views (.inl nonempty), quotes.trans outside⟩
  | quoted quote token =>
      obtain ⟨token, apart⟩ := token
      obtain ⟨opened, inside⟩ := view.quote (Word.isQuote_char quote)
      rw [outside] at inside
      obtain ⟨views, still⟩ := opened.chars simple fun _ => inside
      obtain ⟨ends, outsideAgain⟩ := (views (.inr rfl)).quote (Word.isQuote_char quote)
      rw [still, inside] at outsideAgain
      simp only [Word.text, List.cons_append, List.foldl_cons, List.foldl_append, List.foldl_nil]
      exact ⟨ends, outsideAgain⟩

/-- The words from one on, with one space after each but the last, and more. -/
def joinWords (gaps : Nat → Nat) : Nat → List Word → CodeUnits
  | _, [] => []
  | _, [word] => word.text
  | i, word :: rest =>
      word.text ++ List.replicate (gaps i + 1) CodeUnits.space ++ joinWords gaps (i + 1) rest

/-- A line of words, with spaces before, between and after them. -/
def lineText (lead trail : Nat) (gaps : Nat → Nat) (words : List Word) : CodeUnits :=
  List.replicate lead CodeUnits.space ++ joinWords gaps 0 words ++ List.replicate trail CodeUnits.space

namespace Parser

variable {gaps : Nat → Nat} {words : List Word} {i : Nat} {parser : Parser}
  {closed : List (Option CodeUnits)} {current : Option CodeUnits}

theorem joinWords_cons (gaps : Nat → Nat) (i : Nat) (word next : Word) (rest : List Word) :
    joinWords gaps i (word :: next :: rest) =
      word.text ++ List.replicate (gaps i + 1) CodeUnits.space ++ joinWords gaps (i + 1) (next :: rest) := rfl

/-- Words with one space between them are read as their tokens. -/
theorem View.tokens_joinWords (view : View parser closed current)
    (outside : parser.isInQuotes = false) (empty : current.getD [] = []) (nonempty : words ≠ [])
    (simple : ∀ word ∈ words, word.Simple)
    (single : ∀ j, j + 1 < words.length → gaps (i + j) = 0) :
    ((joinWords gaps i words).foldl step parser).tokens =
      closed ++ words.map fun word => some word.token := by
  induction words generalizing i parser closed current with
  | nil => exact absurd rfl nonempty
  | cons word rest ih =>
      obtain ⟨after, outsideAfter⟩ := view.word outside (simple word List.mem_cons_self)
      rw [empty, List.nil_append] at after
      cases rest with
      | nil => exact after.tokens
      | cons next rest =>
          obtain ⟨spaced, outsideSpaced⟩ := after.space outsideAfter
          have one : gaps i = 0 := single 0 (by simp)
          have others := ih (i := i + 1) spaced outsideSpaced rfl (List.cons_ne_nil _ _)
            (fun other among => simple other (List.mem_cons_of_mem _ among)) fun j inside => by
              rw [Nat.add_assoc, Nat.add_comm 1 j]
              exact single (j + 1) (Nat.succ_lt_succ inside)
          rw [joinWords_cons, List.foldl_append, List.foldl_append, one]
          exact others.trans (by rw [List.append_assoc]; rfl)

/-- However many spaces there are between words, each of them ends a token. -/
theorem View.length_joinWords (view : View parser closed current)
    (outside : parser.isInQuotes = false) (nonempty : words ≠ [])
    (simple : ∀ word ∈ words, word.Simple) (gaps : Nat → Nat) (i : Nat) : ∃ before last,
      View ((joinWords gaps i words).foldl step parser) before last ∧ last.isSome = true ∧
        ((joinWords gaps i words).foldl step parser).isInQuotes = false ∧
        closed.length + words.length ≤ before.length + 1 ∧
        (before.length + 1 ≤ closed.length + words.length →
          ∀ j, j + 1 < words.length → gaps (i + j) = 0) := by
  induction words generalizing i parser closed current with
  | nil => exact absurd rfl nonempty
  | cons word rest ih =>
      obtain ⟨after, outsideAfter⟩ := view.word outside (simple word List.mem_cons_self)
      cases rest with
      | nil =>
          refine ⟨closed, _, after, rfl, outsideAfter, Nat.le_refl _, fun _ j inside => ?_⟩
          exact absurd inside (by simp)
      | cons next rest =>
          obtain ⟨middle, last, spaced, length, -, outsideSpaced⟩ :=
            after.spaces outsideAfter (gaps i + 1)
          obtain ⟨before, last, views, ends, quotes, least, tight⟩ := ih spaced outsideSpaced
            (List.cons_ne_nil _ _) (fun other among => simple other (List.mem_cons_of_mem _ among))
            (i + 1)
          rw [joinWords_cons, List.foldl_append, List.foldl_append]
          simp only [List.length_cons] at least tight ⊢
          refine ⟨before, last, views, ends, quotes, by omega, fun most j inside => ?_⟩
          cases j with
          | zero =>
              rw [Nat.add_zero]
              omega
          | succ j =>
              rw [← Nat.add_assoc, Nat.add_right_comm]
              exact tight (by omega) j (by omega)

/-- No quote is in a token that has been read. -/
def Unquoted (parser : Parser) : Prop :=
  ∃ closed current, View parser closed current ∧
    (∀ token, some token ∈ closed → ∀ char ∈ token, isQuote char = false) ∧
      ∀ token ∈ current, ∀ char ∈ token, isQuote char = false

theorem Unquoted.step {parser : Parser} (unquoted : parser.Unquoted) (char : UInt16) :
    (parser.step char).Unquoted := by
  obtain ⟨closed, current, view, before, last⟩ := unquoted
  have begun : ∀ other ∈ current.getD [], isQuote other = false := by
    cases current with
    | none => exact nofun
    | some token => exact last token rfl
  by_cases quotes : isQuote char = true
  · refine ⟨closed, _, (view.quote quotes).1, before, ?_⟩
    rintro token same
    obtain rfl := Option.some.inj same
    exact begun
  · have plain : isQuote char = false := by simpa using quotes
    by_cases blank : char = CodeUnits.space ∧ parser.isInQuotes = false
    · obtain ⟨rfl, outside⟩ := blank
      refine ⟨_, _, (view.space outside).1, ?_, ?_⟩
      · intro token among
        obtain earlier | same := List.mem_append.mp among
        · exact before token earlier
        · exact last token (List.mem_singleton.mp same).symm
      · rintro token same
        obtain rfl := Option.some.inj same
        exact nofun
    · have inside : char = CodeUnits.space → parser.isInQuotes = true := by
        intro here
        simpa using fun outside => blank ⟨here, outside⟩
      refine ⟨closed, _, (view.char plain inside).1, before, ?_⟩
      rintro token same
      obtain rfl := Option.some.inj same
      intro other among
      obtain earlier | new := List.mem_append.mp among
      · exact begun other earlier
      · rwa [List.mem_singleton.mp new]

theorem view_initial : View {} [] none := ⟨rfl, rfl⟩

theorem Unquoted.foldl {parser : Parser} (unquoted : parser.Unquoted) (input : CodeUnits) :
    (input.foldl Parser.step parser).Unquoted := by
  induction input generalizing parser with
  | nil => exact unquoted
  | cons char rest ih => exact ih (unquoted.step char)

end Parser

/-- No token of any input has a quote. -/
theorem not_isQuote_of_mem_parse {input token : CodeUnits} (among : some token ∈ parse input)
    {char : UInt16} (within : char ∈ token) : Parser.isQuote char = false := by
  have initial : Parser.Unquoted {} := ⟨[], none, Parser.view_initial, nofun, nofun⟩
  obtain ⟨closed, current, view, before, last⟩ := initial.foldl input
  rw [parse, view.tokens] at among
  obtain earlier | ends := List.mem_append.mp among
  · exact before token earlier char within
  · refine last token ?_ char within
    simpa using ends

/-- A line is read as its words exactly when there is one space between them and none before
and after them, and no quoted word has a quote of the other kind. -/
theorem parse_lineText_iff (lead trail : Nat) (gaps : Nat → Nat) (words : List Word) :
    parse (lineText lead trail gaps words) = words.map (fun word => some word.token) ↔
      lead = 0 ∧ trail = 0 ∧ (∀ i, i + 1 < words.length → gaps i = 0) ∧
        ∀ word ∈ words, word.Simple := by
  constructor
  · intro same
    have simple : ∀ word ∈ words, word.Simple := by
      intro word among char within
      have token : some word.token ∈ parse (lineText lead trail gaps words) := by
        rw [same]
        exact List.mem_map_of_mem among
      exact not_isQuote_of_mem_parse token within
    obtain ⟨led, first, leads, ledLength, -, outside⟩ := Parser.view_initial.spaces rfl lead
    rw [List.length_nil, Nat.zero_add] at ledLength
    by_cases empty : words = []
    · subst empty
      obtain ⟨before, last, views, length, -, -⟩ := leads.spaces outside trail
      have none : before ++ last.toList.map some = [] := by
        rw [← views.tokens, ← List.foldl_append]
        simpa [parse, lineText, joinWords] using same
      have short := congrArg List.length (List.append_eq_nil_iff.mp none).1
      rw [List.length_nil] at short
      exact ⟨by omega, by omega, nofun, simple⟩
    · obtain ⟨middle, current, reads, begun, outside, least, tight⟩ :=
        leads.length_joinWords outside empty simple gaps 0
      obtain ⟨before, last, views, length, ends, -⟩ := reads.spaces outside trail
      have tokens : before ++ last.toList.map some = words.map fun word => some word.token := by
        rw [← views.tokens, ← List.foldl_append, ← List.foldl_append, ← List.append_assoc]
        exact same
      have lengths := congrArg List.length tokens
      obtain ⟨token, rfl⟩ := Option.isSome_iff_exists.mp (ends begun)
      simp only [List.length_append, List.length_map, Option.toList_some,
        List.length_singleton] at lengths
      refine ⟨by omega, by omega, fun i inside => ?_, simple⟩
      have one := tight (by omega) i inside
      rwa [Nat.zero_add] at one
  · rintro ⟨rfl, rfl, single, simple⟩
    by_cases empty : words = []
    · subst empty
      rfl
    · rw [lineText, List.replicate_zero, List.nil_append, List.append_nil]
      exact Parser.view_initial.tokens_joinWords rfl rfl empty simple fun j inside => by
        rw [Nat.zero_add]
        exact single j inside

/-- `build  test` has a token more, and `"it's"` has lost its apostrophe. -/
theorem parse_two_spaces_and_apostrophe :
    parse (lineText 0 0 (fun _ => 1) [.plain ⟨ofText "build".toList, by decide⟩,
      .plain ⟨ofText "test".toList, by decide⟩]) ≠
        [some (ofText "build".toList), some (ofText "test".toList)] ∧
      parse (lineText 0 0 (fun _ => 0) [.quoted .double ⟨ofText "it's".toList, by decide⟩]) ≠
        [some (ofText "it's".toList)] := by
  decide

end Solpg.Client.Utils.Terminal
