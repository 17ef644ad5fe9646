import Solpg.Client.Utils.Terminal.Autocomplete
import Solpg.Client.Utils.Terminal.LineEditing
import Mathlib.Data.List.Induction

/-!
# What Tab completes

With the candidates of `PgAutocomplete`, Tab writes on with the word that is being typed and
keeps the words before it, as `parse` reads them. A completion makes a new input of what stands
before the cursor, so the text behind the cursor is lost.
-/

namespace Solpg.Client.Utils.Terminal

open Solpg.Std CodeUnits

/-- The tokens as texts: one that was never set has no characters. -/
def words (input : CodeUnits) : List CodeUnits := (parse input).map fun token => token.getD []

/-- A word without quotes. -/
def Plain (word : CodeUnits) : Prop := ∀ char ∈ word, Parser.isQuote char = false

instance (word : CodeUnits) : Decidable (Plain word) :=
  inferInstanceAs (Decidable (∀ _ ∈ _, _))

theorem plain_of_mem_words {input word : CodeUnits} (among : word ∈ words input) : Plain word := by
  obtain ⟨token, member, rfl⟩ := List.mem_map.mp among
  cases token with
  | none => exact fun _ within => absurd within List.not_mem_nil
  | some token => exact fun _ within => not_isQuote_of_mem_parse member within

/-! ## Reading a new input -/

namespace Parser

variable {parser : Parser} {closed : List (Option CodeUnits)} {current : Option CodeUnits}

/-- After a character there is a current token, and the first one is empty only after quotes. -/
theorem View.next (view : View parser closed current) (char : UInt16) :
    ∃ closed' token, View (parser.step char) closed' (some token) ∧
      (closed' = [] → token = [] → closed = [] ∧ current.getD [] = [] ∧ isQuote char = true) := by
  by_cases quotes : isQuote char = true
  · exact ⟨closed, _, (view.quote quotes).1, fun first empty => ⟨first, empty, quotes⟩⟩
  have plain : isQuote char = false := by simpa using quotes
  by_cases blank : char = CodeUnits.space ∧ parser.isInQuotes = false
  · obtain ⟨rfl, outside⟩ := blank
    refine ⟨_, _, (view.space outside).1, fun first => ?_⟩
    exact absurd first (by simp)
  · have inside : char = CodeUnits.space → parser.isInQuotes = true := by
      intro here
      simpa using fun outside => blank ⟨here, outside⟩
    refine ⟨closed, _, (view.char plain inside).1, fun _ empty => ?_⟩
    exact absurd empty (by simp)

/-- The tokens of an input with characters; when the only one is empty, these are quotes. -/
theorem exists_view {input : CodeUnits} (begun : input ≠ []) :
    ∃ closed token, View (input.foldl Parser.step {}) closed (some token) ∧
      (closed = [] → token = [] → ∀ char ∈ input, isQuote char = true) := by
  have all : ∃ closed current, View (input.foldl Parser.step {}) closed current ∧
      (input ≠ [] → current.isSome = true) ∧
        (closed = [] → current.getD [] = [] → ∀ char ∈ input, isQuote char = true) := by
    clear begun
    induction input using List.reverseRecOn with
    | nil => exact ⟨[], none, view_initial, fun some_ => absurd rfl some_,
        fun _ _ _ among => absurd among List.not_mem_nil⟩
    | append_singleton input char ih =>
        obtain ⟨closed, current, view, -, quotes⟩ := ih
        obtain ⟨closed', token, after, first⟩ := view.next char
        rw [List.foldl_append, List.foldl_cons, List.foldl_nil]
        refine ⟨closed', some token, after, fun _ => rfl, fun none_ empty other among => ?_⟩
        obtain ⟨none_, empty, last⟩ := first none_ empty
        obtain among | same := List.mem_append.mp among
        · exact quotes none_ empty other among
        · rw [List.mem_singleton.mp same]
          exact last
  obtain ⟨closed, current, view, some_, quotes⟩ := all
  obtain ⟨token, rfl⟩ := Option.isSome_iff_exists.mp (some_ begun)
  exact ⟨closed, token, view, quotes⟩

/-- A token is read as it was, from its text in a new input. -/
theorem View.quoteToken (view : View parser closed current) (outside : parser.isInQuotes = false)
    (empty : current.getD [] = []) {word : CodeUnits} (plain : Plain word) :
    ∃ after, View ((quoteToken word).foldl Parser.step parser) closed after ∧
      after.getD [] = word ∧
      ((quoteToken word).foldl Parser.step parser).isInQuotes = false := by
  by_cases spaced : CodeUnits.space ∈ word
  · have apart : Quote.double.char ∉ word := fun among => absurd (plain _ among) (by decide)
    let quoted : Word := .quoted .double ⟨word, apart⟩
    have simple : quoted.Simple := plain
    obtain ⟨views, ends⟩ := view.word outside simple
    have text : Terminal.quoteToken word = quoted.text := by
      rw [Terminal.quoteToken, if_pos spaced]
      rfl
    rw [text]
    exact ⟨_, views, by rw [empty]; rfl, ends⟩
  · rw [Terminal.quoteToken, if_neg spaced]
    obtain ⟨views, ends⟩ := view.chars plain fun among => absurd among spaced
    by_cases some_ : word = []
    · subst some_
      exact ⟨current, view, empty, outside⟩
    · exact ⟨_, views (.inl some_), by rw [empty]; rfl, ends.trans outside⟩

/-- Tokens with a CodeUnits.space after each. -/
theorem View.quoteTokens (view : View parser closed current) (outside : parser.isInQuotes = false)
    (empty : current.getD [] = []) {kept : List CodeUnits} (plain : ∀ word ∈ kept, Plain word) :
    ∃ closed' after, View ((kept.flatMap fun word => Terminal.quoteToken word ++ [CodeUnits.space]).foldl
        Parser.step parser) closed' after ∧
      closed'.map (fun token => token.getD []) = closed.map (fun token => token.getD []) ++ kept ∧
      after.getD [] = [] ∧ (current.isSome = true ∨ kept ≠ [] → after.isSome = true) ∧
      ((kept.flatMap fun word => Terminal.quoteToken word ++ [CodeUnits.space]).foldl
        Parser.step parser).isInQuotes = false := by
  induction kept generalizing parser closed current with
  | nil => exact ⟨closed, current, view, (List.append_nil _).symm, empty,
      fun begun => begun.resolve_right (absurd rfl), outside⟩
  | cons word rest ih =>
      obtain ⟨token, views, same, ends⟩ := view.quoteToken outside empty (plain word List.mem_cons_self)
      obtain ⟨apart, still⟩ := views.space ends
      obtain ⟨closed', after, read, texts, none_, last, out⟩ :=
        ih apart still rfl fun other among => plain other (List.mem_cons_of_mem _ among)
      rw [List.flatMap_cons, List.foldl_append, List.foldl_append, List.foldl_cons, List.foldl_nil]
      refine ⟨closed', after, read, ?_, none_, fun _ => last (.inl rfl), out⟩
      rw [texts, List.map_append, List.map_singleton, same, List.append_assoc]
      rfl

/-- The candidate is read as it is, also when quotes are put around it or before it. -/
theorem View.lastWord (view : View parser closed current) (outside : parser.isInQuotes = false)
    (empty : current.getD [] = []) {word text : CodeUnits} (plain : Plain word)
    (written : CodeUnits.space ∉ word ∧ text = word ∧ (word = [] → current.isSome = true) ∨
      ∃ quote, isQuote quote = true ∧ (text = quote :: word ∨ text = quote :: word ++ [quote])) :
    View (text.foldl Parser.step parser) closed (some word) := by
  obtain ⟨unspaced, rfl, begun⟩ | ⟨quote, quotes, text⟩ := written
  · obtain ⟨views, -⟩ := view.chars plain fun among => absurd among unspaced
    rw [empty] at views
    exact views (or_iff_not_imp_left.mpr fun nothing => begun (not_not.mp nothing))
  · obtain ⟨opened, inside⟩ := view.quote quotes
    rw [empty] at opened
    rw [outside] at inside
    obtain ⟨views, -⟩ := opened.chars plain fun _ => inside
    have read := views (.inr rfl)
    rcases text with rfl | rfl
    · exact read
    · rw [List.cons_append, List.foldl_cons, List.foldl_append, List.foldl_cons, List.foldl_nil]
      exact (read.quote quotes).1

end Parser

/-! ## The new input -/

theorem intercalate_concat {α : Type} (separator last : List α) (texts : List (List α)) :
    separator.intercalate (texts ++ [last]) =
      (texts.flatMap fun text => text ++ separator) ++ last := by
  induction texts with
  | nil => simp [List.intercalate]
  | cons text rest ih =>
      rw [List.flatMap_cons, List.append_assoc, ← ih]
      cases rest with
      | nil => simp [List.intercalate]
      | cons other rest => simp [List.intercalate]

/-- An input whose only token is empty begins with a quote, as its last piece does. -/
theorem head_quote_of_all_quotes {input : CodeUnits} (begun : input ≠ [])
    (quotes : ∀ char ∈ input, Parser.isQuote char = true) :
    ∃ quote, Parser.isQuote quote = true ∧
      (input.splitOn space).getLast?.bind List.head? = some quote := by
  have unspaced : space ∉ input := fun among => absurd (quotes space among) (by decide)
  rw [List.splitOn_eq_singleton unspaced]
  cases input with
  | nil => exact absurd rfl begun
  | cons quote rest => exact ⟨quote, quotes quote List.mem_cons_self, rfl⟩

section NewInput

variable {fragment candidate : CodeUnits} {candidates : List CodeUnits}

/-- What stands for the candidate in the new input. -/
theorem createNewInput_eq (some_ : parse fragment ≠ []) : ∃ text,
    createNewInput fragment candidates candidate =
      ((words fragment).dropLast.flatMap fun word => quoteToken word ++ [space]) ++ text ∧
    (space ∉ candidate ∧ text = candidate ∧
        (∀ quote, Parser.isQuote quote = true →
          (fragment.splitOn space).getLast?.bind List.head? ≠ some quote) ∨
      ∃ quote, Parser.isQuote quote = true ∧
        (text = quote :: candidate ∨ text = quote :: candidate ++ [quote])) := by
  have texts : ((parse fragment).map fun token => token.map quoteToken).dropLast.map
      (fun token => token.getD []) = (words fragment).dropLast.map quoteToken := by
    rw [words, ← List.map_dropLast, ← List.map_dropLast, List.map_map, List.map_map]
    refine List.map_congr_left fun token _ => ?_
    cases token with
    | none => rfl
    | some token => rfl
  have joined (last : CodeUnits) : joinTokens
      (((parse fragment).map fun token => token.map quoteToken).dropLast ++ [some last]) =
        ((words fragment).dropLast.flatMap fun word => quoteToken word ++ [space]) ++ last := by
    rw [joinTokens, List.map_append, texts, List.map_singleton, Option.getD_some,
      intercalate_concat, List.flatMap_map]
  simp only [createNewInput, List.map_eq_nil_iff, some_, if_false, joined]
  generalize (fragment.splitOn space).getLast?.bind List.head? = first
  refine ⟨_, rfl, ?_⟩
  by_cases single : first = some singleQuote
  · refine .inr ⟨singleQuote, by decide, ?_⟩
    simp only [single, if_true, or_true]
    split
    · exact .inr rfl
    · exact .inl rfl
  · simp only [single, if_false]
    by_cases opened : space ∈ candidate ∨ first = some doubleQuote
    · refine .inr ⟨doubleQuote, by decide, ?_⟩
      simp only [opened, if_true]
      split
      · exact .inr rfl
      · exact .inl rfl
    · obtain ⟨unspaced, unquoted⟩ := not_or.mp opened
      refine .inl ⟨unspaced, ?_, fun quote quotes same => ?_⟩
      · simp [unspaced, unquoted]
      · simp only [Parser.isQuote, decide_eq_true_eq] at quotes
        rcases quotes with rfl | rfl
        · exact unquoted same
        · exact single same

/-- The new input has the same words, with the candidate for the last one. -/
theorem words_createNewInput (begun : fragment ≠ []) (plain : Plain candidate)
    (extends_ : candidate = [] → (words fragment).getLast?.getD [] = []) :
    words (createNewInput fragment candidates candidate) =
      (words fragment).dropLast ++ [candidate] := by
  obtain ⟨closed, token, view, quotes⟩ := Parser.exists_view begun
  have tokens : parse fragment = closed ++ [some token] := view.tokens
  have some_ : parse fragment ≠ [] := by
    rw [tokens]
    exact List.append_ne_nil_of_right_ne_nil _ (List.cons_ne_nil _ _)
  have earlier : (words fragment).dropLast = closed.map fun token => token.getD [] := by
    rw [words, tokens, List.map_append, List.map_singleton, List.dropLast_concat]
  have last : (words fragment).getLast?.getD [] = token := by
    rw [words, tokens, List.map_append, List.map_singleton, List.getLast?_concat]
    rfl
  have plains : ∀ word ∈ (words fragment).dropLast, Plain word := fun word among =>
    plain_of_mem_words (List.mem_of_mem_dropLast among)
  obtain ⟨text, whole, written⟩ : ∃ text, createNewInput fragment candidates candidate =
      ((words fragment).dropLast.flatMap fun word => quoteToken word ++ [space]) ++ text ∧ _ :=
    createNewInput_eq some_
  obtain ⟨closed', after, read, texts, empty, isSome, outside⟩ :=
    Parser.View.quoteTokens Parser.view_initial rfl rfl plains
  have ended : Parser.View (text.foldl Parser.step _) _ (some candidate) :=
    read.lastWord outside empty plain <| written.imp_left <| by
    rintro ⟨unspaced, same, unquoted⟩
    refine ⟨unspaced, same, fun nothing => isSome (.inr fun none_ => ?_)⟩
    have first : closed = [] := by simpa using earlier.symm.trans none_
    have blank : token = [] := last.symm.trans (extends_ nothing)
    obtain ⟨quote, isQuote, head⟩ := head_quote_of_all_quotes begun (quotes first blank)
    exact unquoted quote isQuote head
  rw [words, whole, parse, List.foldl_append, ended.tokens, List.map_append, texts]
  rfl

end NewInput

/-! ## The common candidate -/

section Common

variable {candidates : List CodeUnits} {typed : CodeUnits}

theorem commonCandidate_prefix_head (candidates : List CodeUnits) :
    commonCandidate candidates <+: candidates.headD [] := List.take_prefix _ _

/-- What all candidates begin with is in the common one. -/
theorem prefix_commonCandidate (some_ : candidates ≠ [])
    (all : ∀ candidate ∈ candidates, typed <+: candidate) : typed <+: commonCandidate candidates := by
  cases candidates with
  | nil => exact absurd rfl some_
  | cons first rest =>
      have starts := all first List.mem_cons_self
      have same : typed = first.take typed.length := List.prefix_iff_eq_take.mp starts
      have agree : ∀ i ∈ List.range typed.length,
          ((first :: rest).all fun cand => cand[i]? = first[i]?) = true := by
        intro i within
        rw [List.all_eq_true]
        intro candidate among
        have bound := List.mem_range.mp within
        have here (text : CodeUnits) (starts : typed <+: text) : text[i]? = typed[i]? := by
          obtain ⟨more, rfl⟩ := starts
          rw [List.getElem?_append_left bound]
        rw [decide_eq_true_eq, here candidate (all candidate among), here first starts]
      obtain ⟨more, lengths⟩ := Nat.exists_eq_add_of_le starts.length_le
      have matching : typed.length ≤ ((List.range first.length).takeWhile fun i =>
          (first :: rest).all fun cand => cand[i]? = first[i]?).length := by
        rw [lengths, List.range_add, List.takeWhile_append_of_pos agree, List.length_append,
          List.length_range]
        exact Nat.le_add_right _ _
      rw [same]
      exact List.take_prefix_take_left matching

end Common

/-! ## Tab -/

/-- The last word before the cursor has been written on, as a candidate goes on, and the words
before it are kept. What stood behind the cursor is dropped. -/
def CompletesWord (engine : Engine) (handlers : List AutocompleteHandler)
    (line next : EditLine UInt16) : Prop :=
  ∃ word, typed line.before <+: word ∧
    (∃ candidate ∈ PgAutocomplete.getCandidates engine handlers line.before,
      word <+: candidate ∧ ∃ handler ∈ handlers, handler.Offers candidate) ∧
    next.after = [] ∧ words next.before = (words line.before).dropLast ++ [word]

/-- What Tab may do to a line: nothing but move the cursor, add a space, or complete the last
word. -/
def Completes (engine : Engine) (handlers : List AutocompleteHandler)
    (line next : EditLine UInt16) : Prop :=
  next.text = line.text ∨ next = line.insert [space] ∨ CompletesWord engine handlers line next

/-- No definition has a quote. -/
def PlainDefinitions (handlers : List AutocompleteHandler) : Prop :=
  ∀ completions, AutocompleteHandler.object completions ∈ handlers →
    ∀ word, completions.Offers word → Plain word

section Tab

variable {engine : Engine} {handlers : List AutocompleteHandler} {line : EditLine UInt16}
  {word candidate : CodeUnits}

theorem plain_of_offers (plain : PlainDefinitions handlers) {handler : AutocompleteHandler}
    (member : handler ∈ handlers) (offers : handler.Offers word) : Plain word := by
  cases handler with
  | entries given =>
      obtain ⟨all, -, entry, -, among⟩ := offers
      exact fun _ within => not_isQuote_of_mem_parse among within
  | object completions => exact plain completions member word offers

theorem Plain.start (plain : Plain candidate) (starts : word <+: candidate) : Plain word :=
  fun char among => plain char (starts.subset among)

theorem completesWord_createNewInput (plain : PlainDefinitions handlers)
    (begun : trim line.before ≠ []) (extends_ : typed line.before <+: word)
    (among : candidate ∈ PgAutocomplete.getCandidates engine handlers line.before)
    (starts : word <+: candidate) (candidates : List CodeUnits) :
    CompletesWord engine handlers line
      (.ofText (createNewInput line.before candidates word)) := by
  obtain ⟨⟨handler, member, offers⟩, -⟩ := PgAutocomplete.getCandidates_sound among
  refine ⟨word, extends_, ⟨candidate, among, starts, handler, member, offers⟩, rfl, ?_⟩
  have some_ : line.before ≠ [] := by
    rintro nothing
    rw [nothing] at begun
    exact begun rfl
  refine words_createNewInput some_ ((plain_of_offers plain member offers).start starts) ?_
  rintro rfl
  have nothing := List.prefix_nil.mp extends_
  rw [typed, if_neg begun, List.getLast?_eq_getElem?] at nothing
  rw [words, List.getLast?_eq_getElem?, List.length_map, List.getElem?_map]
  cases slot : (parse line.before)[(parse line.before).length - 1]? with
  | none => rfl
  | some token =>
      rw [slot] at nothing
      exact nothing

theorem completion_completes (plain : PlainDefinitions handlers) (begun : trim line.before ≠ []) :
    Completes engine handlers line ((completionOf line.before
      (PgAutocomplete.getCandidates engine handlers line.before)).edited line) := by
  rw [completionOf]
  cases offered : PgAutocomplete.getCandidates engine handlers line.before with
  | nil =>
      rw [if_pos List.length_nil]
      split
      · exact .inl rfl
      · exact .inr (.inl rfl)
  | cons candidate rest =>
      have among : candidate ∈ PgAutocomplete.getCandidates engine handlers line.before := by
        rw [offered]
        exact List.mem_cons_self
      have typed_ : ∀ other ∈ candidate :: rest, typed line.before <+: other := by
        intro other member
        rw [← offered] at member
        exact (PgAutocomplete.getCandidates_sound member).2
      rw [if_neg (by simp)]
      split
      · exact .inr (.inr (completesWord_createNewInput plain begun
          (typed_ candidate List.mem_cons_self) among List.prefix_rfl _))
      · split
        · dsimp only
          split
          · exact .inl line.text_toEnd
          · exact .inr (.inr (completesWord_createNewInput plain begun
              (prefix_commonCandidate (List.cons_ne_nil _ _) typed_) among
              (commonCandidate_prefix_head _) _))
        · exact .inl line.text_toEnd

/-- In every state of the shell that can be reached, once more than white space is typed, Tab
completes at most the last word before the cursor, to a text with which a candidate of the
handlers begins; a completion drops the text behind the cursor. -/
theorem tab_completes {shell : PgShell} (reachable : PgShell.machine.Reachable shell)
    (plain : PlainDefinitions handlers) : ∃ line, shell.tty.Shows line ∧
      (trim line.before ≠ [] → ∃ next,
        (shell.handleTab (some (PgAutocomplete.getCandidates engine handlers))).tty.Shows next ∧
          Completes engine handlers line next) := by
  obtain ⟨start, events, ⟨size, rfl⟩, ran⟩ := reachable
  have shown : ∃ line, shell.tty.Shows line := by
    refine Machine.run_preserves (fun shell : PgShell => ∃ line, shell.tty.Shows line) ?_ ?_ ran
    · intro shell event after shown stepped
      obtain rfl := Option.some.inj stepped
      exact PgShell.exists_shows_next shown event
    · exact ⟨{}, rfl, rfl⟩
  obtain ⟨line, shown⟩ := shown
  exact ⟨line, shown, fun begun =>
    ⟨_, PgShell.handleTab_shows shown _, completion_completes plain begun⟩⟩

end Tab

/-- A command without arguments. -/
def buildCompletions : Completions :=
  .mk [(ofText "build".toList, .mk [] none false false none)] none false false none

theorem plain_buildCompletions (word : CodeUnits) (offers : buildCompletions.Offers word) :
    Plain word := by
  have only {entry : CodeUnits × Completions} (member : entry ∈ buildCompletions.entries) :
      entry = (ofText "build".toList, .mk [] none false false none) := List.mem_singleton.mp member
  cases offers with
  | key member =>
      rw [(Prod.mk.inj (only member)).1]
      decide
  | value member given _ _ =>
      rw [(Prod.mk.inj (only member)).2] at given
      cases given
  | nested member offers =>
      rw [(Prod.mk.inj (only member)).2] at offers
      cases offers with
      | key member => exact absurd member List.not_mem_nil
      | value member _ _ _ => exact absurd member List.not_mem_nil
      | nested member _ => exact absurd member List.not_mem_nil

/-- An engine for inputs with at most one candidate. -/
def plainEngine : Engine where
  sort _ texts := texts
  perm _ texts := .refl texts
  localeCompare _ _ := 0
  stack := 100

def buildHandlers : List AutocompleteHandler := [.object buildCompletions, .entries (some [])]

/-- `bu` has been typed. -/
def typingBuild : PgShell :=
  ({ history := { size := 20 } } : PgShell).next
    (.termData (ofText "bu".toList) (some (PgAutocomplete.getCandidates plainEngine buildHandlers))
      true)

theorem tab_completes_build : ∃ line, typingBuild.tty.Shows line ∧
    (trim line.before ≠ [] → ∃ next,
      (typingBuild.handleTab (some (PgAutocomplete.getCandidates plainEngine
        buildHandlers))).tty.Shows next ∧ Completes plainEngine buildHandlers line next) := by
  refine tab_completes ⟨{ history := { size := 20 } }, [_], ⟨20, rfl⟩, rfl⟩ ?_
  intro completions member word offers
  obtain same | other := List.mem_cons.mp member
  · obtain rfl := AutocompleteHandler.object.inj same
    exact plain_buildCompletions word offers
  · cases List.mem_singleton.mp other

example : PgAutocomplete.getCandidates plainEngine buildHandlers (ofText "bu".toList) =
    [ofText "build".toList] := by decide

end Solpg.Client.Utils.Terminal
