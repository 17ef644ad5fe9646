import Mathlib.Data.List.Basic
import Mathlib.Data.List.Forall2

/-!
# Regular expressions with assertions

Whether a regular expression matches somewhere in a text. An assertion looks at
the two symbols around its position, which covers `^`, `$` and `\b`. Captures,
look-around and back-references are not part of the language, so the order in
which an engine tries alternatives does not matter.
-/

namespace Solpg.Std

universe u

/-- A regular expression. -/
inductive Regex (α : Type u) where
  | empty
  | symbol (class_ : α → Bool)
  /-- A condition on the symbol before and the symbol after the position. -/
  | assertion (holds : Option α → Option α → Bool)
  | seq (first second : Regex α)
  | alt (left right : Regex α)
  | star (body : Regex α)

namespace Regex

variable {α : Type u}

/-- `regex.Matches before text after`: the expression can consume `text` where
it stands between `before` and `after`. -/
inductive Matches : Regex α → List α → List α → List α → Prop where
  | empty {before after} : Matches .empty before [] after
  | symbol {class_ : α → Bool} {before item after} (member : class_ item = true) :
      Matches (.symbol class_) before [item] after
  | assertion {holds : Option α → Option α → Bool} {before after}
      (true_ : holds before.getLast? after.head? = true) :
      Matches (.assertion holds) before [] after
  | seq {first second before left right after}
      (matchFirst : Matches first before left (right ++ after))
      (matchSecond : Matches second (before ++ left) right after) :
      Matches (.seq first second) before (left ++ right) after
  | altLeft {left right before text after} (matchLeft : Matches left before text after) :
      Matches (.alt left right) before text after
  | altRight {left right before text after} (matchRight : Matches right before text after) :
      Matches (.alt left right) before text after
  | starNil {body before after} : Matches (.star body) before [] after
  | starCons {body before left right after}
      (matchBody : Matches body before left (right ++ after))
      (matchRest : Matches (.star body) (before ++ left) right after) :
      Matches (.star body) before (left ++ right) after

/-- The expression or nothing. -/
def optional (body : Regex α) : Regex α := .alt body .empty

/-- The expression at least once. -/
def plus (body : Regex α) : Regex α := .seq body (.star body)

/-- One symbol of each class in turn. -/
def word : List (α → Bool) → Regex α
  | [] => .empty
  | class_ :: classes => .seq (.symbol class_) (word classes)

/-- The symbols themselves. -/
def literal [BEq α] (text : List α) : Regex α := word (text.map fun item => (· == item))

/-- The expression matches somewhere in the text. -/
def Found (regex : Regex α) (text : List α) : Prop :=
  ∃ before middle after, text = before ++ middle ++ after ∧ regex.Matches before middle after

/-- A continuation: what is asked of the reversed text before a position and of
the text after it. -/
abbrev Cont (α : Type u) := List α → List α → Bool

/-- Iterate a matcher, at most `fuel` times and never without progress. -/
def iterate (matcher : Cont α → Cont α) (next : Cont α) : Nat → Cont α
  | 0, passed, rest => next passed rest
  | fuel + 1, passed, rest =>
      next passed rest || matcher
        (fun passed' rest' => decide (rest'.length < rest.length) &&
          iterate matcher next fuel passed' rest') passed rest

/-- The backtracking matcher. -/
def step : Regex α → Cont α → Cont α
  | .empty, next, passed, rest => next passed rest
  | .symbol class_, next, passed, rest =>
      match rest with
      | item :: rest => class_ item && next (item :: passed) rest
      | [] => false
  | .assertion holds, next, passed, rest => holds passed.head? rest.head? && next passed rest
  | .seq first second, next, passed, rest => first.step (second.step next) passed rest
  | .alt left right, next, passed, rest => left.step next passed rest || right.step next passed rest
  | .star body, next, passed, rest => iterate body.step next rest.length passed rest

/-- Try the matcher at each position of the text. -/
def search (regex : Regex α) : Cont α
  | passed, [] => regex.step (fun _ _ => true) passed []
  | passed, item :: rest =>
      regex.step (fun _ _ => true) passed (item :: rest) || regex.search (item :: passed) rest

/-- `RegExp.prototype.test`, `Regex::is_match`. -/
def isMatch (regex : Regex α) (text : List α) : Bool := regex.search [] text

/-! ## The matcher decides the relation -/

/-- What a matcher with continuation `next` should find. -/
def Splits (regex : Regex α) (next : Cont α) (passed rest : List α) : Prop :=
  ∃ middle after, rest = middle ++ after ∧ regex.Matches passed.reverse middle after ∧
    next (middle.reverse ++ passed) after = true

variable {before text after : List α}

/-- A non-trivial repetition starts with a first non-empty round. -/
theorem Matches.star_progress {body : Regex α}
    (matched : (star body).Matches before text after) : text = [] ∨
      ∃ left right, left ≠ [] ∧ text = left ++ right ∧ body.Matches before left (right ++ after) ∧
        (star body).Matches (before ++ left) right after := by
  generalize expression : star body = regex at matched
  induction matched with
  | starNil => exact .inl rfl
  | @starCons _ before left right after matchBody matchRest _ ih =>
      cases expression
      by_cases trivialRound : left = []
      · subst trivialRound
        simpa using ih rfl
      · exact .inr ⟨left, right, trivialRound, rfl, matchBody, matchRest⟩
  | _ => cases expression

/-- The loop of a star finds every way to repeat the body. -/
theorem iterate_iff {body : Regex α} {matcher : Cont α → Cont α}
    (correct : ∀ next passed rest, matcher next passed rest = true ↔ body.Splits next passed rest)
    (next : Cont α) (fuel : Nat) (passed rest : List α) (enough : rest.length ≤ fuel) :
    iterate matcher next fuel passed rest = true ↔ (star body).Splits next passed rest := by
  induction fuel generalizing passed rest with
  | zero =>
      obtain rfl : rest = [] := List.length_eq_zero_iff.mp (Nat.le_zero.mp enough)
      constructor
      · intro accepted
        exact ⟨[], [], rfl, .starNil, accepted⟩
      · rintro ⟨middle, after, split, -, accepted⟩
        obtain ⟨rfl, rfl⟩ := List.append_eq_nil_iff.mp split.symm
        exact accepted
  | succ fuel ih =>
      simp only [iterate, Bool.or_eq_true, correct]
      constructor
      · rintro (accepted | ⟨left, after, rfl, matchBody, accepted⟩)
        · exact ⟨[], rest, rfl, .starNil, accepted⟩
        · simp only [Bool.and_eq_true, decide_eq_true_eq] at accepted
          obtain ⟨progress, accepted⟩ := accepted
          obtain ⟨right, final, rfl, matchRest, acceptedFinal⟩ :=
            (ih _ _ (by omega)).mp accepted
          refine ⟨left ++ right, final, by simp, ?_, by simpa using acceptedFinal⟩
          exact .starCons matchBody (by simpa using matchRest)
      · rintro ⟨middle, after, rfl, matched, accepted⟩
        obtain rfl | ⟨left, right, nonempty, rfl, matchBody, matchRest⟩ := matched.star_progress
        · exact .inl accepted
        · right
          refine ⟨left, right ++ after, by simp, matchBody, ?_⟩
          have shorter : 0 < left.length := List.length_pos_iff.mpr nonempty
          simp only [Bool.and_eq_true, decide_eq_true_eq]
          refine ⟨by simp; omega, (ih _ _ ?_).mpr ⟨right, after, rfl, ?_, ?_⟩⟩
          · simp at enough ⊢
            omega
          · simpa using matchRest
          · simpa using accepted

/-- The matcher finds every way to split the text. -/
theorem step_iff (regex : Regex α) (next : Cont α) (passed rest : List α) :
    regex.step next passed rest = true ↔ regex.Splits next passed rest := by
  induction regex generalizing next passed rest with
  | empty =>
      constructor
      · intro accepted
        exact ⟨[], rest, rfl, .empty, accepted⟩
      · rintro ⟨middle, after, rfl, matched, accepted⟩
        cases matched
        exact accepted
  | symbol class_ =>
      constructor
      · intro accepted
        cases rest with
        | nil => cases accepted
        | cons item rest =>
            obtain ⟨member, accepted⟩ := Bool.and_eq_true_iff.mp accepted
            exact ⟨[item], rest, rfl, .symbol member, accepted⟩
      · rintro ⟨middle, after, rfl, matched, accepted⟩
        cases matched with
        | symbol member => exact Bool.and_eq_true_iff.mpr ⟨member, accepted⟩
  | assertion holds =>
      constructor
      · intro accepted
        obtain ⟨true_, accepted⟩ := Bool.and_eq_true_iff.mp accepted
        exact ⟨[], rest, rfl, .assertion (by simpa using true_), accepted⟩
      · rintro ⟨middle, after, rfl, matched, accepted⟩
        cases matched with
        | assertion true_ =>
            exact Bool.and_eq_true_iff.mpr ⟨by simpa using true_, accepted⟩
  | seq first second ihFirst ihSecond =>
      simp only [step, ihFirst]
      constructor
      · rintro ⟨left, after, rfl, matchFirst, accepted⟩
        obtain ⟨right, final, rfl, matchSecond, accepted⟩ := (ihSecond _ _ _).mp accepted
        refine ⟨left ++ right, final, by simp, .seq matchFirst (by simpa using matchSecond), ?_⟩
        simpa using accepted
      · rintro ⟨middle, after, rfl, matched, accepted⟩
        cases matched with
        | @seq _ _ _ left right _ matchFirst matchSecond =>
            refine ⟨left, right ++ after, by simp, matchFirst, (ihSecond _ _ _).mpr ?_⟩
            exact ⟨right, after, rfl, by simpa using matchSecond, by simpa using accepted⟩
  | alt left right ihLeft ihRight =>
      simp only [step, Bool.or_eq_true, ihLeft, ihRight]
      constructor
      · rintro (⟨middle, after, rfl, matched, accepted⟩ | ⟨middle, after, rfl, matched, accepted⟩)
        · exact ⟨middle, after, rfl, .altLeft matched, accepted⟩
        · exact ⟨middle, after, rfl, .altRight matched, accepted⟩
      · rintro ⟨middle, after, rfl, matched, accepted⟩
        cases matched with
        | altLeft matchLeft => exact .inl ⟨middle, after, rfl, matchLeft, accepted⟩
        | altRight matchRight => exact .inr ⟨middle, after, rfl, matchRight, accepted⟩
  | star body ih =>
      exact iterate_iff ih next rest.length passed rest (Nat.le_refl _)

/-- A search finds a match that starts anywhere. -/
theorem search_iff (regex : Regex α) (passed rest : List α) :
    regex.search passed rest = true ↔ ∃ skipped middle after, rest = skipped ++ middle ++ after ∧
      regex.Matches (passed.reverse ++ skipped) middle after := by
  induction rest generalizing passed with
  | nil =>
      simp only [search, step_iff]
      constructor
      · rintro ⟨middle, after, split, matched, -⟩
        exact ⟨[], middle, after, split, by simpa using matched⟩
      · rintro ⟨skipped, middle, after, split, matched⟩
        obtain ⟨rfl, rfl, rfl⟩ : skipped = [] ∧ middle = [] ∧ after = [] := by
          simpa using split.symm
        exact ⟨[], [], rfl, by simpa using matched, rfl⟩
  | cons item rest ih =>
      simp only [search, Bool.or_eq_true, step_iff, ih]
      constructor
      · rintro (⟨middle, after, split, matched, -⟩ | ⟨skipped, middle, after, rfl, matched⟩)
        · exact ⟨[], middle, after, split, by simpa using matched⟩
        · exact ⟨item :: skipped, middle, after, rfl, by simpa using matched⟩
      · rintro ⟨skipped, middle, after, split, matched⟩
        cases skipped with
        | nil => exact .inl ⟨middle, after, split, by simpa using matched, rfl⟩
        | cons head skipped =>
            obtain ⟨rfl, rfl⟩ : item = head ∧ rest = skipped ++ middle ++ after := by
              simpa using split
            exact .inr ⟨skipped, middle, after, rfl, by simpa using matched⟩

/-- The search finds exactly the texts in which the expression matches. -/
theorem isMatch_iff (regex : Regex α) (text : List α) :
    regex.isMatch text = true ↔ regex.Found text := by
  simp [isMatch, search_iff, Found]

instance (regex : Regex α) (text : List α) : Decidable (regex.Found text) :=
  decidable_of_iff _ (regex.isMatch_iff text)

/-! ## Inversion of the relation -/

/-- The empty expression matches nothing but the empty text. -/
theorem matches_empty :
    empty.Matches before text after ↔ text = [] := by
  constructor
  · rintro ⟨⟩
    rfl
  · rintro rfl
    exact .empty

/-- A class matches one of its symbols. -/
theorem matches_symbol {class_ : α → Bool} :
    (symbol class_).Matches before text after ↔ ∃ item, text = [item] ∧ class_ item = true := by
  constructor
  · rintro ⟨⟩
    exact ⟨_, rfl, ‹_›⟩
  · rintro ⟨item, rfl, member⟩
    exact .symbol member

/-- An assertion matches the empty text where it holds. -/
theorem matches_assertion {holds : Option α → Option α → Bool} :
    (assertion holds).Matches before text after ↔
      text = [] ∧ holds before.getLast? after.head? = true := by
  constructor
  · rintro ⟨⟩
    exact ⟨rfl, ‹_›⟩
  · rintro ⟨rfl, true_⟩
    exact .assertion true_

/-- A sequence matches what its parts match one after the other. -/
theorem matches_seq {first second : Regex α} :
    (seq first second).Matches before text after ↔ ∃ left right, text = left ++ right ∧
      first.Matches before left (right ++ after) ∧ second.Matches (before ++ left) right after := by
  constructor
  · rintro ⟨⟩
    exact ⟨_, _, rfl, ‹_›, ‹_›⟩
  · rintro ⟨left, right, rfl, matchFirst, matchSecond⟩
    exact .seq matchFirst matchSecond

/-- A word consumes a text of its length, symbol by symbol. -/
theorem matches_word {classes : List (α → Bool)} :
    (word classes).Matches before text after ↔
      List.Forall₂ (fun class_ item => class_ item = true) classes text := by
  induction classes generalizing before text with
  | nil => simp [word, matches_empty]
  | cons class_ classes ih =>
      simp only [word, matches_seq, matches_symbol, ih, List.forall₂_cons_left_iff]
      constructor
      · rintro ⟨_, right, rfl, ⟨item, rfl, member⟩, rest⟩
        exact ⟨item, right, member, rest, rfl⟩
      · rintro ⟨item, right, member, rest, rfl⟩
        exact ⟨[item], right, rfl, ⟨item, rfl, member⟩, rest⟩

/-- A literal consumes itself and nothing else. -/
theorem matches_literal [BEq α] [LawfulBEq α] {word : List α} :
    (literal word).Matches before text after ↔ text = word := by
  have flipped : (fun expected item : α => (item == expected) = true) = fun expected item =>
      expected = item := by
    funext expected item
    exact (propext beq_iff_eq).trans (propext eq_comm)
  rw [literal, matches_word, List.forall₂_map_left_iff, flipped, List.forall₂_eq_eq_eq, eq_comm]

/-- A repeated class consumes any text of its symbols. -/
theorem matches_star_symbol {class_ : α → Bool} :
    (star (symbol class_)).Matches before text after ↔ ∀ item ∈ text, class_ item = true := by
  constructor
  · intro matched
    generalize repeated : star (symbol class_) = regex at matched
    induction matched with
    | starNil => simp
    | starCons matchBody matchRest _ ih =>
        cases repeated
        obtain ⟨item, rfl, member⟩ := matches_symbol.mp matchBody
        simpa using ⟨member, ih rfl⟩
    | _ => cases repeated
  · intro members
    induction text generalizing before with
    | nil => exact .starNil
    | cons item rest ih =>
        have first : (symbol class_).Matches before [item] (rest ++ after) :=
          .symbol (members item List.mem_cons_self)
        exact .starCons first (ih fun other member => members other (List.mem_cons_of_mem _ member))

end Regex
end Solpg.Std
