import Mathlib.Logic.Function.Basic
import Mathlib.Data.List.Basic

/-!
# Patterns with capture groups

What a backtracking engine captures. It tries the alternatives in their order, and
repeats as often as it can first. Of what it captures, a relation without an order says
which texts are possible, and rules for texts that leave no choice say which is found.
-/

namespace Solpg.Std

universe u

/-- A regular expression with groups, in the order in which its matches are tried. -/
inductive Pattern (α : Type u) where
  | empty
  | symbol (class_ : α → Bool)
  | seq (first second : Pattern α)
  /-- The second one is tried if the first leads to no match. -/
  | alt (first second : Pattern α)
  /-- As often as possible. -/
  | star (body : Pattern α)
  | group (index : Nat) (body : Pattern α)

namespace Pattern

variable {α : Type u}

/-- The pattern or nothing. -/
def optional (body : Pattern α) : Pattern α := .alt body .empty

/-- Any number of symbols of the class. -/
def many (class_ : α → Bool) : Pattern α := .star (.symbol class_)

/-- At least one symbol of the class. -/
def plus (class_ : α → Bool) : Pattern α := .seq (.symbol class_) (many class_)

/-- The symbols themselves. -/
def literal [BEq α] : List α → Pattern α
  | [] => .empty
  | item :: rest => .seq (.symbol (· == item)) (literal rest)

/-- One after the other. -/
def sequence : List (Pattern α) → Pattern α
  | [] => .empty
  | first :: rest => .seq first (sequence rest)

/-- The groups that are inside. -/
def groups : Pattern α → List Nat
  | .empty | .symbol _ => []
  | .seq first second | .alt first second => first.groups ++ second.groups
  | .star body => body.groups
  | .group index body => index :: body.groups

/-- The text of each group that has matched. -/
abbrev Captures (α : Type u) := Nat → Option (List α)

/-- Forget what the groups have captured. -/
def Captures.clear (captures : Captures α) (groups : List Nat) : Captures α :=
  fun index => if index ∈ groups then none else captures index

/-- What is to match the rest of the text. -/
abbrev Continuation (α : Type u) := List α → Captures α → Option (Captures α)

/-- Repeat a matcher, at most `fuel` times and never without progress. -/
def iterate (matcher : Continuation α → Continuation α) (groups : List Nat)
    (next : Continuation α) : Nat → Continuation α
  | 0, rest, captures => next rest captures
  | fuel + 1, rest, captures =>
      (matcher (fun rest' captures' =>
        if rest'.length < rest.length then iterate matcher groups next fuel rest' captures'
        else none) rest (captures.clear groups)).or (next rest captures)

/-- Match the pattern, and then what comes next. -/
def step : Pattern α → Continuation α → Continuation α
  | .empty, next, rest, captures => next rest captures
  | .symbol _, _, [], _ => none
  | .symbol class_, next, item :: rest, captures =>
      if class_ item then next rest captures else none
  | .seq first second, next, rest, captures => first.step (second.step next) rest captures
  | .alt first second, next, rest, captures =>
      (first.step next rest captures).or (second.step next rest captures)
  | .star body, next, rest, captures =>
      iterate body.step body.groups next rest.length rest captures
  | .group index body, next, rest, captures =>
      body.step (fun after captures' => next after
        (Function.update captures' index (some (rest.take (rest.length - after.length))))) rest
        captures

/-- The captures of a match at the start of the text. -/
def matchAt (pattern : Pattern α) (text : List α) : Option (Captures α) :=
  pattern.step (fun _ captures => some captures) text fun _ => none

/-- `RegExp.prototype.exec`: the captures of the first match. -/
def exec (pattern : Pattern α) : List α → Option (Captures α)
  | [] => pattern.matchAt []
  | item :: rest => (pattern.matchAt (item :: rest)).or (pattern.exec rest)

/-! ## What can be captured -/

/-- The pattern can consume the text and change the captures so. -/
inductive Matches : Pattern α → Captures α → List α → Captures α → Prop where
  | empty {captures} : Matches .empty captures [] captures
  | symbol {class_ : α → Bool} {item captures} (member : class_ item = true) :
      Matches (.symbol class_) captures [item] captures
  | seq {first second captures left middle right after}
      (matchFirst : Matches first captures left middle)
      (matchSecond : Matches second middle right after) :
      Matches (.seq first second) captures (left ++ right) after
  | altFirst {first second captures text after} (matchFirst : Matches first captures text after) :
      Matches (.alt first second) captures text after
  | altSecond {first second captures text after}
      (matchSecond : Matches second captures text after) :
      Matches (.alt first second) captures text after
  | starNil {body captures} : Matches (.star body) captures [] captures
  | starCons {body captures left middle right after}
      (matchBody : Matches body (captures.clear body.groups) left middle)
      (matchRest : Matches (.star body) middle right after) :
      Matches (.star body) captures (left ++ right) after
  | group {index body captures text after} (matchBody : Matches body captures text after) :
      Matches (.group index body) captures text (Function.update after index (some text))

/-- What a match with a continuation has gone through. -/
def Goes (pattern : Pattern α) (next : Continuation α) (rest : List α)
    (captures result : Captures α) : Prop :=
  ∃ text after between, rest = text ++ after ∧ pattern.Matches captures text between ∧
    next after between = some result

variable {pattern first second body : Pattern α} {next : Continuation α} {text rest : List α}
  {captures after result : Captures α} {class_ : α → Bool} {index : Nat}

/-- A result of the loop is a sequence of matches of its body. -/
theorem iterate_goes {fuel : Nat}
    (goes : ∀ {next : Continuation α} {rest captures result},
      body.step next rest captures = some result → body.Goes next rest captures result)
    (found : iterate body.step body.groups next fuel rest captures = some result) :
    (star body).Goes next rest captures result := by
  induction fuel generalizing rest captures with
  | zero => exact ⟨[], rest, captures, rfl, .starNil, found⟩
  | succ fuel ih =>
      rw [iterate, Option.or_eq_some_iff] at found
      obtain again | ⟨-, stops⟩ := found
      · obtain ⟨left, remaining, middle, rfl, matchBody, continues⟩ := goes again
        beta_reduce at continues
        split at continues
        next =>
          obtain ⟨right, end_, final, rfl, matchRest, accepted⟩ := ih continues
          exact ⟨left ++ right, end_, final, by simp, .starCons matchBody matchRest, accepted⟩
        next => cases continues
      · exact ⟨[], rest, captures, rfl, .starNil, stops⟩

/-- By induction on the pattern. -/
theorem goes_of_step (found : pattern.step next rest captures = some result) :
    pattern.Goes next rest captures result := by
  induction pattern generalizing next rest captures result with
  | empty => exact ⟨[], rest, captures, rfl, .empty, found⟩
  | symbol class_ =>
      cases rest with
      | nil => cases found
      | cons item rest =>
          rw [step] at found
          split at found
          next member => exact ⟨[item], rest, captures, rfl, .symbol member, found⟩
          next => cases found
  | seq first second ihFirst ihSecond =>
      obtain ⟨left, remaining, middle, rfl, matchFirst, continues⟩ := ihFirst found
      obtain ⟨right, end_, final, rfl, matchSecond, accepted⟩ := ihSecond continues
      exact ⟨left ++ right, end_, final, by simp, .seq matchFirst matchSecond, accepted⟩
  | alt first second ihFirst ihSecond =>
      rw [step, Option.or_eq_some_iff] at found
      obtain found | ⟨-, found⟩ := found
      · obtain ⟨text, end_, final, rfl, matched, accepted⟩ := ihFirst found
        exact ⟨text, end_, final, rfl, .altFirst matched, accepted⟩
      · obtain ⟨text, end_, final, rfl, matched, accepted⟩ := ihSecond found
        exact ⟨text, end_, final, rfl, .altSecond matched, accepted⟩
  | star body ih => exact iterate_goes ih found
  | group index body ih =>
      obtain ⟨text, end_, final, rfl, matched, accepted⟩ := ih found
      have consumed : (text ++ end_).take ((text ++ end_).length - end_.length) = text := by
        simp
      beta_reduce at accepted
      rw [consumed] at accepted
      exact ⟨text, end_, _, rfl, .group matched, accepted⟩

/-- A result at a place is a match of the pattern there. -/
theorem matches_of_matchAt (found : pattern.matchAt rest = some result) :
    ∃ text, text <+: rest ∧ pattern.Matches (fun _ => none) text result := by
  obtain ⟨text, end_, final, rfl, matched, accepted⟩ := goes_of_step found
  obtain rfl := Option.some.inj accepted
  exact ⟨text, List.prefix_append text end_, matched⟩

/-- What is found is a match of a part of the text. -/
theorem matches_of_exec (found : pattern.exec rest = some result) :
    ∃ text, text <:+: rest ∧ pattern.Matches (fun _ => none) text result := by
  induction rest with
  | nil =>
      obtain ⟨text, part, matched⟩ := matches_of_matchAt found
      exact ⟨text, part.isInfix, matched⟩
  | cons item rest ih =>
      rw [exec, Option.or_eq_some_iff] at found
      obtain found | ⟨-, found⟩ := found
      · obtain ⟨text, part, matched⟩ := matches_of_matchAt found
        exact ⟨text, part.isInfix, matched⟩
      · obtain ⟨text, part, matched⟩ := ih found
        exact ⟨text, part.trans (List.suffix_cons item rest).isInfix, matched⟩

/-- Every group of that index has only texts with a property. -/
def Captured (index : Nat) (P : List α → Prop) : Pattern α → Prop
  | .empty | .symbol _ => True
  | .seq first second | .alt first second =>
      first.Captured index P ∧ second.Captured index P
  | .star body => body.Captured index P
  | .group other body => body.Captured index P ∧
      (other = index → ∀ captures text after, body.Matches captures text after → P text)

/-- What is captured has the property of its group. -/
theorem Matches.captured {P : List α → Prop} (matched : pattern.Matches captures text after)
    (captured : pattern.Captured index P)
    (before : ∀ inner, captures index = some inner → P inner) :
    ∀ inner, after index = some inner → P inner := by
  induction matched with
  | empty => exact before
  | symbol => exact before
  | seq _ _ ihFirst ihSecond => exact ihSecond captured.2 (ihFirst captured.1 before)
  | altFirst _ ih => exact ih captured.1 before
  | altSecond _ ih => exact ih captured.2 before
  | starNil => exact before
  | starCons _ _ ihBody ihRest =>
      apply ihRest captured
      apply ihBody captured
      intro inner kept
      rw [Captures.clear] at kept
      split at kept
      next => cases kept
      next => exact before inner kept
  | group matchBody ih =>
      intro inner kept
      rw [Function.update_apply] at kept
      split at kept
      next same =>
        obtain rfl := Option.some.inj kept
        exact captured.2 same.symm _ _ _ matchBody
      next => exact ih captured.1 before inner kept

/-- What `exec` captures has the property of its group. -/
theorem captured_of_exec {P : List α → Prop} {inner : List α}
    (found : pattern.exec rest = some result) (captured : pattern.Captured index P)
    (inside : result index = some inner) : P inner := by
  obtain ⟨text, -, matched⟩ := matches_of_exec found
  exact matched.captured captured nofun inner inside

/-- A repeated class matches symbols of the class. -/
theorem matches_many (matched : (many class_).Matches captures text after) :
    ∀ item ∈ text, class_ item = true := by
  generalize repeated : many class_ = pattern at matched
  induction matched with
  | starNil => exact List.forall_mem_nil _
  | starCons matchBody _ _ ih =>
      cases repeated
      cases matchBody with
      | symbol member => exact List.forall_mem_cons.mpr ⟨member, ih rfl⟩
  | _ => cases repeated

/-- It matches at least one symbol of the class. -/
theorem matches_plus (matched : (plus class_).Matches captures text after) :
    text ≠ [] ∧ ∀ item ∈ text, class_ item = true := by
  cases matched with
  | seq matchFirst matchRest =>
      cases matchFirst with
      | symbol member =>
          exact ⟨nofun, List.forall_mem_cons.mpr ⟨member, matches_many matchRest⟩⟩

/-- A literal matches itself only. -/
theorem matches_literal [BEq α] [LawfulBEq α] {word : List α}
    (matched : (literal word).Matches captures text after) : text = word := by
  induction word generalizing text captures with
  | nil =>
      cases matched
      rfl
  | cons item word ih =>
      cases matched with
      | seq matchFirst matchSecond =>
          cases matchFirst with
          | symbol member => rw [ih matchSecond, eq_of_beq member, List.singleton_append]

/-- A repeated pattern consumes pieces that it consumes one by one. -/
theorem matches_star (matched : (star body).Matches captures text after) :
    ∃ pieces : List (List α), text = pieces.flatten ∧
      ∀ piece ∈ pieces, ∃ before later, body.Matches before piece later := by
  generalize repeated : star body = pattern at matched
  induction matched with
  | starNil => exact ⟨[], rfl, List.forall_mem_nil _⟩
  | @starCons _ _ left _ _ _ matchBody _ _ ih =>
      cases repeated
      obtain ⟨pieces, rfl, each⟩ := ih rfl
      exact ⟨left :: pieces, rfl, List.forall_mem_cons.mpr ⟨⟨_, _, matchBody⟩, each⟩⟩
  | _ => cases repeated

section Captured

variable {P : List α → Prop}

/-- A literal captures nothing. -/
@[simp] theorem captured_literal [BEq α] (word : List α) : (literal word).Captured index P := by
  induction word with
  | nil => trivial
  | cons item word ih => exact ⟨trivial, ih⟩

@[simp] theorem captured_many : (many class_).Captured index P := trivial

/-- A class that is repeated at least once captures nothing. -/
@[simp] theorem captured_plus : (plus class_).Captured index P := ⟨trivial, trivial⟩

@[simp] theorem captured_optional :
    (optional pattern).Captured index P ↔ pattern.Captured index P := and_iff_left trivial

@[simp] theorem captured_alt : (alt first second).Captured index P ↔
    first.Captured index P ∧ second.Captured index P := Iff.rfl

/-- A sequence captures what its patterns do. -/
@[simp] theorem captured_sequence {patterns : List (Pattern α)} :
    (sequence patterns).Captured index P ↔
      ∀ pattern ∈ patterns, pattern.Captured index P := by
  induction patterns with
  | nil => simp [sequence, Captured]
  | cons pattern rest ih => simp [sequence, Captured, ih]

@[simp] theorem captured_group {other : Nat} : (group other body).Captured index P ↔
    body.Captured index P ∧
      (other = index → ∀ captures text after, body.Matches captures text after → P text) :=
  Iff.rfl

end Captured

/-! ## What is captured when there is no choice -/

/-- Before this rest the pattern consumes the text first, and what can come after it does
not matter to that. -/
def Takes (pattern : Pattern α) (captures : Captures α) (text : List α) (after : Captures α)
    (rest : List α) : Prop :=
  ∀ (next : Continuation α) (result : Captures α), next rest after = some result →
    pattern.step next (text ++ rest) captures = some result

/-- The pattern matches no text that starts here. -/
def Refuses (pattern : Pattern α) (rest : List α) : Prop :=
  ∀ (next : Continuation α) (captures : Captures α), pattern.step next rest captures = none

namespace Takes

variable {left right : List α} {middle : Captures α}

/-- A sequence takes what its parts take one after the other. -/
theorem seq (takesFirst : first.Takes captures left middle (right ++ rest))
    (takesSecond : second.Takes middle right after rest) :
    (seq first second).Takes captures (left ++ right) after rest := by
  intro next result found
  rw [List.append_assoc]
  exact takesFirst _ _ (takesSecond next result found)

/-- The empty sequence takes nothing. -/
theorem nil : (sequence []).Takes captures [] captures rest := fun _ _ found => found

/-- A sequence takes what its first pattern takes, and then the others. -/
theorem cons {patterns : List (Pattern α)}
    (takesFirst : pattern.Takes captures left middle (right ++ rest))
    (takesRest : (sequence patterns).Takes middle right after rest) :
    (sequence (pattern :: patterns)).Takes captures (left ++ right) after rest :=
  takesFirst.seq takesRest

/-- An alternative takes what its first side takes. -/
theorem altFirst (takes : first.Takes captures text after rest) :
    (alt first second).Takes captures text after rest := by
  intro next result found
  rw [step, takes next result found]
  rfl

/-- It takes what its second side takes where the first refuses. -/
theorem altSecond (refuses : first.Refuses (text ++ rest))
    (takes : second.Takes captures text after rest) :
    (alt first second).Takes captures text after rest := by
  intro next result found
  rw [step, refuses next captures]
  exact takes next result found

/-- An optional pattern takes what the pattern takes. -/
theorem optional (takes : pattern.Takes captures text after rest) :
    (optional pattern).Takes captures text after rest := takes.altFirst

/-- It takes nothing where the pattern refuses. -/
theorem skip (refuses : pattern.Refuses rest) :
    (Pattern.optional pattern).Takes captures [] captures rest :=
  altSecond refuses fun _ _ found => found

/-- An optional pattern that does not match leaves the rest to those after it. -/
theorem skipCons {patterns : List (Pattern α)} (refuses : pattern.Refuses (text ++ rest))
    (takes : (sequence patterns).Takes captures text after rest) :
    (sequence (Pattern.optional pattern :: patterns)).Takes captures text after rest := by
  have skipped : (Pattern.optional pattern).Takes captures [] captures (text ++ rest) :=
    skip refuses
  exact skipped.cons takes

/-- A sequence of one pattern takes what the pattern takes. -/
theorem single (takes : pattern.Takes captures text after rest) :
    (sequence [pattern]).Takes captures text after rest :=
  fun next result found => takes next result found

/-- A group captures what its body consumes. -/
theorem group (takes : pattern.Takes captures text after rest) :
    (group index pattern).Takes captures text (Function.update after index (some text)) rest := by
  intro next result found
  apply takes
  have consumed : (text ++ rest).take ((text ++ rest).length - rest.length) = text := by
    simp
  rw [consumed]
  exact found

/-- A literal takes itself. -/
theorem literal [BEq α] [LawfulBEq α] (word : List α) :
    (literal word).Takes captures word captures rest := by
  intro next result found
  induction word with
  | nil => exact found
  | cons item word ih =>
      rw [Pattern.literal, List.cons_append, step, step, if_pos (beq_self_eq_true item)]
      exact ih

/-- A repeated class takes the symbols up to one that is not of it. -/
theorem many (members : ∀ item ∈ text, class_ item = true)
    (stops : ∀ item ∈ rest.head?, class_ item = false) :
    (many class_).Takes captures text captures rest := by
  intro next result found
  have keep (captures : Captures α) : captures.clear [] = captures := by
    ext index
    simp [Captures.clear]
  have enough : text.length ≤ (text ++ rest).length := by simp
  change iterate (symbol class_).step [] next (text ++ rest).length _ _ = _
  generalize (text ++ rest).length = fuel at enough
  induction text generalizing fuel with
  | nil =>
      cases fuel with
      | zero => exact found
      | succ fuel =>
          rw [iterate, keep, List.nil_append, found]
          cases rest with
          | nil => rfl
          | cons item rest =>
              rw [step, if_neg (by simp [stops item rfl])]
              rfl
  | cons item text ih =>
      cases fuel with
      | zero => simp at enough
      | succ fuel =>
          have tail : iterate (symbol class_).step [] next fuel (text ++ rest) captures =
              some result := by
            apply ih (fun other member => members other (List.mem_cons_of_mem _ member))
            simpa using enough
          rw [iterate, keep, List.cons_append, step, if_pos (members item List.mem_cons_self),
            if_pos (by simp), tail]
          rfl

/-- A repeated class takes all symbols of the class up to the first other one. -/
theorem plus (nonempty : text ≠ []) (members : ∀ item ∈ text, class_ item = true)
    (stops : ∀ item ∈ rest.head?, class_ item = false) :
    (plus class_).Takes captures text captures rest := by
  cases text with
  | nil => exact absurd rfl nonempty
  | cons item text =>
      have first : (symbol class_).Takes captures [item] captures (text ++ rest) := by
        intro next result found
        rw [List.singleton_append, step, if_pos (members item List.mem_cons_self)]
        exact found
      exact first.seq
        (many (fun other member => members other (List.mem_cons_of_mem _ member)) stops)

end Takes

/-- Before this rest the repeated pattern consumes the text first, however many steps more it
may take. -/
def Repeats (body : Pattern α) (captures : Captures α) (text : List α) (after : Captures α)
    (rest : List α) : Prop :=
  ∀ (fuel : Nat) (next : Continuation α) (result : Captures α), (text ++ rest).length ≤ fuel →
    next rest after = some result →
      iterate body.step body.groups next fuel (text ++ rest) captures = some result

namespace Repeats

variable {left right : List α} {middle : Captures α}

/-- The repetition ends where the pattern does not match. -/
theorem nil (refuses : body.Refuses rest) : body.Repeats captures [] captures rest := by
  intro fuel next result _ found
  cases fuel with
  | zero => exact found
  | succ fuel =>
      rw [iterate, List.nil_append, refuses]
      exact found

/-- One more round is taken by the body. -/
theorem cons (nonempty : left ≠ [])
    (takes : body.Takes (captures.clear body.groups) left middle (right ++ rest))
    (repeats : body.Repeats middle right after rest) :
    body.Repeats captures (left ++ right) after rest := by
  intro fuel next result enough found
  have shorter : (right ++ rest).length < (left ++ (right ++ rest)).length := by
    have progress := List.length_pos_of_ne_nil nonempty
    simp only [List.length_append]
    omega
  rw [List.append_assoc] at enough ⊢
  cases fuel with
  | zero => omega
  | succ fuel =>
      rw [iterate, takes _ result]
      · rfl
      · rw [if_pos shorter]
        exact repeats fuel next result (by omega) found

/-- A star takes what its body takes in rounds. -/
theorem takes (repeats : body.Repeats captures text after rest) :
    (star body).Takes captures text after rest :=
  fun next result found => repeats _ next result (Nat.le_refl _) found

end Repeats

namespace Refuses

/-- The pattern matches nothing that the rest starts with. -/
theorem of_matches (none_ : ∀ text after captures result, rest = text ++ after →
    ¬ pattern.Matches captures text result) : pattern.Refuses rest := by
  intro next captures
  by_contra found
  obtain ⟨result, found⟩ := Option.ne_none_iff_exists'.mp found
  obtain ⟨text, after, between, split, matched, -⟩ := goes_of_step found
  exact none_ text after captures between split matched

/-- A group refuses where its body does. -/
theorem group (refuses : pattern.Refuses rest) : (group index pattern).Refuses rest :=
  fun _ _ => refuses _ _

/-- A sequence refuses where its first part does. -/
theorem seq (refuses : first.Refuses rest) : (seq first second).Refuses rest :=
  fun _ _ => refuses _ _

/-- It refuses where the first of its patterns does. -/
theorem sequence {patterns : List (Pattern α)} (refuses : pattern.Refuses rest) :
    (sequence (pattern :: patterns)).Refuses rest :=
  refuses.seq

/-- An alternative refuses where both sides do. -/
theorem alt (refusesFirst : first.Refuses rest) (refusesSecond : second.Refuses rest) :
    (alt first second).Refuses rest := by
  intro next captures
  rw [step, refusesFirst next captures, refusesSecond next captures]
  rfl

/-- A literal refuses a text that starts otherwise. -/
theorem literal [BEq α] [LawfulBEq α] {item : α} {word : List α}
    (other : rest.head? ≠ some item) : (literal (item :: word)).Refuses rest := by
  intro next captures
  cases rest with
  | nil => rfl
  | cons head rest =>
      rw [Pattern.literal, step, step, if_neg]
      simpa using other

end Refuses

/-- A match at the start of the text is the first one. -/
theorem exec_of_takes (takes : pattern.Takes (fun _ => none) text result rest) :
    pattern.exec (text ++ rest) = some result := by
  have found : pattern.matchAt (text ++ rest) = some result := takes _ _ rfl
  cases whole : text ++ rest with
  | nil => rwa [whole] at found
  | cons item tail =>
      rw [whole] at found
      rw [exec, found]
      rfl

end Pattern
end Solpg.Std
