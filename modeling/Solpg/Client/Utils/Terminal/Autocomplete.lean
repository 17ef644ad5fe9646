import Solpg.Client.Utils.Terminal.Parse

/-!
# Candidates for a completion

`PgAutocomplete`: what its handlers offer for an input. Every candidate is defined in one of
the handlers, and begins with what is being typed.
-/

namespace Solpg.Client.Utils.Terminal

open Solpg.Std CodeUnits

/-- `values` of an argument or an option. A function gets the token and all tokens for an
argument and nothing for an option; `none` is an error. -/
inductive Values where
  | list (values : List CodeUnits)
  | function (values : Option (CodeUnits × List (Option CodeUnits)) → Option (List CodeUnits))

/-- The values, from the arguments where they are a function of them. -/
def Values.get (arguments : Option (CodeUnits × List (Option CodeUnits))) :
    Values → Option (List CodeUnits)
  | list values => some values
  | function values => values arguments

/-- Nested command definitions: the entries of a command, or what is known of an argument or
an option. -/
inductive Completions where
  | mk (entries : List (CodeUnits × Completions)) (values : Option Values)
      (multiple takeValue : Bool) (other : Option CodeUnits)

namespace Completions

/-- The members of the object under their own keys. -/
def entries : Completions → List (CodeUnits × Completions)
  | mk entries _ _ _ _ => entries

/-- `values` of the object. -/
def values : Completions → Option Values
  | mk _ values _ _ _ => values

/-- `multiple` of the object. -/
def multiple : Completions → Bool
  | mk _ _ multiple _ _ => multiple

/-- `takeValue` of the object. -/
def takeValue : Completions → Bool
  | mk _ _ _ takeValue _ => takeValue

/-- `other` of the object. -/
def other : Completions → Option CodeUnits
  | mk _ _ _ _ other => other

/-- The object with other members. -/
def withEntries (entries : List (CodeUnits × Completions)) : Completions → Completions
  | mk _ values multiple takeValue other => mk entries values multiple takeValue other

/-- The members are as they were set. -/
@[simp] theorem entries_withEntries (entries : List (CodeUnits × Completions))
    (completions : Completions) : (completions.withEntries entries).entries = entries := by
  cases completions
  rfl

end Completions

/-- What an option starts with. -/
def hyphen : UInt16 := 0x2d

/-- `getIsOption`. -/
def getIsOption (token : CodeUnits) : Bool := token.head? = some hyphen

/-- The integer of a text of digits, after a sign. -/
def digitsOf (text : CodeUnits) : Option Int :=
  let digits := if text.head? = some hyphen then text.drop 1 else text
  if digits ≠ [] ∧ ∀ unit ∈ digits, 0x30 ≤ unit ∧ unit ≤ 0x39 then
    let size : Int := digits.foldl (fun value unit => 10 * value + (unit.toNat - 0x30)) 0
    some (if text.head? = some hyphen then -size else size)
  else none

/-- `tokens[i]`, where an entry that was never set is no text either -/
def tokenAt (tokens : List (Option CodeUnits)) (i : Nat) : CodeUnits := tokens[i]?.join.getD []

namespace Completions

section Recursion

variable (tokens : List (Option CodeUnits)) (index i : Nat)
  (recurse : Completions → Nat → Option (List CodeUnits))

/-- The values that begin with the token. -/
def filteredValues (values : Values)
    (arguments : Option (CodeUnits × List (Option CodeUnits))) : Option (List CodeUnits) := do
  let values ← values.get arguments
  some (values.filter (tokenAt tokens index).isPrefixOf)

/-- An argument of the given number. -/
def visitArgument (obj : Completions) (number : Int) (value : Completions) :
    Option (List CodeUnits) :=
  match value.values, decide ((index : Int) - i = number) with
  | some values, true => filteredValues tokens index values (some (tokenAt tokens index, tokens))
  | _, _ =>
      if value.multiple then recurse obj (i + 1)
      else
        let opts := obj.withEntries (obj.entries.filter fun entry => getIsOption entry.1)
        let argAmount := (obj.entries.filter fun entry => (digitsOf entry.1).isSome).length
        recurse opts (i + argAmount)

/-- The values of an option whose value is completed. -/
def optionValues (value : Completions) : Option (List CodeUnits) :=
  match value.values, decide (index - i = 1) with
  | some values, true => filteredValues tokens index values none
  | _, _ => some []

/-- An option that is one of the tokens. -/
def visitOption (obj value : Completions) : Option (List CodeUnits) := do
  let values ← optionValues tokens index i value
  let next ← recurse obj (if value.takeValue then i + 2 else i + 1)
  some (values ++ next)

/-- Remove long/short to not suggest duplicates. -/
def withoutOther (obj value : Completions) : Completions :=
  match value.other with
  | none | some [] => obj
  | some other => obj.withEntries (obj.entries.filter fun entry => entry.1 ≠ other)

/-- A turn of the loop: the object with the options that are left, and the candidates. -/
def visit (visited : Completions × List CodeUnits) (entry : CodeUnits × Completions) :
    Option (Completions × List CodeUnits) := do
  let (obj, candidates) := visited
  let (key, value) := entry
  match digitsOf key with
  | some number =>
      if getIsOption (tokenAt tokens i) then some (obj, candidates)
      else do
        let found ← visitArgument tokens index i recurse obj number value
        some (obj, candidates ++ found)
  | none =>
      if (tokenAt tokens i).isPrefixOf key then
        let candidates :=
          if i = index ∧ some key ∉ tokens.take i then candidates ++ [key] else candidates
        if tokens[i]?.join = some key then
          if getIsOption key then do
            let obj := withoutOther obj value
            let found ← visitOption tokens index i recurse obj value
            some (obj, candidates ++ found)
          else do
            let found ← recurse value (i + 1)
            some (obj, candidates ++ found)
        else some (obj, candidates)
      else some (obj, candidates)

end Recursion

/-- `stack` is how deep the engine lets the recursion go before it throws. -/
def recursivelyGetCandidates (tokens : List (Option CodeUnits)) (index : Nat) :
    (stack : Nat) → Completions → (i : Nat) → Option (List CodeUnits)
  | 0, _, _ => none
  | stack + 1, obj, i =>
      if index < i then some []
      else do
        let (_, candidates) ←
          obj.entries.foldlM (visit tokens index i (recursivelyGetCandidates tokens index stack))
            (obj, [])
        some candidates

end Completions

/-- The handlers: nested command definitions, or entries, which a function may give. -/
inductive AutocompleteHandler where
  | entries (entries : Option (List CodeUnits))
  | object (completions : Completions)

/-- The tokens begin an entry, the last one perhaps as a part of the token of the entry. -/
def matchesEntry (tokens : List (Option CodeUnits)) (index : Nat)
    (entryTokens : List (Option CodeUnits)) : Bool :=
  let lastIndex : Int := tokens.length - 1
  tokens.zipIdx.all fun (token, i) =>
    match token with
    -- `every` passes over what was never set
    | none => true
    | some token =>
        if i = lastIndex ∧ index ≤ lastIndex then
          entryTokens[i]?.join.any token.isPrefixOf
        else entryTokens[i]?.join = some token

/-- The candidates of a list of entries: their tokens at the index. -/
def entryCandidates (entries : List CodeUnits) (tokens : List (Option CodeUnits)) (index : Nat) :
    List CodeUnits :=
  (entries.map parse).filterMap fun entryTokens =>
    if matchesEntry tokens index entryTokens then entryTokens[index]?.join else none

/-- What the program relies on of the engine: a sort that keeps the elements whatever the
comparison says, the order of texts, and the depth of its stack. -/
structure Engine where
  sort : (CodeUnits → CodeUnits → Int) → List CodeUnits → List CodeUnits
  perm : ∀ compare texts, (sort compare texts).Perm texts
  localeCompare : CodeUnits → CodeUnits → Int
  stack : Nat

namespace PgAutocomplete

variable (engine : Engine) (handlers : List AutocompleteHandler)

/-- The candidates of one handler. -/
def handlerCandidates (tokens : List (Option CodeUnits)) (index : Nat) :
    AutocompleteHandler → Option (List CodeUnits)
  | .entries entries => entries.map fun entries => entryCandidates entries tokens index
  | .object completions =>
      completions.recursivelyGetCandidates tokens index engine.stack 0

/-- Prioritize arguments over options. -/
def compare (a b : CodeUnits) : Int :=
  if getIsOption a ∧ ¬ getIsOption b then 1
  else if getIsOption b then -1
  else engine.localeCompare a b

/-- Only show options when the last token starts with '-'. -/
def showsCandidate (tokens : List (Option CodeUnits)) (candidate : CodeUnits) : Bool :=
  match tokens.getLast?.join with
  | none | some [] => true
  | some lastToken =>
      if [hyphen, hyphen].isPrefixOf candidate then [hyphen, hyphen].isPrefixOf lastToken
      else if [hyphen].isPrefixOf candidate then [hyphen].isPrefixOf lastToken
      else true

/-- The index of the token that is completed. -/
def completionIndex (input : CodeUnits) : Nat :=
  if trim input = [] then 0 else (parse input).length - 1

/-- Collect the autocomplete candidates from the given input. -/
def getCandidates (input : CodeUnits) : List CodeUnits :=
  let tokens := parse input
  let index := completionIndex input
  -- an error of a handler is logged
  let candidates := handlers.flatMap fun handler =>
    (handlerCandidates engine tokens index handler).getD []
  (engine.sort (compare engine) candidates.eraseDups).filter (showsCandidate tokens)

end PgAutocomplete

/-! ## What is offered -/

/-- The word is a name or a value in the definitions. -/
inductive Completions.Offers : Completions → CodeUnits → Prop
  | key {completions value : Completions} {key : CodeUnits} :
      (key, value) ∈ completions.entries → Offers completions key
  | value {completions value : Completions} {key word : CodeUnits} {values : Values}
      {arguments : Option (CodeUnits × List (Option CodeUnits))} {given : List CodeUnits} :
      (key, value) ∈ completions.entries → value.values = some values →
      values.get arguments = some given → word ∈ given → Offers completions word
  | nested {completions value : Completions} {key word : CodeUnits} :
      (key, value) ∈ completions.entries → Offers value word → Offers completions word

/-- The word is in the definitions, or a token of an entry. -/
def AutocompleteHandler.Offers (word : CodeUnits) : AutocompleteHandler → Prop
  | .entries given => ∃ found ∈ given, ∃ entry ∈ found, some word ∈ parse entry
  | .object completions => completions.Offers word

namespace Completions

variable {tokens : List (Option CodeUnits)} {index i : Nat} {obj root value : Completions}
  {key word : CodeUnits}

/-- More entries offer more words. -/
theorem Offers.mono (offers : root.Offers word)
    (fewer : ∀ entry ∈ root.entries, entry ∈ obj.entries) : obj.Offers word := by
  cases offers with
  | key member => exact .key (fewer _ member)
  | value member given found among => exact .value (fewer _ member) given found among
  | nested member offers => exact .nested (fewer _ member) offers

/-- The candidates are defined in the object and begin with the token at the index. -/
def Sound (tokens : List (Option CodeUnits)) (index : Nat) (obj : Completions)
    (candidates : List CodeUnits) : Prop :=
  ∀ candidate ∈ candidates, obj.Offers candidate ∧ tokenAt tokens index <+: candidate

/-- Sound candidates together are sound. -/
theorem Sound.append {first second : List CodeUnits} (left : Sound tokens index obj first)
    (right : Sound tokens index obj second) : Sound tokens index obj (first ++ second) := by
  intro candidate among
  obtain among | among := List.mem_append.mp among
  · exact left candidate among
  · exact right candidate among

/-- Candidates stay sound among more entries. -/
theorem Sound.mono {candidates : List CodeUnits} (sound : Sound tokens index root candidates)
    (fewer : ∀ entry ∈ root.entries, entry ∈ obj.entries) : Sound tokens index obj candidates :=
  fun candidate among => ⟨(sound candidate among).1.mono fewer, (sound candidate among).2⟩

/-- The values of an argument are sound candidates. -/
theorem filteredValues_sound {values : Values} {found : List CodeUnits}
    {arguments : Option (CodeUnits × List (Option CodeUnits))}
    (member : (key, value) ∈ obj.entries) (given : value.values = some values)
    (filtered : filteredValues tokens index values arguments = some found) :
    Sound tokens index obj found := by
  obtain ⟨all, got, same⟩ := Option.bind_eq_some_iff.mp filtered
  obtain rfl := Option.some.inj same
  intro candidate among
  obtain ⟨among, begins⟩ := List.mem_filter.mp among
  exact ⟨.value member given got among, List.isPrefixOf_iff_prefix.mp begins⟩

section Visit

variable {recurse : Completions → Nat → Option (List CodeUnits)}
  (sound : ∀ obj i candidates, recurse obj i = some candidates → Sound tokens index obj candidates)

include sound

/-- The candidates of an argument are sound. -/
theorem visitArgument_sound {number : Int} {found : List CodeUnits}
    (member : (key, value) ∈ root.entries)
    (fewer : ∀ entry ∈ obj.entries, entry ∈ root.entries)
    (visited : visitArgument tokens index i recurse obj number value = some found) :
    Sound tokens index root found := by
  rw [visitArgument] at visited
  split at visited
  next values given _ => exact filteredValues_sound member given visited
  next =>
    split at visited
    · exact (sound _ _ _ visited).mono fewer
    · refine (sound _ _ _ visited).mono fun entry among => fewer entry ?_
      rw [entries_withEntries] at among
      exact (List.mem_filter.mp among).1

/-- The candidates of an option are sound. -/
theorem visitOption_sound {found : List CodeUnits} (member : (key, value) ∈ root.entries)
    (fewer : ∀ entry ∈ obj.entries, entry ∈ root.entries)
    (visited : visitOption tokens index i recurse obj value = some found) :
    Sound tokens index root found := by
  rw [visitOption] at visited
  obtain ⟨values, given, visited⟩ := Option.bind_eq_some_iff.mp visited
  obtain ⟨next, recursed, same⟩ := Option.bind_eq_some_iff.mp visited
  obtain rfl := Option.some.inj same
  refine Sound.append ?_ ((sound _ _ _ recursed).mono fewer)
  rw [optionValues] at given
  split at given
  next found _ => exact filteredValues_sound member found given
  next =>
    obtain rfl := Option.some.inj given
    exact fun _ among => absurd among List.not_mem_nil

omit sound in
/-- Without the other form no entry is added. -/
theorem entries_withoutOther (obj value : Completions) :
    ∀ entry ∈ (withoutOther obj value).entries, entry ∈ obj.entries := by
  intro entry among
  rw [withoutOther] at among
  split at among
  · exact among
  · exact among
  · rw [entries_withEntries] at among
    exact (List.mem_filter.mp among).1

/-- A turn keeps the candidates sound, and adds no entry to the object. -/
theorem visit_sound {candidates found : List CodeUnits} {after : Completions}
    (member : (key, value) ∈ root.entries)
    (fewer : ∀ entry ∈ obj.entries, entry ∈ root.entries)
    (before : Sound tokens index root candidates)
    (visited : visit tokens index i recurse (obj, candidates) (key, value) = some (after, found)) :
    (∀ entry ∈ after.entries, entry ∈ root.entries) ∧ Sound tokens index root found := by
  simp only [visit] at visited
  split at visited
  next number =>
    split at visited
    · cases visited
      exact ⟨fewer, before⟩
    · obtain ⟨more, argument, same⟩ := Option.bind_eq_some_iff.mp visited
      cases same
      exact ⟨fewer, before.append (visitArgument_sound sound member fewer argument)⟩
  next =>
    split at visited
    next begins =>
      have named : Sound tokens index root
          (if i = index ∧ some key ∉ tokens.take i then candidates ++ [key] else candidates) := by
        split
        next here =>
          refine before.append fun candidate among => ?_
          rw [List.mem_singleton.mp among, ← here.1]
          exact ⟨.key member, List.isPrefixOf_iff_prefix.mp begins⟩
        next => exact before
      split at visited
      next =>
        split at visited
        · obtain ⟨more, option, same⟩ := Option.bind_eq_some_iff.mp visited
          cases same
          have rest := fun entry among => fewer entry (entries_withoutOther obj value entry among)
          exact ⟨rest, named.append (visitOption_sound sound member rest option)⟩
        · obtain ⟨more, subcommand, same⟩ := Option.bind_eq_some_iff.mp visited
          cases same
          refine ⟨fewer, named.append fun candidate among => ?_⟩
          obtain ⟨offers, typed⟩ := sound _ _ _ subcommand candidate among
          exact ⟨.nested member offers, typed⟩
      next =>
        cases visited
        exact ⟨fewer, named⟩
    next =>
      cases visited
      exact ⟨fewer, before⟩

/-- The candidates of all entries are sound. -/
theorem foldlM_visit_sound {entries : List (CodeUnits × Completions)}
    {candidates found : List CodeUnits} {after : Completions}
    (members : ∀ entry ∈ entries, entry ∈ root.entries)
    (fewer : ∀ entry ∈ obj.entries, entry ∈ root.entries)
    (before : Sound tokens index root candidates)
    (visited : entries.foldlM (visit tokens index i recurse) (obj, candidates) =
      some (after, found)) : Sound tokens index root found := by
  induction entries generalizing obj candidates with
  | nil =>
      cases visited
      exact before
  | cons entry rest ih =>
      rw [List.foldlM_cons] at visited
      obtain ⟨⟨next, more⟩, turn, visited⟩ := Option.bind_eq_some_iff.mp visited
      obtain ⟨fewer, sound⟩ := visit_sound sound (members entry List.mem_cons_self) fewer before turn
      exact ih (fun other among => members other (List.mem_cons_of_mem _ among)) fewer sound visited

end Visit

/-- Whatever the depth of the stack, what is found is sound. -/
theorem recursivelyGetCandidates_sound {stack : Nat} {candidates : List CodeUnits}
    (found : recursivelyGetCandidates tokens index stack obj i = some candidates) :
    Sound tokens index obj candidates := by
  induction stack generalizing obj i candidates with
  | zero => cases found
  | succ stack ih =>
      rw [recursivelyGetCandidates] at found
      split at found
      · cases found
        exact fun _ among => absurd among List.not_mem_nil
      · obtain ⟨⟨after, all⟩, visited, same⟩ := Option.bind_eq_some_iff.mp found
        cases same
        refine foldlM_visit_sound (fun _ _ _ recursed => ih recursed) (fun _ among => among)
          (fun _ among => among) ?_ visited
        exact fun _ among => absurd among List.not_mem_nil

end Completions

/-! ## What the candidates begin with -/

/-- A matching entry has a word that continues the token. -/
theorem matchesEntry_token {tokens entryTokens : List (Option CodeUnits)} {index : Nat}
    (within : index < tokens.length) (matching : matchesEntry tokens index entryTokens = true)
    {word : CodeUnits} (found : entryTokens[index]?.join = some word) :
    tokenAt tokens index <+: word := by
  rw [tokenAt, List.getElem?_eq_getElem within, Option.join_some]
  cases here : tokens[index] with
  | none => exact List.nil_prefix
  | some token =>
      have among : (some token, index) ∈ tokens.zipIdx := by
        rw [List.mk_mem_zipIdx_iff_getElem?, List.getElem?_eq_getElem within, here]
      have matched := List.all_eq_true.mp matching _ among
      simp only [found] at matched
      rw [Option.getD_some]
      split at matched
      · exact List.isPrefixOf_iff_prefix.mp matched
      · obtain rfl : word = token := by simpa using matched
        exact List.prefix_rfl

/-- What is being typed: the last token, if there is more than white space. -/
def typed (input : CodeUnits) : CodeUnits :=
  if trim input = [] then [] else (parse input).getLast?.join.getD []

namespace PgAutocomplete

variable {engine : Engine} {handlers : List AutocompleteHandler} {candidate : CodeUnits}

/-- What is typed starts the token that is completed. -/
theorem typed_prefix_tokenAt (input : CodeUnits) :
    typed input <+: tokenAt (parse input) (completionIndex input) := by
  rw [typed, completionIndex]
  split
  · exact List.nil_prefix
  · rw [tokenAt, List.getLast?_eq_getElem?]

/-- The token that is completed is there. -/
theorem completionIndex_lt {input : CodeUnits} (some_ : parse input ≠ []) :
    completionIndex input < (parse input).length := by
  have positive := List.length_pos_iff.mpr some_
  rw [completionIndex]
  split <;> omega

/-- A handler offers what it defines, with the token at the index at the start. -/
theorem handlerCandidates_sound {tokens : List (Option CodeUnits)} {index : Nat}
    {handler : AutocompleteHandler} {found : List CodeUnits}
    (within : tokens ≠ [] → index < tokens.length)
    (given : handlerCandidates engine tokens index handler = some found)
    (among : candidate ∈ found) : handler.Offers candidate ∧ tokenAt tokens index <+: candidate := by
  cases handler with
  | entries entries =>
      obtain ⟨all, rfl, same⟩ := Option.map_eq_some_iff.mp given
      rw [← same, entryCandidates, List.mem_filterMap] at among
      obtain ⟨entryTokens, member, taken⟩ := among
      obtain ⟨entry, listed, rfl⟩ := List.mem_map.mp member
      rw [Option.ite_none_right_eq_some] at taken
      obtain ⟨matching, here⟩ := taken
      have token : some candidate ∈ parse entry :=
        List.mem_of_getElem? (Option.join_eq_some_iff.mp here)
      refine ⟨⟨all, rfl, entry, listed, token⟩, ?_⟩
      by_cases some_ : tokens = []
      · rw [some_]
        exact List.nil_prefix
      · exact matchesEntry_token (within some_) matching here
  | object completions => exact completions.recursivelyGetCandidates_sound given candidate among

/-- Every candidate is offered by a handler and begins with what is being typed. -/
theorem getCandidates_sound {input : CodeUnits}
    (among : candidate ∈ getCandidates engine handlers input) :
    (∃ handler ∈ handlers, handler.Offers candidate) ∧ typed input <+: candidate := by
  rw [getCandidates, List.mem_filter, (engine.perm _ _).mem_iff, List.mem_eraseDups,
    List.mem_flatMap] at among
  obtain ⟨⟨handler, member, offered⟩, -⟩ := among
  cases given : handlerCandidates engine (parse input) (completionIndex input) handler with
  | none =>
      rw [given] at offered
      exact absurd offered List.not_mem_nil
  | some found =>
      rw [given] at offered
      obtain ⟨offers, begins⟩ := handlerCandidates_sound completionIndex_lt given offered
      exact ⟨⟨handler, member, offers⟩, (typed_prefix_tokenAt input).trans begins⟩

end PgAutocomplete
end Solpg.Client.Utils.Terminal
