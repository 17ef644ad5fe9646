import Solpg.Client.Commands.Create

/-!
# Reading commands from left to right

What the handler of a command is called with, against a parser that goes through the tokens once,
from left to right. `collectArgsAndOptions` puts options and their values into one list, in which
`parseOptions` looks for each option again, by all that it takes for a form of it.
-/

namespace Solpg.Client.Utils

open Solpg.Std Commands

namespace PgCommandManager

variable {P R : Type}

/-! ## The parser -/

/-- The short form, if the option has one. -/
def shortForm (option : CommandOption P) : Option Text :=
  match option.short with
  | some [letter] => some ['-', letter]
  | _ => none

/-- The token is the long form of the option, or its short form. -/
def isForm (option : CommandOption P) (token : Text) : Bool :=
  "--".toList ++ option.name = token ∨ shortForm option = some token

/-- Whether the option at an index takes a value. -/
def takesValue (options : List (CommandOption P)) (index : Nat) : Bool :=
  options[index]?.any CommandOption.takeValue

/-- An option that is given: the token, the place of the option among the definitions, and the token
that is bound to it. -/
structure Given where
  token : Text
  index : Nat
  value : Option Text

/-- The tokens of an input by what they are for. -/
structure Reading where
  positionals : List Text
  given : List Given

namespace Reading

/-- One more positional token before the others. -/
def addPositional (token : Text) (reading : Reading) : Reading :=
  { reading with positionals := token :: reading.positionals }

/-- One more option before the others. -/
def addGiven (given : Given) (reading : Reading) : Reading :=
  { reading with given := given :: reading.given }

end Reading

/-- Reads tokens from left to right: a token that begins with a dash names an option, and the next
token is the value of one that takes values. There is no reading with an unknown option. -/
def readTokens (names : CommandOption P → Text → Bool) (options : List (CommandOption P)) :
    List Text → Option Reading
  | [] => some ⟨[], []⟩
  | token :: rest =>
      if token.startsWith ['-'] then
        match options.findIdx? (names · token) with
        | none => none
        | some index =>
            if takesValue options index then
              match rest with
              | [] => some ⟨[], [⟨token, index, none⟩]⟩
              | value :: rest =>
                  (readTokens names options rest).map (.addGiven ⟨token, index, some value⟩)
            else (readTokens names options rest).map (.addGiven ⟨token, index, none⟩)
      else (readTokens names options rest).map (.addPositional token)

/-- An argument with the token at its place, or with all from there on if it takes multiple. -/
def bindArgument (positionals tokens : List Text) (parsed : ParsedValues P) (argument : Arg P)
    (index : Nat) : Option (ParsedValues P) :=
  match if argument.multiple then positionals.drop index else positionals[index]?.toList with
  | [] => if argument.optional then some parsed else none
  | first :: rest => do
      let _ ← (checkArgument argument positionals[index]? (first :: rest) tokens).toOption
      let value ← (argumentValue argument first rest tokens).toOption
      return parsed.set argument.name value

/-- What is made of the value of an option. -/
def optionValue (option : CommandOption P) (value : Text) (tokens : List Text) :
    Except Text (ParsedValue P) := do
  match option.values with
  | none => pure ()
  | some accepted => do
      let values ← accepted
      if value ∉ values then
        .error (withPossible (inBackticks "Incorrect option value given".toList value) values)
  match option.parse with
  | some parse => .parsed <$> createParse "option".toList option.name parse value tokens
  | none => .ok (.token value)

/-- An option with the value that it is first given. -/
def bindOption (given : List Given) (tokens : List Text) (parsed : ParsedValues P)
    (option : CommandOption P) (index : Nat) : Option (ParsedValues P) :=
  match given.find? fun one => one.index = index with
  | none => some parsed
  | some one =>
      match one.value with
      | none => some (parsed.set option.name .flag)
      | some value => do
          let value ← (optionValue option value tokens).toOption
          return parsed.set option.name value

/-- The first token names the help option, which is the last one. -/
def namesHelp (options : List (CommandOption P)) (rest : List Text) : Bool :=
  rest.head?.any fun token => options.findIdx? (isForm · token) = some (options.length - 1)

/-- Whether there are more positional tokens than arguments. -/
def isSurplus (args : List (Arg P)) (positionals : List Text) : Bool :=
  args.length < positionals.length && !args.getLast?.any Arg.multiple

/-- The arguments and options of a handler, as the tokens are read once, from left to right. There
is nothing when the help is printed. -/
def readInOrder (cmd : Command P R) (tokens rest : List Text) : Option (Option (ParsedInput P)) :=
  let args := cmd.args.getD []
  let options := cmd.options.getD []
  if namesHelp options rest then some none
  else do
    let reading ← readTokens isForm options rest
    guard (reading.given.all fun one => takesValue options one.index → one.value.isSome)
    guard (!isSurplus args reading.positionals)
    let args ← args.zipIdx.foldlM (fun parsed (argument, index) =>
      bindArgument reading.positionals tokens parsed argument index) .empty
    let options ← options.zipIdx.foldlM (fun parsed (option, index) =>
      bindOption reading.given tokens parsed option index) .empty
    return some ⟨List.intercalate [' '] tokens, args, options⟩

/-- The option that is named at each place of the collected options: none at that of a value. -/
def roles (given : List Given) : List (Option Nat) :=
  given.flatMap fun one => some one.index :: (one.value.map fun _ => none).toList

/-- The handler is called with what is read in order, and no option is taken from a token that is
the value of another option or names another one. -/
structure ReadsInOrder (cmd : Command P R) (tokens rest : List Text) : Prop where
  agrees : (readInput cmd tokens rest).toOption = readInOrder cmd tokens rest
  own : ¬ (hasArgsOrOptions cmd && asksHelp rest) → ∀ {args opts reading},
    collect cmd rest = .ok (args, opts) →
      readTokens isOption (cmd.options.getD []) rest = some reading →
        ∀ {index option place}, (cmd.options.getD [])[index]? = some option →
          opts.findIdx? (isOption option) = some place →
            (roles reading.given)[place]? = some (some index)

/-! ## Where they agree -/

/-- The list in which options are looked for. -/
def collectedOptions (given : List Given) : List Text :=
  given.flatMap fun one => one.token :: one.value.toList

/-- Up to the first token of the option, nothing that is collected looks like it. -/
def FirstIsOwn (option : CommandOption P) (index : Nat) : List Given → Prop
  | [] => True
  | one :: rest => one.index = index ∨ (isOption option one.token = false ∧
      (∀ value ∈ one.value, isOption option value = false) ∧ FirstIsOwn option index rest)

/-- An option is first given without a value, or with an empty one. -/
def LacksValue (options : List (CommandOption P)) (given : List Given) : Prop :=
  ∃ index one, given.find? (fun one => one.index = index) = some one ∧
    takesValue options index = true ∧ one.value.getD [] = []

/-- A token is no form of an option, an option has no value, or there is a token for an argument of
a command without arguments. -/
def Rejected (cmd : Command P R) (reading : Reading) : Prop :=
  (∃ one ∈ reading.given, (cmd.options.getD []).findIdx? (isForm · one.token) = none) ∨
    (∃ one ∈ reading.given,
      takesValue (cmd.options.getD []) one.index = true ∧ one.value = none) ∨
    (cmd.args = none ∧ reading.positionals ≠ [])

/-- A token without characters is at the place of an argument that takes one token. -/
def EmptyArgument (cmd : Command P R) (positionals : List Text) : Prop :=
  ∃ (index : Nat) (argument : Arg P), (cmd.args.getD [])[index]? = some argument ∧
    argument.multiple = false ∧ positionals[index]? = some []

/-- Nothing that is collected is taken for what it is not. -/
structure Plain (cmd : Command P R) (reading : Reading) : Prop where
  own : ∀ {index option}, (cmd.options.getD [])[index]? = some option →
    FirstIsOwn option index reading.given
  rejected : LacksValue (cmd.options.getD []) reading.given ↔ Rejected cmd reading
  nonempty : LacksValue (cmd.options.getD []) reading.given ∨
    ¬ EmptyArgument cmd reading.positionals

/-- There is no token behind the command; or it has arguments or options, the first token is not
empty, and what can be collected is plain or too much. Help is asked for by no other option. -/
def Orderly (cmd : Command P R) : List Text → Prop
  | [] => True
  | first :: rest => hasArgsOrOptions cmd = true ∧ first ≠ [] ∧
      if asksHelp (first :: rest) then
        ∀ option ∈ (cmd.options.getD []).dropLast, isForm option first = false
      else ∀ reading, readTokens isOption (cmd.options.getD []) (first :: rest) = some reading →
        (cmd.args.isSome = true ∧ isSurplus (cmd.args.getD []) reading.positionals = true) ∨
          Plain cmd reading

variable {cmd : Command P R} {options : List (CommandOption P)} {option : CommandOption P}
  {tokens rest : List Text} {token : Text} {given : List Given} {reading : Reading} {index : Nat}

/-! ## Collecting -/

/-- An option that is found takes a value as it says. -/
theorem takesValue_of_getElem? (found : options[index]? = some option) :
    takesValue options index = option.takeValue := by
  rw [takesValue, found]
  rfl

/-- An option is found by its index. -/
theorem find?_of_findIdx? {names : CommandOption P → Text → Bool}
    (found : options.findIdx? (names · token) = some index) :
    ∃ option, options[index]? = some option ∧ names option token = true ∧
      options.find? (names · token) = some option := by
  obtain ⟨bound, named, -⟩ := List.findIdx?_eq_some_iff_getElem.mp found
  have at_ := List.getElem?_eq_getElem bound
  refine ⟨options[index], at_, named, ?_⟩
  rw [List.find?_eq_bind_findIdx?_getElem?, found]
  exact at_

/-- A token without a hyphen is an argument. -/
theorem collectToken_positional (has : cmd.options = some options) {collected : Collected}
    (ready : collected.takeOptionValue = false) (dash : ¬ token.startsWith ['-'] = true) :
    collectToken cmd collected token =
      .ok { collected with args := collected.args ++ if cmd.args.isSome then [token] else [] } := by
  obtain ⟨waits, args, opts⟩ := collected
  obtain rfl : waits = false := ready
  rw [Bool.not_eq_true] at dash
  simp only [collectToken, has, dash]
  cases cmd.args with
  | none => simp
  | some definitions => simp

/-- A token that names an option is one. -/
theorem collectToken_option (has : cmd.options = some options) {collected : Collected}
    (ready : collected.takeOptionValue = false) (dash : token.startsWith ['-'] = true)
    (found : options.findIdx? (isOption · token) = some index) :
    collectToken cmd collected token =
      .ok { collected with
        takeOptionValue := takesValue options index
        options := collected.options ++ [token] } := by
  obtain ⟨option, at_, -, first⟩ := find?_of_findIdx? found
  simp only [collectToken, ready, has, dash, first, takesValue_of_getElem? at_]
  rfl

/-- A token with a hyphen that names no option is refused. -/
theorem collectToken_unknown (has : cmd.options = some options) {collected : Collected}
    (ready : collected.takeOptionValue = false) (dash : token.startsWith ['-'] = true)
    (unknown : options.findIdx? (isOption · token) = none) :
    collectToken cmd collected token = .error (inBackticks "Unexpected option".toList token) := by
  have none_ : options.find? (isOption · token) = none := by
    rw [List.find?_eq_bind_findIdx?_getElem?, unknown]
    rfl
  simp only [collectToken, ready, has, dash, none_]
  rfl

/-- The token behind an option with a value is its value. -/
theorem collectToken_value {collected : Collected} (waits : collected.takeOptionValue = true) :
    collectToken cmd collected token =
      .ok { collected with takeOptionValue := false, options := collected.options ++ [token] } := by
  simp only [collectToken, waits]
  rfl

/-- Tokens are collected as they are read by all that is taken for an option. -/
theorem foldlM_collectToken (has : cmd.options = some options) (args opts : List Text) :
    (rest.foldlM (collectToken cmd) ⟨false, args, opts⟩).toOption.map
        (fun collected => (collected.args, collected.options)) =
      (readTokens isOption options rest).map fun reading =>
        (args ++ (if cmd.args.isSome then reading.positionals else []),
          opts ++ collectedOptions reading.given) := by
  induction rest using readTokens.induct isOption options generalizing args opts with
  | case1 => simp [readTokens, collectedOptions, pure, Except.pure, Except.toOption]
  | case2 token rest dash unknown =>
      rw [List.foldlM_cons, collectToken_unknown has rfl dash unknown, readTokens, if_pos dash, unknown]
      rfl
  | case3 token dash index found takes =>
      rw [List.foldlM_cons, collectToken_option has rfl dash found, readTokens, if_pos dash, found]
      simp [takes, collectedOptions, bind, Except.bind, pure, Except.pure, Except.toOption]
  | case4 token dash index found takes value rest ih =>
      rw [List.foldlM_cons, collectToken_option has rfl dash found, takes]
      simp only [bind, Except.bind]
      rw [List.foldlM_cons, collectToken_value rfl]
      simp only [bind, Except.bind]
      rw [ih, readTokens, if_pos dash, found]
      simp only [takes, if_true]
      cases readTokens isOption options rest with
      | none => rfl
      | some reading => simp [Reading.addGiven, collectedOptions]
  | case5 token rest dash index found takes ih =>
      rw [Bool.not_eq_true] at takes
      rw [List.foldlM_cons, collectToken_option has rfl dash found, takes]
      simp only [bind, Except.bind]
      rw [ih, readTokens, if_pos dash, found]
      simp only [takes, Bool.false_eq_true, if_false]
      cases readTokens isOption options rest with
      | none => rfl
      | some reading => simp [Reading.addGiven, collectedOptions]
  | case6 token rest dash ih =>
      rw [List.foldlM_cons, collectToken_positional has rfl dash]
      simp only [bind, Except.bind]
      rw [ih, readTokens, if_neg dash]
      cases readTokens isOption options rest with
      | none => rfl
      | some reading => cases cmd.args <;> simp [Reading.addPositional]

/-- What is collected, where the tokens behind the command are. -/
theorem collect_toOption (has : cmd.options = some options) (none_ : cmd.subcommands = none)
    (more : hasArgsOrOptions cmd = true) (nonempty : token ≠ []) :
    (collect cmd (token :: rest)).toOption =
      (readTokens isOption options (token :: rest)).bind fun reading =>
        if cmd.args.isSome && isSurplus (cmd.args.getD []) reading.positionals then none
        else some (if cmd.args.isSome then reading.positionals else [],
          collectedOptions reading.given) := by
  have collected : ((token :: rest).foldlM (collectToken cmd) ⟨false, [], []⟩).toOption.map
        (fun collected => (collected.args, collected.options)) =
      (readTokens isOption options (token :: rest)).map fun reading =>
        ([] ++ (if cmd.args.isSome then reading.positionals else []),
          [] ++ collectedOptions reading.given) := foldlM_collectToken has [] []
  have collects : collect cmd (token :: rest) = collectArgsAndOptions cmd token rest := by
    simp [collect, more, nonempty]
  rw [collects, collectArgsAndOptions, none_]
  cases folded : (token :: rest).foldlM (collectToken cmd) ⟨false, [], []⟩ with
  | error message =>
      rw [folded] at collected
      cases read : readTokens isOption options (token :: rest) with
      | none => rfl
      | some reading =>
          rw [read] at collected
          cases collected
  | ok final =>
      obtain ⟨waits, args, opts⟩ := final
      rw [folded] at collected
      cases read : readTokens isOption options (token :: rest) with
      | none =>
          rw [read] at collected
          cases collected
      | some reading =>
          rw [read] at collected
          simp only [Except.toOption, Option.map_some, List.nil_append, Option.some.injEq,
            Prod.mk.injEq] at collected
          obtain ⟨rfl, rfl⟩ := collected
          simp only [bind, Except.bind, Option.bind]
          cases cmd.args with
          | none => simp [Except.toOption]
          | some definitions =>
              simp only [Option.getD_some, Option.isSome_some, if_true, Bool.true_and, isSurplus]
              by_cases surplus : definitions.length < reading.positionals.length ∧
                  ¬ definitions.getLast?.any Arg.multiple = true
              · rw [if_pos surplus, if_pos (by simpa using surplus)]
                rfl
              · rw [if_neg surplus, if_neg (by simpa using surplus)]
                rfl

/-! ## Forms of options -/

/-- The option has no short form. -/
def NoShort (option : CommandOption P) : Prop :=
  option.short = none ∨ option.short = some "false".toList ∨ option.short = some []

/-- An option has one letter for short, or none. -/
def ProperShort (option : CommandOption P) : Prop :=
  (∃ letter, option.short = some [letter]) ∨ NoShort option

/-- The options of a created command have one letter for short, or none. -/
theorem properShort_of_created (created : Created cmd) :
    ∀ option ∈ cmd.options.getD [], ProperShort option := by
  cases created with | @of declared _ created => ?_
  intro option among
  obtain ⟨opt, declaredOpt, rfl⟩ := List.mem_map.mp among
  have normalized : Normalized opt := by
    rcases List.mem_append.mp declaredOpt with among | among
    · cases opts : declared.options with
      | none =>
          rw [opts] at among
          cases among
      | some options =>
          obtain ⟨_, created⟩ := created options opts
          rw [opts] at among
          exact createOptions_normalized created opt among
    · obtain rfl := List.mem_singleton.mp among
      exact fun _ => ⟨'h', rfl⟩
  have shown : (OptionParam.option opt).short = opt.short.shown := rfl
  cases short : opt.short with
  | undefined => exact .inr (.inl (by rw [shown, short]; rfl))
  | bool value =>
      cases value with
      | false => exact .inr (.inr (.inl (by rw [shown, short]; rfl)))
      | true =>
          obtain ⟨letter, same⟩ := normalized (by rw [short]; rfl)
          rw [short] at same
          cases same
  | text text =>
      cases text with
      | nil => exact .inr (.inr (.inr (by rw [shown, short]; rfl)))
      | cons first rest =>
          obtain ⟨letter, same⟩ := normalized (by rw [short]; rfl)
          exact .inl ⟨letter, by rw [shown, same]; rfl⟩

/-- A token has the long or the short form of an option. -/
theorem isForm_iff : isForm option token = true ↔
    "--".toList ++ option.name = token ∨ shortForm option = some token := decide_eq_true_iff

/-- What the code compares a token with. -/
theorem isOption_iff : isOption option token = true ↔ "--".toList ++ option.name = token ∨
    '-' :: option.short.getD "undefined".toList = token := decide_eq_true_iff

/-- The short form is a hyphen and a letter. -/
theorem shortForm_eq_some : shortForm option = some token ↔
    ∃ letter, option.short = some [letter] ∧ token = ['-', letter] := by
  rw [shortForm]
  split
  · next letter short => simp [short, eq_comm]
  · next other => simpa using fun letter short => absurd short (other letter)

/-- The code knows the forms of an option. -/
theorem isOption_of_isForm (named : isForm option token = true) : isOption option token = true := by
  rw [isOption_iff]
  refine (isForm_iff.mp named).imp id fun short => ?_
  obtain ⟨letter, same, rfl⟩ := shortForm_eq_some.mp short
  rw [same]
  rfl

/-- What is taken for a short form that there is not is the form of no other option. -/
theorem isForm_eq_false_of_odd (proper : ProperShort option) (named : isOption option token = true)
    (odd : isForm option token = false) (other : CommandOption P) : isForm other token = false := by
  have notForm := mt isForm_iff.mpr (Bool.eq_false_iff.mp odd)
  have short := (isOption_iff.mp named).resolve_left fun long => notForm (.inl long)
  rw [Bool.eq_false_iff]
  intro form
  rcases proper with ⟨letter, same⟩ | none_
  · rw [same] at short
    exact notForm (.inr (shortForm_eq_some.mpr ⟨letter, same, short.symm⟩))
  · rcases isForm_iff.mp form with long | second
    · rw [← long] at short
      rcases none_ with same | same | same <;> simp [same] at short
    · obtain ⟨letter, -, rfl⟩ := shortForm_eq_some.mp second
      rcases none_ with same | same | same <;> simp [same] at short

/-- The code finds the option that a form belongs to. -/
theorem findIdx?_isOption_of_isForm (proper : ∀ option ∈ options, ProperShort option)
    (found : options.findIdx? (isForm · token) = some index) :
    options.findIdx? (isOption · token) = some index := by
  obtain ⟨bound, named, first⟩ := List.findIdx?_eq_some_iff_getElem.mp found
  refine List.findIdx?_eq_some_iff_getElem.mpr ⟨bound, isOption_of_isForm named, ?_⟩
  intro earlier before
  have notForm := first earlier before
  rw [Bool.not_eq_true] at notForm ⊢
  rw [Bool.eq_false_iff]
  intro taken
  have other := isForm_eq_false_of_odd (proper _ (List.getElem_mem _)) taken notForm options[index]
  rw [named] at other
  cases other

/-- What the code finds has one of the forms, or none has it. -/
theorem findIdx?_isForm_cases (proper : ∀ option ∈ options, ProperShort option)
    (found : options.findIdx? (isOption · token) = some index) :
    options.findIdx? (isForm · token) = some index ∨ options.findIdx? (isForm · token) = none := by
  cases form : options.findIdx? (isForm · token) with
  | none => exact .inr rfl
  | some other =>
      have same := findIdx?_isOption_of_isForm proper form
      rw [found] at same
      exact .inl same.symm

/-- What the code does not find is no form. -/
theorem findIdx?_isForm_eq_none (unknown : options.findIdx? (isOption · token) = none) :
    options.findIdx? (isForm · token) = none := by
  rw [List.findIdx?_eq_none_iff] at unknown ⊢
  intro option among
  have notOption := unknown option among
  rw [Bool.eq_false_iff] at notOption ⊢
  exact mt isOption_of_isForm notOption

/-- Tokens are read by the forms of options exactly when they are read by all that is taken for one,
and each token that names an option is a form of one. -/
theorem readTokens_isForm_iff (proper : ∀ option ∈ options, ProperShort option) :
    readTokens isForm options rest = some reading ↔ readTokens isOption options rest = some reading ∧
      ∀ one ∈ reading.given, options.findIdx? (isForm · one.token) ≠ none := by
  induction rest using readTokens.induct isOption options generalizing reading with
  | case1 =>
      simp only [readTokens, Option.some.injEq]
      refine (and_iff_left_of_imp ?_).symm
      rintro rfl one ⟨⟩
  | case2 token rest dash unknown =>
      simp only [readTokens, if_pos dash, unknown, findIdx?_isForm_eq_none unknown]
      simp
  | case3 token dash index found takes =>
      simp only [readTokens, if_pos dash, found, takes, if_true]
      rcases findIdx?_isForm_cases proper found with form | form
      · simp only [form, takes, if_true, Option.some.injEq]
        refine (and_iff_left_of_imp ?_).symm
        rintro rfl one among
        obtain rfl := List.mem_singleton.mp among
        simp [form]
      · simp only [form, Option.some.injEq]
        refine iff_of_false (by simp) ?_
        rintro ⟨rfl, forms⟩
        exact forms _ (List.mem_singleton_self _) form
  | case4 token dash index found takes value rest ih =>
      simp only [readTokens, if_pos dash, found, takes, if_true]
      rcases findIdx?_isForm_cases proper found with form | form
      · simp only [form, takes, if_true, Option.map_eq_some_iff, ih]
        constructor
        · rintro ⟨inner, ⟨read, forms⟩, rfl⟩
          refine ⟨⟨inner, read, rfl⟩, ?_⟩
          rw [Reading.addGiven, List.forall_mem_cons]
          exact ⟨by simp [form], forms⟩
        · rintro ⟨⟨inner, read, rfl⟩, forms⟩
          exact ⟨inner, ⟨read, (List.forall_mem_cons.mp forms).2⟩, rfl⟩
      · simp only [form, Option.map_eq_some_iff]
        refine iff_of_false (by simp) ?_
        rintro ⟨⟨inner, -, rfl⟩, forms⟩
        exact (List.forall_mem_cons.mp forms).1 form
  | case5 token rest dash index found takes ih =>
      simp only [readTokens, if_pos dash, found, takes, Bool.false_eq_true, if_false]
      rcases findIdx?_isForm_cases proper found with form | form
      · simp only [form, takes, Bool.false_eq_true, if_false, Option.map_eq_some_iff, ih]
        constructor
        · rintro ⟨inner, ⟨read, forms⟩, rfl⟩
          refine ⟨⟨inner, read, rfl⟩, ?_⟩
          rw [Reading.addGiven, List.forall_mem_cons]
          exact ⟨by simp [form], forms⟩
        · rintro ⟨⟨inner, read, rfl⟩, forms⟩
          exact ⟨inner, ⟨read, (List.forall_mem_cons.mp forms).2⟩, rfl⟩
      · simp only [form, Option.map_eq_some_iff]
        refine iff_of_false (by simp) ?_
        rintro ⟨⟨inner, -, rfl⟩, forms⟩
        exact (List.forall_mem_cons.mp forms).1 form
  | case6 token rest dash ih =>
      simp only [readTokens, if_neg dash, Option.map_eq_some_iff, ih]
      constructor
      · rintro ⟨inner, ⟨read, forms⟩, rfl⟩
        exact ⟨⟨inner, read, rfl⟩, forms⟩
      · rintro ⟨⟨inner, read, rfl⟩, forms⟩
        exact ⟨inner, ⟨read, forms⟩, rfl⟩

end PgCommandManager
end Solpg.Client.Utils
