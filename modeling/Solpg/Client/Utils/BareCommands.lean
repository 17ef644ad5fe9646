import Solpg.Client.Utils.CommandBinding

/-!
# Commands that take any value

The condition for reading in order is exact for commands that may leave out all arguments, accept
any value and parse none: nothing but what the tokens are bound to decides what they are called
with.
-/

namespace Solpg.Client.Utils

open Solpg.Std Commands

namespace PgCommandManager

variable {P R : Type} {cmd : Command P R} {options : List (CommandOption P)}
  {option : CommandOption P} {argument : Arg P} {tokens rest positionals : List Text} {first : Text}
  {given : List Given} {reading : Reading} {index : Nat} {parsed next : ParsedValues P} {name : Text}

/-- Each argument is optional and has its own name, and arguments and options take any value. -/
structure Bare (cmd : Command P R) : Prop where
  args : ∀ arg ∈ cmd.args.getD [], arg.optional = true ∧ arg.values = none ∧ arg.parse = none
  names : ((cmd.args.getD []).map Arg.name).Nodup
  options : ∀ option ∈ cmd.options.getD [], option.values = none ∧ option.parse = none

/-! ## Bound values -/

/-- An argument that is bound has a value, and those before keep theirs. -/
theorem get_bindArgument (bound : bindArgument positionals tokens parsed argument index = some next) :
    (∀ name, (parsed.get name).isSome = true → (next.get name).isSome = true) ∧
      (index < positionals.length → (next.get argument.name).isSome = true) := by
  rw [bindArgument] at bound
  split at bound
  · next empty =>
      have short : ¬ index < positionals.length := by
        intro within
        split at empty
        · rw [List.drop_eq_nil_iff] at empty
          omega
        · rw [List.getElem?_eq_getElem within] at empty
          cases empty
      split at bound
      · cases bound
        exact ⟨fun _ => id, fun within => absurd within short⟩
      · cases bound
  · simp only [Option.bind_eq_bind, Option.bind_eq_some_iff] at bound
    obtain ⟨-, -, value, -, set⟩ := bound
    cases set
    refine ⟨fun name before => ?_, fun _ => by simp⟩
    rw [OrderedMap.get_set]
    split
    · rfl
    · exact before

/-- An option that is bound is in the values. -/
theorem get_bindOption (bound : bindOption given tokens parsed option index = some next) :
    (∀ name, (parsed.get name).isSome = true → (next.get name).isSome = true) ∧
      ((given.find? fun one => one.index = index).isSome = true →
        (next.get option.name).isSome = true) := by
  have sets : ∀ value, (∀ name, (parsed.get name).isSome = true →
      ((parsed.set option.name value).get name).isSome = true) ∧
        ((parsed.set option.name value).get option.name).isSome = true := by
    intro value
    refine ⟨fun name before => ?_, by simp⟩
    rw [OrderedMap.get_set]
    split
    · rfl
    · exact before
  rw [bindOption] at bound
  split at bound
  · next none_ =>
      cases bound
      rw [none_]
      exact ⟨fun _ => id, fun given => by cases given⟩
  · split at bound
    · cases bound
      exact ⟨(sets _).1, fun _ => (sets _).2⟩
    · simp only [Option.bind_eq_bind, Option.bind_eq_some_iff] at bound
      obtain ⟨value, -, set⟩ := bound
      cases set
      exact ⟨(sets _).1, fun _ => (sets _).2⟩

/-- A name that one step gives a value has one at the end. -/
theorem get_foldlM {α : Type} {step : ParsedValues P → α → Option (ParsedValues P)} {items : List α}
    (keeps : ∀ {item parsed next}, step parsed item = some next →
      (parsed.get name).isSome = true → (next.get name).isSome = true)
    (folded : items.foldlM step parsed = some next) :
    ((parsed.get name).isSome = true → (next.get name).isSome = true) ∧
      ∀ item ∈ items, (∀ parsed next, step parsed item = some next →
        (next.get name).isSome = true) → (next.get name).isSome = true := by
  induction items generalizing parsed with
  | nil =>
      cases folded
      exact ⟨id, nofun⟩
  | cons first rest ih =>
      rw [List.foldlM_cons, Option.bind_eq_bind, Option.bind_eq_some_iff] at folded
      obtain ⟨middle, here, later⟩ := folded
      refine ⟨fun before => (ih later).1 (keeps here before), ?_⟩
      rw [List.forall_mem_cons]
      exact ⟨fun sets => (ih later).1 (sets _ _ here), (ih later).2⟩

/-- What is bound from a reading. -/
theorem get_of_bindReading {input : ParsedInput P} (bound : bindReading cmd tokens reading = some (some input)) :
    (∀ {index argument}, (cmd.args.getD [])[index]? = some argument →
      index < reading.positionals.length → (input.args.get argument.name).isSome = true) ∧
    (∀ {index option}, (cmd.options.getD [])[index]? = some option →
      (reading.given.find? fun one => one.index = index).isSome = true →
        (input.options.get option.name).isSome = true) := by
  simp only [bindReading, Option.bind_eq_bind, Option.bind_eq_some_iff] at bound
  obtain ⟨args, argsBound, opts, optionsBound, same⟩ := bound
  cases same
  constructor
  · intro index argument at_ within
    refine (get_foldlM (fun bound => (get_bindArgument bound).1 _) argsBound).2 (argument, index)
      (List.mem_zipIdx_iff_getElem?.mpr at_) fun _ _ bound => (get_bindArgument bound).2 within
  · intro index option at_ found
    refine (get_foldlM (fun bound => (get_bindOption bound).1 _) optionsBound).2 (option, index)
      (List.mem_zipIdx_iff_getElem?.mpr at_) fun _ _ bound => (get_bindOption bound).2 found

/-- Tokens are read as something. -/
theorem readTokens_ne_nil {names : CommandOption P → Text → Bool}
    (read : readTokens names options (first :: rest) = some reading) :
    reading.positionals ≠ [] ∨ reading.given ≠ [] := by
  rw [readTokens.eq_def] at read
  simp only at read
  split at read
  · split at read
    · cases read
    · split at read
      · split at read
        · cases read
          exact .inr (List.cons_ne_nil _ _)
        · obtain ⟨inner, -, rfl⟩ := Option.map_eq_some_iff.mp read
          exact .inr (List.cons_ne_nil _ _)
      · obtain ⟨inner, -, rfl⟩ := Option.map_eq_some_iff.mp read
        exact .inr (List.cons_ne_nil _ _)
  · obtain ⟨inner, -, rfl⟩ := Option.map_eq_some_iff.mp read
    exact .inl (List.cons_ne_nil _ _)

/-- Unless it asks for help, a command is rejected or called with what is bound. -/
theorem readInOrder_cases (created : Created cmd)
    (named : namesHelp (cmd.options.getD []) rest = false) :
    readInOrder cmd tokens rest = none ∨ ∃ reading,
      readTokens isOption (cmd.options.getD []) rest = some reading ∧
        isSurplus (cmd.args.getD []) reading.positionals = false ∧
          readInOrder cmd tokens rest = bindReading cmd tokens reading := by
  have proper := properShort_of_created created
  cases read : readTokens isOption (cmd.options.getD []) rest with
  | none => exact .inl (readInOrder_of_none proper named read)
  | some reading =>
      by_cases rejected : Rejected cmd reading ∨
          isSurplus (cmd.args.getD []) reading.positionals = true
      · exact .inl (readInOrder_of_rejected proper named read rejected)
      · obtain ⟨accepted, fits⟩ := not_or.mp rejected
        rw [Bool.not_eq_true] at fits
        exact .inr ⟨reading, rfl, fits, readInOrder_of_accepted proper named read accepted fits⟩

/-- Where there are tokens behind a command, its handler is not called with nothing. -/
theorem readInOrder_ne_empty {raw : Text} (created : Created cmd) :
    readInOrder cmd tokens (first :: rest) ≠ some (some ⟨raw, .empty, .empty⟩) := by
  intro same
  cases named : namesHelp (cmd.options.getD []) (first :: rest) with
  | true =>
      rw [readInOrder] at same
      simp [named] at same
  | false =>
      rcases readInOrder_cases created named with none_ | ⟨reading, read, fits, bound⟩
      · rw [none_] at same
        cases same
      · rw [bound] at same
        obtain ⟨argsGet, optionsGet⟩ := get_of_bindReading same
        rcases readTokens_ne_nil read with some_ | some_
        · have within : 0 < reading.positionals.length := List.length_pos_iff.mpr some_
          cases args : cmd.args.getD [] with
          | nil =>
              rw [args] at fits
              simp [isSurplus, within] at fits
          | cons argument others =>
              have value := argsGet (by rw [args]; rfl) within
              cases value
        · obtain ⟨one, others, given⟩ := List.exists_cons_of_ne_nil some_
          have bound : Bound (cmd.options.getD []) reading.given := bound_of_readTokens read
          rw [given] at bound optionsGet
          obtain ⟨⟨option, at_, -⟩, -⟩ := bound
          have value := optionsGet at_ (by simp)
          cases value

/-- Help is printed only where it is named. -/
theorem namesHelp_of_readInOrder (created : Created cmd)
    (help : readInOrder cmd tokens rest = some none) :
    namesHelp (cmd.options.getD []) rest = true := by
  cases named : namesHelp (cmd.options.getD []) rest with
  | true => rfl
  | false =>
      rcases readInOrder_cases created named with none_ | ⟨reading, -, -, bound⟩
      · rw [none_] at help
        cases help
      · rw [bound, bindReading] at help
        simp only [Option.bind_eq_bind, Option.bind_eq_some_iff] at help
        obtain ⟨args, -, opts, -, same⟩ := help
        cases same

/-! ## Acceptance -/

/-- A bare argument is bound. -/
theorem bindArgument_isSome (bare : argument.optional = true ∧ argument.values = none ∧
    argument.parse = none) : (bindArgument positionals tokens parsed argument index).isSome = true := by
  obtain ⟨optional, values, parse⟩ := bare
  rw [bindArgument]
  split
  · rw [optional]
    rfl
  · simp only [checkArgument, values, argumentValue, parse]
    rfl

/-- A bare option is bound. -/
theorem bindOption_isSome (bare : option.values = none ∧ option.parse = none) :
    (bindOption given tokens parsed option index).isSome = true := by
  obtain ⟨values, parse⟩ := bare
  rw [bindOption]
  split
  · rfl
  · split
    · rfl
    · simp only [optionValue, values, parse]
      rfl

/-- Bare arguments are bound. -/
theorem bindArguments_isSome (bare : Bare cmd) (positionals tokens : List Text) :
    ((cmd.args.getD []).zipIdx.foldlM (fun (parsed : ParsedValues P) (one : Arg P × Nat) =>
      bindArgument positionals tokens parsed one.1 one.2) .empty).isSome = true := by
  refine Outcome.foldlM_isSome (fun one among parsed => ?_) _
  have at_ := List.mem_zipIdx_iff_getElem?.mp among
  exact bindArgument_isSome (bare.args one.1 (List.mem_of_getElem? at_))

/-- Bare options are bound. -/
theorem bindOptions_isSome (bare : Bare cmd) (given : List Given) (tokens : List Text) :
    ((cmd.options.getD []).zipIdx.foldlM (fun (parsed : ParsedValues P)
      (one : CommandOption P × Nat) => bindOption given tokens parsed one.1 one.2) .empty).isSome =
        true := by
  refine Outcome.foldlM_isSome (fun one among parsed => ?_) _
  have at_ := List.mem_zipIdx_iff_getElem?.mp among
  exact bindOption_isSome (bare.options one.1 (List.mem_of_getElem? at_))

/-- The reading of a bare command is bound. -/
theorem bindReading_isSome (bare : Bare cmd) (reading : Reading) (tokens : List Text) :
    (bindReading cmd tokens reading).isSome = true := by
  obtain ⟨args, argsBound⟩ :=
    Option.isSome_iff_exists.mp (bindArguments_isSome bare reading.positionals tokens)
  obtain ⟨opts, optionsBound⟩ :=
    Option.isSome_iff_exists.mp (bindOptions_isSome bare reading.given tokens)
  rw [bindReading, argsBound, Option.bind_eq_bind, Option.bind_some, optionsBound]
  rfl

/-- A bare argument is parsed. -/
theorem parseArgument_isSome (bare : argument.optional = true ∧ argument.values = none ∧
    argument.parse = none) :
    (parseArgument positionals tokens parsed argument index).toOption.isSome = true := by
  obtain ⟨optional, values, parse⟩ := bare
  rw [parseArgument]
  split
  · rw [optional]
    rfl
  · simp only [checkArgument, values, argumentValue, parse]
    rfl

/-- The arguments, one after the other. -/
theorem parseArguments_steps (positionals : List Text) :
    (parseArguments cmd.args positionals tokens).toOption =
      (cmd.args.getD []).zipIdx.foldlM (fun parsed one =>
        (parseArgument positionals tokens parsed one.1 one.2).toOption) .empty :=
  Outcome.toOption_foldlM (fun _ _ _ => rfl) _

/-- Bare arguments are parsed. -/
theorem parseArguments_isSome (bare : Bare cmd) (positionals tokens : List Text) :
    (parseArguments cmd.args positionals tokens).toOption.isSome = true := by
  rw [parseArguments_steps]
  refine Outcome.foldlM_isSome (fun one among parsed => ?_) _
  have at_ := List.mem_zipIdx_iff_getElem?.mp among
  exact parseArgument_isSome (bare.args one.1 (List.mem_of_getElem? at_))

/-! ## Empty tokens -/

/-- An argument is parsed into its own value. -/
theorem get_parseArgument (stepped : (parseArgument positionals tokens parsed argument index).toOption =
    some next) (other : name ≠ argument.name) : next.get name = parsed.get name := by
  rw [parseArgument] at stepped
  split at stepped
  · split at stepped
    · cases stepped
      rfl
    · cases stepped
  · simp only [Outcome.toOption_bind, Option.bind_eq_some_iff] at stepped
    obtain ⟨-, -, value, -, set⟩ := stepped
    cases set
    exact OrderedMap.get_set_of_ne other

/-- An argument with an empty token is left out. -/
theorem parseArgument_empty (optional : argument.optional = true) (single : argument.multiple = false)
    (empty : positionals[index]? = some []) :
    parseArgument positionals tokens parsed argument index = .ok parsed := by
  rw [parseArgument, single, empty, optional]
  rfl

/-- An empty token is no value. -/
theorem get_parseArguments (bare : Bare cmd) (at_ : (cmd.args.getD [])[index]? = some argument)
    (single : argument.multiple = false) (empty : positionals[index]? = some [])
    (stepped : (parseArguments cmd.args positionals tokens).toOption = some next) :
    next.get argument.name = none := by
  rw [parseArguments_steps] at stepped
  have misses : ∀ items : List (Arg P × Nat), (∀ one ∈ items, (cmd.args.getD [])[one.2]? = some one.1) →
      ∀ {parsed : ParsedValues P}, parsed.get argument.name = none →
        items.foldlM (fun parsed one =>
          (parseArgument positionals tokens parsed one.1 one.2).toOption) parsed = some next →
            next.get argument.name = none := by
    intro items
    induction items with
    | nil =>
        rintro - parsed before same
        cases same
        exact before
    | cons one others ih =>
        intro each parsed before folded
        obtain ⟨here, later⟩ := List.forall_mem_cons.mp each
        rw [List.foldlM_cons, Option.bind_eq_bind, Option.bind_eq_some_iff] at folded
        obtain ⟨middle, step, folded⟩ := folded
        refine ih later ?_ folded
        by_cases same : one.2 = index
        · have first : one.1 = argument := by
            rw [same, at_] at here
            exact (Option.some.inj here).symm
          rw [first, same, parseArgument_empty (bare.args _ (List.mem_of_getElem? at_)).1 single empty]
            at step
          cases step
          exact before
        · rw [get_parseArgument step ?_, before]
          intro sameName
          obtain ⟨within, -⟩ := List.getElem?_eq_some_iff.mp here
          refine same ((List.getElem?_inj (by simpa using within) bare.names).mp ?_)
          rw [List.getElem?_map, List.getElem?_map, here, at_]
          exact congrArg some sameName.symm
  refine misses _ (fun one among => ?_) (OrderedMap.get_empty) stepped
  exact List.mem_zipIdx_iff_getElem?.mp among

/-! ## The condition is exact -/

/-- Without a look at the tokens the handler is called with nothing. -/
theorem readInput_unread (bare : Bare cmd)
    (noHelp : ¬ (hasArgsOrOptions cmd && asksHelp rest)) (unread : collect cmd rest = .ok ([], [])) :
    (readInput cmd tokens rest).toOption =
      some (some ⟨List.intercalate [' '] tokens, .empty, .empty⟩) := by
  have nothing : ∀ (args : List (Arg P)), (∀ arg ∈ args, arg.optional = true) → ∀ start,
      (args.zipIdx start).foldlM (fun (parsed : ParsedValues P) (one : Arg P × Nat) =>
        parseArgument [] tokens parsed one.1 one.2) .empty = .ok .empty := by
    intro args
    induction args with
    | nil => exact fun _ _ => rfl
    | cons argument others ih =>
        intro optional start
        obtain ⟨here, later⟩ := List.forall_mem_cons.mp optional
        have skipped : parseArgument [] tokens (.empty : ParsedValues P) argument start =
            .ok .empty := by simp [parseArgument, here]
        rw [List.zipIdx_cons, List.foldlM_cons, skipped]
        exact ih later (start + 1)
  have args : parseArguments cmd.args [] tokens = .ok .empty :=
    nothing _ (fun arg among => (bare.args arg among).1) 0
  have options : ∀ options : List (CommandOption P),
      options.foldlM (parseOption [] tokens) (.empty : ParsedValues P) = .ok .empty := by
    intro options
    induction options with
    | nil => rfl
    | cons option others ih =>
        rw [List.foldlM_cons]
        exact ih
  rw [readInput_toOption noHelp, unread]
  simp only [Except.toOption, Option.bind_some, args, parseOptions, options, Option.map_some]

/-- What is read in order is plain, unless it is too much. -/
theorem plain_of_readsInOrder (created : Created cmd) (bare : Bare cmd)
    (named : namesHelp (cmd.options.getD []) rest = false)
    (noHelp : ¬ (hasArgsOrOptions cmd && asksHelp rest))
    (read : readTokens isOption (cmd.options.getD []) rest = some reading)
    (collected : collect cmd rest =
      .ok (if cmd.args.isSome then reading.positionals else [], collectedOptions reading.given))
    (fits : ¬ (cmd.args.isSome = true ∧ isSurplus (cmd.args.getD []) reading.positionals = true))
    (reads : ReadsInOrder cmd tokens rest) : Plain cmd reading := by
  have proper := properShort_of_created created
  obtain ⟨-, options, has⟩ := options_of_created created
  have bound : Bound (cmd.options.getD []) reading.given := bound_of_readTokens read
  have own : ∀ {index option}, (cmd.options.getD [])[index]? = some option →
      FirstIsOwn option index reading.given := fun at_ =>
    (firstIsOwn_iff (bound.named at_)).mp fun found => reads.own noHelp collected read at_ found
  have agrees := reads.agrees
  have parsesOptions : ∀ opts, parseOptions cmd.options opts tokens =
      parseOptions (some (cmd.options.getD [])) opts tokens := fun opts => by rw [has]; rfl
  rw [readInput_toOption noHelp, collected, Except.toOption, Option.bind_some, parsesOptions] at agrees
  obtain ⟨args, parsedArgs⟩ := Option.isSome_iff_exists.mp
    (parseArguments_isSome bare (if cmd.args.isSome then reading.positionals else []) tokens)
  obtain ⟨opts, boundOptions⟩ := Option.isSome_iff_exists.mp
    (bindOptions_isSome bare reading.given tokens)
  rw [parsedArgs, Option.bind_some] at agrees
  have rejected : LacksValue (cmd.options.getD []) reading.given ↔ Rejected cmd reading := by
    constructor
    · intro lacks
      by_contra accepted
      obtain ⟨fits, -⟩ := isSurplus_of_accepted accepted fits
      rw [parseOptions_rejected bound own lacks, Option.map_none,
        readInOrder_of_accepted proper named read accepted fits] at agrees
      have called := bindReading_isSome bare reading tokens
      rw [← agrees] at called
      cases called
    · intro rejected
      by_contra valued
      rw [parseOptions_toOption bound own valued, boundOptions, Option.map_some,
        readInOrder_of_rejected proper named read (.inl rejected)] at agrees
      cases agrees
  refine ⟨own, rejected, ?_⟩
  by_cases lacks : LacksValue (cmd.options.getD []) reading.given
  · exact .inl lacks
  · right
    rintro ⟨index, argument, at_, single, empty⟩
    have accepted := mt rejected.mpr lacks
    obtain ⟨fits, positionals⟩ := isSurplus_of_accepted accepted fits
    rw [positionals] at parsedArgs
    rw [parseOptions_toOption bound own lacks, boundOptions, Option.map_some,
      readInOrder_of_accepted proper named read accepted fits] at agrees
    obtain ⟨within, -⟩ := List.getElem?_eq_some_iff.mp empty
    have value := (get_of_bindReading agrees.symm).1 at_ within
    rw [get_parseArguments bare at_ single empty parsedArgs] at value
    cases value

/-- Only orderly tokens are read in order, when any value is taken. -/
theorem orderly_of_readsInOrder (created : Created cmd) (bare : Bare cmd)
    (reads : ReadsInOrder cmd tokens rest) : Orderly cmd rest := by
  cases rest with
  | nil => exact trivial
  | cons first rest =>
      have agrees := reads.agrees
      have looks : ¬ (¬ (hasArgsOrOptions cmd && asksHelp (first :: rest)) ∧
          collect cmd (first :: rest) = .ok ([], [])) := by
        rintro ⟨noHelp, unread⟩
        rw [readInput_unread bare noHelp unread] at agrees
        exact readInOrder_ne_empty created agrees.symm
      have more : hasArgsOrOptions cmd = true := by
        by_contra none_
        rw [Bool.not_eq_true] at none_
        exact looks ⟨by simp [none_], by simp [collect, none_]⟩
      have nonempty : first ≠ [] := by
        rintro rfl
        exact looks ⟨by simp [asksHelp], by simp [collect, more]⟩
      refine ⟨more, nonempty, ?_⟩
      by_cases asks : asksHelp (first :: rest) = true
      · rw [if_pos asks]
        rw [readInput, more, asks, Bool.and_self, if_pos rfl] at agrees
        have named := namesHelp_of_readInOrder created agrees.symm
        exact ((namesHelp_iff created).mp named).2 first rfl
      · rw [if_neg asks]
        have named : namesHelp (cmd.options.getD []) (first :: rest) = false :=
          Bool.eq_false_iff.mpr fun named => asks ((namesHelp_iff created).mp named).1
        have noHelp : ¬ (hasArgsOrOptions cmd && asksHelp (first :: rest)) := by simp [asks]
        intro reading read
        refine or_iff_not_imp_left.mpr fun fits => ?_
        have collected : (collect cmd (first :: rest)).toOption =
            some (if cmd.args.isSome then reading.positionals else [],
              collectedOptions reading.given) := by
          obtain ⟨noSubcommands, options, has⟩ := options_of_created created
          have options_ : options ++ [helpOption.option] = cmd.options.getD [] := by rw [has]; rfl
          rw [collect_toOption has noSubcommands more nonempty, options_, read, Option.bind_some,
            if_neg (by simpa using fits)]
        cases same : collect cmd (first :: rest) with
        | error message =>
            rw [same] at collected
            cases collected
        | ok both =>
            rw [same] at collected
            cases collected
            exact plain_of_readsInOrder created bare named noHelp read same fits reads

/-- A handler is called with what its tokens say in order when they are orderly, and only then if the
command takes any value. -/
theorem readsInOrder_iff (created : Created cmd) : (Orderly cmd rest → ReadsInOrder cmd tokens rest) ∧
    (Bare cmd → (ReadsInOrder cmd tokens rest ↔ Orderly cmd rest)) :=
  ⟨readsInOrder_of_orderly created, fun bare =>
    ⟨orderly_of_readsInOrder created bare, readsInOrder_of_orderly created⟩⟩

/-! ## A value that is read again -/

/-- A command with an option that takes a value and one that does not. -/
def config : CommandParam Unit Unit where
  name := "config".toList
  preChecks := []
  args := some [⟨"name".toList, true, false, none, none⟩]
  options := some [⟨"url".toList, .text ['u'], true, none, none⟩,
    ⟨"verbose".toList, .text ['v'], false, none, none⟩]
  handle := fun _ => .ok ()

/-- The command `config` is created. -/
theorem created_config : Created (createCmd config) := by
  refine .of (fun args same => ⟨args, ?_⟩) fun options same =>
    ⟨[⟨"url".toList, .bool true, true, none, none⟩, ⟨"verbose".toList, .bool true, false, none, none⟩], ?_⟩
  · cases same
    rfl
  · cases same
    rfl

/-- Its tokens are in order. -/
theorem orderly_config : Orderly (createCmd config) ["-u".toList, "local".toList, "main".toList] := by
  refine ⟨rfl, by decide, ?_⟩
  rw [if_neg (by decide)]
  intro reading read
  obtain rfl : ⟨["main".toList], [⟨"-u".toList, 0, some "local".toList⟩]⟩ = reading :=
    Option.some.inj read
  right
  refine ⟨?_, iff_of_false ?_ ?_, .inr ?_⟩
  · intro index option at_
    rcases index with _ | _ | _ | index
    · exact .inl rfl
    · cases at_
      exact .inr ⟨by decide, by decide, trivial⟩
    · cases at_
      exact .inr ⟨by decide, by decide, trivial⟩
    · cases at_
  · rintro ⟨index, one, found, -, lacks⟩
    obtain rfl := List.mem_singleton.mp (List.mem_of_find?_eq_some found)
    exact absurd lacks (by decide)
  · rintro (⟨one, among, unknown⟩ | ⟨one, among, -, lacks⟩ | ⟨without, -⟩)
    · obtain rfl := List.mem_singleton.mp among
      exact absurd unknown (by decide)
    · obtain rfl := List.mem_singleton.mp among
      cases lacks
    · cases without
  · rintro ⟨index, argument, -, -, empty⟩
    have among := List.mem_singleton.mp (List.mem_of_getElem? empty)
    exact absurd among (by decide)

/-- It is read in order. -/
theorem readsInOrder_config : ReadsInOrder (createCmd config)
    ["config".toList, "-u".toList, "local".toList, "main".toList]
      ["-u".toList, "local".toList, "main".toList] :=
  (readsInOrder_iff created_config).1 orderly_config

/-- The value of an option is also taken for the option that it looks like. -/
theorem not_always_readsInOrder : ¬ ∀ (cmd : Command Unit Unit) (tokens rest : List Text),
    Created cmd → ReadsInOrder cmd tokens rest := by
  intro always
  have agrees := (always (createCmd config) ["config".toList, "--url".toList, "--verbose".toList]
    ["--url".toList, "--verbose".toList] created_config).agrees
  have passed : ((readInput (createCmd config) ["config".toList, "--url".toList, "--verbose".toList]
      ["--url".toList, "--verbose".toList]).toOption.join.bind fun input =>
        input.options.get "verbose".toList).isSome = true := by decide
  have read : ((readInOrder (createCmd config) ["config".toList, "--url".toList, "--verbose".toList]
      ["--url".toList, "--verbose".toList]).join.bind fun input =>
        input.options.get "verbose".toList).isSome = false := by decide
  rw [agrees, read] at passed
  cases passed

end PgCommandManager
end Solpg.Client.Utils
