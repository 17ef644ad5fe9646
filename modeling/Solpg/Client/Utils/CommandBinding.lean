import Solpg.Client.Utils.CommandReading
import Solpg.Std.Outcome

/-!
# Binding the tokens of a command

The condition under which a handler is called with what its tokens say in order.
-/

namespace Solpg.Client.Utils

open Solpg.Std Commands

namespace PgCommandManager

variable {P R : Type} {cmd : Command P R} {options : List (CommandOption P)}
  {option : CommandOption P} {tokens rest : List Text} {given : List Given} {reading : Reading}
  {index : Nat} {parsed : ParsedValues P}

/-! ## Given options -/

/-- Each option is named by its token, and has a value exactly when it takes one, apart from the
last. -/
def Bound (options : List (CommandOption P)) : List Given → Prop
  | [] => True
  | one :: rest =>
      (∃ option, options[one.index]? = some option ∧ isOption option one.token = true) ∧
        (one.value.isSome = true → takesValue options one.index = true) ∧
          (takesValue options one.index = true → one.value = none → rest = []) ∧
            Bound options rest

/-- Reading binds options. -/
theorem bound_of_readTokens (read : readTokens isOption options rest = some reading) :
    Bound options reading.given := by
  induction rest using readTokens.induct isOption options generalizing reading with
  | case1 =>
      cases read
      exact trivial
  | case2 token rest dash unknown =>
      rw [readTokens, if_pos dash, unknown] at read
      cases read
  | case3 token dash index found takes =>
      simp only [readTokens, if_pos dash, found, takes, if_true, Option.some.injEq] at read
      obtain ⟨option, at_, named, -⟩ := find?_of_findIdx? found
      subst read
      exact ⟨⟨option, at_, named⟩, (fun given => by cases given), fun _ _ => rfl, trivial⟩
  | case4 token dash index found takes value rest ih =>
      simp only [readTokens, if_pos dash, found, takes, if_true, Option.map_eq_some_iff] at read
      obtain ⟨inner, read, rfl⟩ := read
      obtain ⟨option, at_, named, -⟩ := find?_of_findIdx? found
      exact ⟨⟨option, at_, named⟩, fun _ => takes, (fun _ absent => by cases absent), ih read⟩
  | case5 token rest dash index found takes ih =>
      simp only [readTokens, if_pos dash, found, takes, Bool.false_eq_true, if_false,
        Option.map_eq_some_iff] at read
      obtain ⟨inner, read, rfl⟩ := read
      obtain ⟨option, at_, named, -⟩ := find?_of_findIdx? found
      exact ⟨⟨option, at_, named⟩, (fun given => by cases given), fun other => absurd other takes, ih read⟩
  | case6 token rest dash ih =>
      simp only [readTokens, if_neg dash, Option.map_eq_some_iff] at read
      obtain ⟨inner, read, rfl⟩ := read
      have bound : Bound options inner.given := ih read
      exact bound

/-- An option that is bound was named. -/
theorem Bound.named (bound : Bound options given) (at_ : options[index]? = some option) :
    ∀ one ∈ given, one.index = index → isOption option one.token = true := by
  induction given with
  | nil => nofun
  | cons one rest ih =>
      obtain ⟨⟨other, there, named⟩, -, -, later⟩ := bound
      rw [List.forall_mem_cons]
      refine ⟨?_, ih later⟩
      rintro rfl
      rw [there] at at_
      cases at_
      exact named

/-- A flag is bound without a value. -/
theorem Bound.value_eq_none (bound : Bound options given) {one : Given} (among : one ∈ given)
    (flag : takesValue options one.index = false) : one.value = none := by
  induction given with
  | nil => cases among
  | cons first rest ih =>
      obtain ⟨-, takes, -, later⟩ := bound
      rcases List.mem_cons.mp among with rfl | among
      · rw [← Option.not_isSome_iff_eq_none]
        intro some_
        rw [takes some_] at flag
        cases flag
      · exact ih later among

/-- An option is collected with its value. -/
theorem collectedOptions_cons (one : Given) (rest : List Given) : collectedOptions (one :: rest) =
    one.token :: (one.value.toList ++ collectedOptions rest) := rfl

/-- An option has its role before those of the others. -/
theorem roles_cons (one : Given) (rest : List Given) : roles (one :: rest) =
    some one.index :: ((one.value.map fun _ => none).toList ++ roles rest) := rfl

/-- The place where an option is found names it exactly when nothing before looks like it. -/
theorem firstIsOwn_iff (named : ∀ one ∈ given, one.index = index → isOption option one.token = true) :
    (∀ {place}, (collectedOptions given).findIdx? (isOption option) = some place →
      (roles given)[place]? = some (some index)) ↔ FirstIsOwn option index given := by
  induction given with
  | nil => exact iff_of_true nofun trivial
  | cons one rest ih =>
      obtain ⟨here, later⟩ := List.forall_mem_cons.mp named
      rw [collectedOptions_cons, roles_cons, FirstIsOwn, ← ih later, List.findIdx?_cons]
      cases taken : isOption option one.token with
      | true => simp
      | false =>
          have other : one.index ≠ index := by
            intro same
            rw [here same] at taken
            cases taken
          cases one.value with
          | none => simp [other]
          | some value =>
              cases valueTaken : isOption option value with
              | true => simp [other, List.findIdx?_cons, valueTaken]
              | false => simp [other, List.findIdx?_cons, valueTaken]

/-- Where an option that is its own first match is found, and what comes next. -/
theorem findIdx?_collectedOptions (bound : Bound options given)
    (at_ : options[index]? = some option) (own : FirstIsOwn option index given) :
    match given.find? fun one => one.index = index with
    | none => (collectedOptions given).findIdx? (isOption option) = none
    | some one => ∃ place, (collectedOptions given).findIdx? (isOption option) = some place ∧
        (option.takeValue = true → (collectedOptions given)[place + 1]? = one.value) := by
  induction given with
  | nil => rfl
  | cons one rest ih =>
      have named := bound.named at_
      rw [List.find?_cons]
      by_cases same : one.index = index
      · simp only [same, decide_true]
        refine ⟨0, ?_, fun takes => ?_⟩
        · rw [collectedOptions_cons, List.findIdx?_cons, named one List.mem_cons_self same]
          rfl
        · rw [collectedOptions_cons]
          cases value : one.value with
          | some value => rfl
          | none =>
              obtain ⟨-, -, last, -⟩ := bound
              rw [same, takesValue_of_getElem? at_] at last
              rw [last takes value]
              rfl
      · obtain ⟨other, valueOther, own⟩ := own.resolve_left same
        obtain ⟨-, -, -, bound⟩ := bound
        simp only [same, decide_false]
        have there := ih bound own
        have shift : (collectedOptions (one :: rest)).findIdx? (isOption option) =
            ((collectedOptions rest).findIdx? (isOption option)).map
              (· + (one.value.toList.length + 1)) := by
          rw [collectedOptions_cons, List.findIdx?_cons, other]
          cases value : one.value with
          | none => simp
          | some token =>
              rw [value] at valueOther
              simp [List.findIdx?_cons, valueOther token rfl, Function.comp_def]
        have next : ∀ place : Nat, (collectedOptions (one :: rest))[place + (one.value.toList.length + 1) + 1]? =
            (collectedOptions rest)[place + 1]? := by
          intro place
          rw [collectedOptions_cons]
          cases one.value with
          | none => simp
          | some value => simp
        rw [shift]
        cases found : rest.find? fun one => one.index = index with
        | none =>
            rw [found] at there
            rw [there]
            rfl
        | some first =>
            rw [found] at there
            obtain ⟨place, picked, value⟩ := there
            rw [picked]
            exact ⟨_, rfl, fun takes => (next place).trans (value takes)⟩

/-! ## Binding -/

/-- An option with a value gets the token behind it. -/
theorem parseOption_value {value : Text} {place : Nat} {opts : List Text} (takes : option.takeValue = true)
    (found : opts.findIdx? (isOption option) = some place) (next : opts[place + 1]? = some value)
    (nonempty : value ≠ []) : parseOption opts tokens parsed option =
      (optionValue option value tokens).map (parsed.set option.name ·) := by
  obtain ⟨first, others, rfl⟩ := List.exists_cons_of_ne_nil nonempty
  simp only [parseOption, found, takes, next, optionValue]
  cases option.values with
  | none => cases option.parse <;> rfl
  | some accepted =>
      cases accepted with
      | error message => rfl
      | ok values =>
          by_cases among : first :: others ∈ values
          · cases option.parse <;> simp [among, bind, Except.bind, Except.map, Functor.map]
          · simp [among, bind, Except.bind, Except.map]

/-- An option is bound as it is given first. -/
theorem parseOption_toOption (bound : Bound options given) (at_ : options[index]? = some option)
    (own : FirstIsOwn option index given)
    (valued : ∀ one, given.find? (fun one => one.index = index) = some one →
      option.takeValue = true → one.value.getD [] ≠ []) :
    (parseOption (collectedOptions given) tokens parsed option).toOption =
      bindOption given tokens parsed option index := by
  have place := findIdx?_collectedOptions bound at_ own
  rw [bindOption]
  cases found : given.find? fun one => one.index = index with
  | none =>
      rw [found] at place
      rw [parseOption, place]
      rfl
  | some one =>
      rw [found] at place
      obtain ⟨place, picked, next⟩ := place
      have index_ : one.index = index := by simpa using List.find?_some found
      cases takes : option.takeValue with
      | false =>
          have flag := bound.value_eq_none (List.mem_of_find?_eq_some found)
            (by rw [index_, takesValue_of_getElem? at_, takes])
          simp only [parseOption, picked, takes, flag]
          rfl
      | true =>
          have nonempty := valued one found takes
          cases value : one.value with
          | none => simp [value] at nonempty
          | some token =>
              rw [value] at nonempty
              rw [parseOption_value takes picked ((next takes).trans value) nonempty]
              simp only [value]
              cases optionValue option token tokens <;> rfl

/-- Without a value an option is rejected, also with an empty one. -/
theorem parseOption_rejected (bound : Bound options given) (at_ : options[index]? = some option)
    (own : FirstIsOwn option index given) {one : Given}
    (found : given.find? (fun one => one.index = index) = some one) (takes : option.takeValue = true)
    (lacks : one.value.getD [] = []) :
    (parseOption (collectedOptions given) tokens parsed option).toOption = none := by
  have place := findIdx?_collectedOptions bound at_ own
  rw [found] at place
  obtain ⟨place, picked, next⟩ := place
  have next := next takes
  simp only [parseOption, picked, takes, next]
  cases value : one.value with
  | none => rfl
  | some token =>
      obtain rfl : token = [] := by simpa [value] using lacks
      rfl

/-- An argument is bound as its tokens are parsed. -/
theorem parseArgument_toOption {positionals : List Text} {argument : Arg P}
    (nonempty : argument.multiple = false → positionals[index]? ≠ some []) :
    (parseArgument positionals tokens parsed argument index).toOption =
      bindArgument positionals tokens parsed argument index := by
  have same : (if argument.multiple then positionals.drop index
      else (positionals[index]?.filter (!·.isEmpty)).toList) =
        if argument.multiple then positionals.drop index else positionals[index]?.toList := by
    cases multiple : argument.multiple with
    | true => rfl
    | false =>
        cases at_ : positionals[index]? with
        | none => rfl
        | some token =>
            have := nonempty multiple
            rw [at_] at this
            cases token with
            | nil => exact absurd rfl this
            | cons char rest => rfl
  rw [parseArgument, bindArgument, same]
  generalize (if argument.multiple then positionals.drop index
    else positionals[index]?.toList) = inputArgs
  cases inputArgs with
  | nil => cases argument.optional <;> rfl
  | cons first rest =>
      simp only [Outcome.toOption_bind]
      rfl

/-! ## The condition is enough -/

/-- What is bound as the tokens are read. -/
def bindReading (cmd : Command P R) (tokens : List Text) (reading : Reading) :
    Option (Option (ParsedInput P)) := do
  let args ← (cmd.args.getD []).zipIdx.foldlM (fun parsed (argument, index) =>
    bindArgument reading.positionals tokens parsed argument index) .empty
  let options ← (cmd.options.getD []).zipIdx.foldlM (fun parsed (option, index) =>
    bindOption reading.given tokens parsed option index) .empty
  return some ⟨List.intercalate [' '] tokens, args, options⟩

/-- The arguments are bound one after the other. -/
theorem parseArguments_toOption {positionals : List Text} (nonempty : ¬ EmptyArgument cmd positionals) :
    (parseArguments cmd.args positionals tokens).toOption =
      (cmd.args.getD []).zipIdx.foldlM (fun parsed (argument, index) =>
        bindArgument positionals tokens parsed argument index) .empty := by
  refine Outcome.toOption_foldlM ?_ _
  rintro ⟨argument, index⟩ among parsed
  refine parseArgument_toOption fun single empty => nonempty ?_
  exact ⟨index, argument, List.mem_zipIdx_iff_getElem?.mp among, single, empty⟩

/-- The options are bound one after the other. -/
theorem parseOptions_toOption (bound : Bound options given)
    (own : ∀ {index option}, options[index]? = some option → FirstIsOwn option index given)
    (valued : ¬ LacksValue options given) :
    (parseOptions (some options) (collectedOptions given) tokens).toOption =
      options.zipIdx.foldlM (fun parsed (option, index) =>
        bindOption given tokens parsed option index) .empty := by
  have indexed : parseOptions (some options) (collectedOptions given) tokens =
      options.zipIdx.foldlM (fun parsed one =>
        parseOption (collectedOptions given) tokens parsed one.1) .empty := by
    calc
      _ = ((options.zipIdx).map Prod.fst).foldlM
          (parseOption (collectedOptions given) tokens) .empty := by rw [List.zipIdx_map_fst]; rfl
      _ = _ := List.foldlM_map
  rw [indexed]
  refine Outcome.toOption_foldlM ?_ _
  rintro ⟨option, index⟩ among parsed
  have at_ := List.mem_zipIdx_iff_getElem?.mp among
  refine parseOption_toOption bound at_ (own at_) fun one found takes lacks => valued ?_
  exact ⟨index, one, found, (takesValue_of_getElem? at_).trans takes, lacks⟩

/-- An option without its value is rejected. -/
theorem parseOptions_rejected (bound : Bound options given)
    (own : ∀ {index option}, options[index]? = some option → FirstIsOwn option index given)
    (lacks : LacksValue options given) :
    (parseOptions (some options) (collectedOptions given) tokens).toOption = none := by
  obtain ⟨index, one, found, takes, empty⟩ := lacks
  cases at_ : options[index]? with
  | none =>
      rw [takesValue, at_] at takes
      cases takes
  | some option =>
      rw [takesValue_of_getElem? at_] at takes
      refine Outcome.toOption_foldlM_eq_none (List.mem_of_getElem? at_) (fun parsed => ?_) _
      exact parseOption_rejected bound at_ (own at_) found takes empty

/-- Without a request for help the input is collected and bound. -/
theorem readInput_toOption (noHelp : ¬ (hasArgsOrOptions cmd && asksHelp rest)) :
    (readInput cmd tokens rest).toOption = (collect cmd rest).toOption.bind fun collected =>
      (parseArguments cmd.args collected.1 tokens).toOption.bind fun args =>
        (parseOptions cmd.options collected.2 tokens).toOption.map fun opts =>
          some ⟨List.intercalate [' '] tokens, args, opts⟩ := by
  rw [readInput, if_neg noHelp, Outcome.toOption_bind]
  refine Option.bind_congr fun collected _ => ?_
  rw [Outcome.toOption_bind]
  refine Option.bind_congr fun args _ => ?_
  rw [Outcome.toOption_bind]
  exact (Option.map_eq_bind ..).symm

/-- A created command has the help option last. -/
theorem options_of_created (created : Created cmd) :
    cmd.subcommands = none ∧ ∃ options : List (CommandOption P),
      cmd.options = some (options ++ [helpOption.option]) := by
  cases created with | @of declared _ _ => ?_
  refine ⟨rfl, (declared.options.getD []).map OptionParam.option, ?_⟩
  simp [createCmd, addHelpOption]

/-- The help option is named when help is asked for and no other option has that form. -/
theorem namesHelp_iff (created : Created cmd) : namesHelp (cmd.options.getD []) rest = true ↔
    asksHelp rest = true ∧ ∀ token ∈ rest.head?, ∀ option ∈ (cmd.options.getD []).dropLast,
      isForm option token = false := by
  obtain ⟨-, options, has⟩ := options_of_created created
  rw [has, namesHelp]
  cases rest with
  | nil => simp [asksHelp]
  | cons token rest =>
      have help : isForm (helpOption.option : CommandOption P) token = true ↔
          asksHelp (token :: rest) = true := by
        rw [isForm_iff, asksHelp, decide_eq_true_iff, List.head?_cons, Option.some.injEq,
          Option.some.injEq]
        exact or_congr eq_comm ⟨fun same => (Option.some.inj same).symm, fun same => same ▸ rfl⟩
      rw [← help]
      simp only [List.head?_cons, Option.any_some, Option.getD_some, decide_eq_true_iff,
        List.dropLast_concat, List.length_append, List.length_singleton, Nat.add_sub_cancel,
        List.findIdx?_append, Option.mem_some_iff, forall_eq']
      cases found : options.findIdx? (isForm · token) with
      | some index =>
          obtain ⟨bound, named, -⟩ := List.findIdx?_eq_some_iff_getElem.mp found
          refine iff_of_false (fun same => ?_) fun both => ?_
          · rw [Option.some_or, Option.some.injEq] at same
            omega
          · rw [both.2 _ (List.getElem_mem bound)] at named
            cases named
      | none =>
          rw [List.findIdx?_eq_none_iff] at found
          rw [Option.none_or, List.findIdx?_singleton, and_iff_left found]
          cases isForm (helpOption.option : CommandOption P) token <;> simp

section

variable (proper : ∀ option ∈ cmd.options.getD [], ProperShort option)
  (noHelp : namesHelp (cmd.options.getD []) rest = false)

include proper noHelp

/-- What cannot be read is not bound. -/
theorem readInOrder_of_none (read : readTokens isOption (cmd.options.getD []) rest = none) :
    readInOrder cmd tokens rest = none := by
  have unread : readTokens isForm (cmd.options.getD []) rest = none := by
    rw [Option.eq_none_iff_forall_ne_some]
    intro reading forms
    rw [((readTokens_isForm_iff proper).mp forms).1] at read
    cases read
  rw [readInOrder]
  rw [noHelp, if_neg Bool.false_ne_true, unread]
  rfl

/-- What is rejected is not bound. -/
theorem readInOrder_of_rejected (read : readTokens isOption (cmd.options.getD []) rest = some reading)
    (rejected : Rejected cmd reading ∨ isSurplus (cmd.args.getD []) reading.positionals = true) :
    readInOrder cmd tokens rest = none := by
  rw [readInOrder]
  rw [noHelp, if_neg Bool.false_ne_true]
  cases forms : readTokens isForm (cmd.options.getD []) rest with
  | none => rfl
  | some other =>
      obtain ⟨same, formed⟩ := (readTokens_isForm_iff proper).mp forms
      rw [read] at same
      cases same
      have none_ (surplus : isSurplus (cmd.args.getD []) reading.positionals = true) :
          (do
            let reading ← some reading
            guard (reading.given.all fun one =>
              takesValue (cmd.options.getD []) one.index → one.value.isSome)
            guard (!isSurplus (cmd.args.getD []) reading.positionals)
            bindReading cmd tokens reading) = none := by
        rw [Option.bind_eq_bind, Option.bind_some, surplus]
        cases List.all reading.given _ <;> rfl
      rcases rejected with (⟨one, among, unknown⟩ | ⟨one, among, takes, lacks⟩ | ⟨without, some_⟩) | surplus
      · exact absurd unknown (formed one among)
      · have missing : (reading.given.all fun one =>
            takesValue (cmd.options.getD []) one.index → one.value.isSome) = false := by
          rw [List.all_eq_false]
          exact ⟨one, among, by simp [takes, lacks]⟩
        rw [Option.bind_eq_bind, Option.bind_some, missing]
        rfl
      · have surplus : isSurplus (cmd.args.getD []) reading.positionals = true := by
          simp [without, isSurplus, List.length_pos_iff.mpr some_]
        exact none_ surplus
      · exact none_ surplus

/-- What is accepted is bound. -/
theorem readInOrder_of_accepted (read : readTokens isOption (cmd.options.getD []) rest = some reading)
    (accepted : ¬ Rejected cmd reading)
    (fits : isSurplus (cmd.args.getD []) reading.positionals = false) :
    readInOrder cmd tokens rest = bindReading cmd tokens reading := by
  have forms : readTokens isForm (cmd.options.getD []) rest = some reading := by
    refine (readTokens_isForm_iff proper).mpr ⟨read, fun one among unknown => accepted ?_⟩
    exact .inl ⟨one, among, unknown⟩
  have valued : (reading.given.all fun one =>
      takesValue (cmd.options.getD []) one.index → one.value.isSome) = true := by
    rw [List.all_eq_true]
    intro one among
    rw [decide_eq_true_iff]
    intro takes
    rw [Option.isSome_iff_ne_none]
    exact fun lacks => accepted (.inr (.inl ⟨one, among, takes, lacks⟩))
  rw [readInOrder]
  rw [noHelp, if_neg Bool.false_ne_true, forms]
  rw [Option.bind_eq_bind, Option.bind_some, valued, fits]
  rfl

end

/-- What is accepted has no token too many. -/
theorem isSurplus_of_accepted (accepted : ¬ Rejected cmd reading)
    (fits : ¬ (cmd.args.isSome = true ∧ isSurplus (cmd.args.getD []) reading.positionals = true)) :
    isSurplus (cmd.args.getD []) reading.positionals = false ∧
      (if cmd.args.isSome then reading.positionals else []) = reading.positionals := by
  cases args : cmd.args with
  | some definitions =>
      rw [args] at fits
      exact ⟨by simpa using fits, rfl⟩
  | none =>
      have none_ : reading.positionals = [] := by
        by_contra some_
        exact accepted (.inr (.inr ⟨args, some_⟩))
      rw [none_]
      exact ⟨rfl, rfl⟩

/-- What is collected and plain is bound as it is read. -/
theorem agrees_of_plain (created : Created cmd)
    (named : namesHelp (cmd.options.getD []) rest = false)
    (noHelp : ¬ (hasArgsOrOptions cmd && asksHelp rest))
    (read : readTokens isOption (cmd.options.getD []) rest = some reading)
    (collected : (collect cmd rest).toOption =
      some (if cmd.args.isSome then reading.positionals else [], collectedOptions reading.given))
    (fits : ¬ (cmd.args.isSome = true ∧ isSurplus (cmd.args.getD []) reading.positionals = true))
    (plain : Plain cmd reading) :
    (readInput cmd tokens rest).toOption = readInOrder cmd tokens rest := by
  have proper := properShort_of_created created
  obtain ⟨-, options, has⟩ := options_of_created created
  have bound : Bound (cmd.options.getD []) reading.given := bound_of_readTokens read
  have parsesOptions : ∀ opts, parseOptions cmd.options opts tokens =
      parseOptions (some (cmd.options.getD [])) opts tokens := fun opts => by rw [has]; rfl
  rw [readInput_toOption noHelp, collected, Option.bind_some]
  by_cases rejected : Rejected cmd reading
  · rw [readInOrder_of_rejected proper named read (.inl rejected), parsesOptions,
      parseOptions_rejected bound plain.own (plain.rejected.mpr rejected)]
    cases (parseArguments cmd.args _ tokens).toOption <;> rfl
  · have valued := mt plain.rejected.mp rejected
    obtain ⟨fits, positionals⟩ := isSurplus_of_accepted rejected fits
    rw [readInOrder_of_accepted proper named read rejected fits, parsesOptions,
      parseOptions_toOption bound plain.own valued, positionals,
      parseArguments_toOption (plain.nonempty.resolve_left valued)]
    simp only [Option.map_eq_bind]
    rfl

/-- Orderly tokens are read in order. -/
theorem readsInOrder_of_orderly (created : Created cmd) (orderly : Orderly cmd rest) :
    ReadsInOrder cmd tokens rest := by
  have proper := properShort_of_created created
  obtain ⟨noSubcommands, options, has⟩ := options_of_created created
  cases rest with
  | nil =>
      have collected : collect cmd [] = .ok ([], []) := by
        rw [collect]
        rintro _ _ _ ⟨⟩
      have plain : Plain cmd ⟨[], []⟩ := by
        refine ⟨fun _ => trivial, iff_of_false ?_ ?_, .inr ?_⟩
        · rintro ⟨_, _, ⟨⟩, _⟩
        · rintro (⟨_, ⟨⟩, _⟩ | ⟨_, ⟨⟩, _⟩ | ⟨-, some_⟩)
          exact some_ rfl
        · rintro ⟨_, _, -, -, ⟨⟩⟩
      have named : namesHelp (cmd.options.getD []) [] = false := rfl
      have noHelp : ¬ (hasArgsOrOptions cmd && asksHelp []) := by simp [asksHelp]
      refine ⟨agrees_of_plain created named noHelp rfl ?_ ?_ plain, ?_⟩
      · rw [collected]
        cases cmd.args.isSome <;> rfl
      · simp [isSurplus]
      · intro _ args opts reading same _ index option place _ found
        rw [collected] at same
        cases same
        cases found
  | cons first rest =>
      obtain ⟨more, nonempty, ordered⟩ := orderly
      by_cases asks : asksHelp (first :: rest) = true
      · rw [if_pos asks] at ordered
        have named : namesHelp (cmd.options.getD []) (first :: rest) = true :=
          (namesHelp_iff created).mpr ⟨asks, fun token same => Option.some.inj same ▸ ordered⟩
        refine ⟨?_, fun noHelp => absurd (by rw [more, asks]; rfl) noHelp⟩
        rw [readInput, readInOrder, more, asks, Bool.and_self, if_pos rfl, if_pos named]
        rfl
      · rw [if_neg asks] at ordered
        have named : namesHelp (cmd.options.getD []) (first :: rest) = false :=
          Bool.eq_false_iff.mpr fun named => asks ((namesHelp_iff created).mp named).1
        have noHelp : ¬ (hasArgsOrOptions cmd && asksHelp (first :: rest)) := by simp [asks]
        have collected : (collect cmd (first :: rest)).toOption = _ :=
          collect_toOption has noSubcommands more nonempty
        have options_ : options ++ [helpOption.option] = cmd.options.getD [] := by rw [has]; rfl
        rw [options_] at collected
        cases read : readTokens isOption (cmd.options.getD []) (first :: rest) with
        | none =>
            rw [read, Option.bind_none] at collected
            refine ⟨?_, fun _ {_ _ _} _ same => by rw [read] at same; cases same⟩
            rw [readInput_toOption noHelp, collected, readInOrder_of_none proper named read]
            rfl
        | some reading =>
            rw [read, Option.bind_some] at collected
            rcases ordered reading read with ⟨has_, surplus⟩ | plain
            · rw [has_, surplus] at collected
              refine ⟨?_, fun _ {_ _ _} same _ => by rw [same] at collected; cases collected⟩
              rw [readInput_toOption noHelp, collected,
                readInOrder_of_rejected proper named read (.inr surplus)]
              rfl
            · by_cases fits : cmd.args.isSome = true ∧
                  isSurplus (cmd.args.getD []) reading.positionals = true
              · rw [fits.1, fits.2] at collected
                refine ⟨?_, fun _ {_ _ _} same _ => by rw [same] at collected; cases collected⟩
                rw [readInput_toOption noHelp, collected,
                  readInOrder_of_rejected proper named read (.inr fits.2)]
                rfl
              · rw [if_neg (by simpa using fits)] at collected
                refine ⟨agrees_of_plain created named noHelp read collected fits plain, ?_⟩
                intro _ args opts other same again index option place at_ found
                rw [same] at collected
                rw [read] at again
                cases again
                obtain rfl : opts = collectedOptions reading.given :=
                  congrArg Prod.snd (Option.some.inj collected)
                have bound : Bound (cmd.options.getD []) reading.given := bound_of_readTokens read
                exact (firstIsOwn_iff (bound.named at_)).mpr (plain.own at_) found

end PgCommandManager
end Solpg.Client.Utils
