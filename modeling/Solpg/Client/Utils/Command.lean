import Solpg.Std.OrderedMap
import Solpg.Std.Text

/-!
# Terminal commands

`PgCommandManager.execute` of `command.ts`. What the functions of a command do is recorded in the
command: a check, a parser or a handler returns or throws a message. The start and the finish
event that it dispatches are paired exactly for the tokens that reach a handler.
-/

namespace Solpg.Client.Utils

open Solpg.Std

/-- Accepted values, or a function that gives them for a token and all tokens. -/
inductive ArgValues where
  | list (values : List Text)
  | function (values : Option Text → List Text → Except Text (List Text))

/-- An argument: which texts it takes and how it is parsed. -/
structure Arg (P : Type) where
  name : Text
  optional : Bool
  multiple : Bool
  values : Option ArgValues
  parse : Option (Text → List Text → Except Text P)

/-- `values` and `parse` are there only with `takeValue`. -/
structure CommandOption (P : Type) where
  name : Text
  short : Option Text
  takeValue : Bool
  values : Option (Except Text (List Text))
  parse : Option (Text → List Text → Except Text P)

/-- What a command finds for an argument or an option. -/
inductive ParsedValue (P : Type) where
  | flag
  | token (token : Text)
  | tokens (tokens : List Text)
  | parsed (value : P)
  | allParsed (values : List P)

/-- The values by the names of the arguments or options. -/
abbrev ParsedValues (P : Type) := OrderedMap Text (ParsedValue P)

/-- What the handler of a command is called with. -/
structure ParsedInput (P : Type) where
  raw : Text
  args : ParsedValues P
  options : ParsedValues P

/-- A command with its subcommands. -/
structure Command (P R : Type) where
  name : Text
  preChecks : List (Except Text Unit)
  args : Option (List (Arg P))
  options : Option (List (CommandOption P))
  handle : Option (ParsedInput P → Except Text R)
  subcommands : Option (List (Command P R))

/-- What listeners are told. -/
inductive CommandEvent (R : Type) where
  | start (name input : Text)
  | finish (name : Text) (result : Except Text R)
  deriving DecidableEq

/-- How a call ends, and what it has dispatched. -/
structure Execution (R : Type) where
  result : Except Text (Option R)
  events : List (CommandEvent R)

namespace PgCommandManager

variable {P R : Type}

/-- `PgTerminal.italic`. -/
def italic (text : Text) : Text := "\x1b[3m".toList ++ text ++ "\x1b[0m".toList

/-- A name in a message. -/
def inBackticks (before name : Text) : Text := before ++ ": `".toList ++ name ++ "`".toList

/-- A message with the values that were possible. -/
def withPossible (text : Text) (values : List Text) : Text :=
  text ++ " (possible values: ".toList ++ List.intercalate ", ".toList values ++ ")".toList

/-- The subcommand that a token names. -/
def findSubcommand (cmd : Command P R) (token : Text) : Option (Command P R) :=
  (cmd.subcommands.getD []).find? fun subcmd => subcmd.name = token

/-! ## Tokens -/

/-- The token is the option in its long or its short form. -/
def isOption (option : CommandOption P) (token : Text) : Bool :=
  "--".toList ++ option.name = token ∨
    '-' :: option.short.getD "undefined".toList = token

/-- Arguments and options, separated so far. -/
structure Collected where
  takeOptionValue : Bool
  args : List Text
  options : List Text

/-- A turn of the loop that separates arguments and options. -/
def collectToken (command : Command P R) (collected : Collected) (token : Text) :
    Except Text Collected :=
  if collected.takeOptionValue then
    .ok { collected with takeOptionValue := false, options := collected.options ++ [token] }
  else
    match command.options, token.startsWith ['-'] with
    | some options, true =>
        match options.find? (isOption · token) with
        | none => .error (inBackticks "Unexpected option".toList token)
        | some option =>
            .ok { collected with
              takeOptionValue := option.takeValue
              options := collected.options ++ [token] }
    | _, _ =>
        if command.args.isSome then .ok { collected with args := collected.args ++ [token] }
        else .ok collected

/-- The tokens from `nextToken` on, as arguments and options. -/
def collectArgsAndOptions (command : Command P R) (nextToken : Text) (rest : List Text) :
    Except Text (List Text × List Text) := do
  let collected ← (nextToken :: rest).foldlM (collectToken command) ⟨false, [], []⟩
  match command.args, command.subcommands with
  | none, some subcommands =>
      if nextToken.startsWith ['-'] then .error (inBackticks "Unexpected option".toList nextToken)
      else .error (inBackticks "Subcommand doesn't exist".toList nextToken ++
        "\n\nAvailable subcommands: ".toList ++
          List.intercalate ", ".toList (subcommands.map Command.name))
  | _, _ =>
      let args := command.args.getD []
      if args.length < collected.args.length ∧ ¬ args.getLast?.any Arg.multiple then
        .error ("Provided argument count is higher than expected: ".toList ++
          (toString collected.args.length).toList)
      else .ok (collected.args, collected.options)

/-! ## Arguments and options -/

/-- The parser of an argument with its error message. -/
def createParse (kind name : Text) (parse : Text → List Text → Except Text P) (token : Text)
    (tokens : List Text) : Except Text P :=
  match parse token tokens with
  | .ok value => .ok value
  | .error message =>
      let failed := inBackticks ("Failed to parse ".toList ++ kind) name
      .error (if message.isEmpty then failed else failed ++ ": ".toList ++ message)

/-- The check of the accepted values. A token without characters is passed over. -/
def checkArgument (argument : Arg P) (token : Option Text) (inputArgs tokens : List Text) :
    Except Text Unit := do
  match argument.values with
  | none => .ok ()
  | some accepted => do
      let values ← match accepted with
        | .list values => Except.ok values
        | .function values => values token tokens
      match inputArgs.find? fun value => value ∉ values with
      | none | some [] => .ok ()
      | some invalidValue =>
          .error (withPossible (inBackticks "Incorrect argument value given".toList invalidValue)
            values)

/-- The value of an argument, of which there are tokens. -/
def argumentValue (argument : Arg P) (first : Text) (rest tokens : List Text) :
    Except Text (ParsedValue P) :=
  match argument.parse with
  | some parse =>
      let parse := createParse "argument".toList argument.name parse
      if argument.multiple then .allParsed <$> (first :: rest).mapM fun token => parse token tokens
      else .parsed <$> parse first tokens
  | none => .ok (if argument.multiple then .tokens (first :: rest) else .token first)

/-- The values of one argument. -/
def parseArgument (args tokens : List Text) (parsed : ParsedValues P) (argument : Arg P)
    (index : Nat) : Except Text (ParsedValues P) :=
  let inputArgs :=
    if argument.multiple then args.drop index else (args[index]?.filter (!·.isEmpty)).toList
  match inputArgs with
  | [] =>
      if argument.optional then .ok parsed
      else .error (inBackticks "Argument not specified".toList argument.name)
  | first :: rest => do
      checkArgument argument args[index]? (first :: rest) tokens
      let value ← argumentValue argument first rest tokens
      .ok (parsed.set argument.name value)

/-- The values of all arguments. -/
def parseArguments (definitions : Option (List (Arg P))) (args tokens : List Text) :
    Except Text (ParsedValues P) :=
  ((definitions.getD []).zipIdx).foldlM
    (fun parsed (argument, index) => parseArgument args tokens parsed argument index) .empty

/-- The values of one option. -/
def parseOption (options tokens : List Text) (parsed : ParsedValues P) (option : CommandOption P) :
    Except Text (ParsedValues P) :=
  match options.findIdx? (isOption option) with
  | none => .ok parsed
  | some index =>
      if !option.takeValue then .ok (parsed.set option.name .flag)
      else
        match options[index + 1]? with
        | none | some [] => .error (inBackticks "Option value not given".toList option.name)
        | some value => do
            match option.values with
            | none => pure ()
            | some accepted => do
                let values ← accepted
                if value ∉ values then
                  .error (withPossible (inBackticks "Incorrect option value given".toList value)
                    values)
            let result ← match option.parse with
              | some parse =>
                  .parsed <$> createParse "option".toList option.name parse value tokens
              | none => Except.ok (.token value)
            .ok (parsed.set option.name result)

/-- The values of all options. -/
def parseOptions (definitions : Option (List (CommandOption P))) (options tokens : List Text) :
    Except Text (ParsedValues P) :=
  (definitions.getD []).foldlM (parseOption options tokens) .empty

/-! ## Execution -/

/-- The list of subcommands is printed, if there is one. -/
def printSubcommandHelp (command : Command P R) : Except Text Unit :=
  if command.subcommands.isSome then .ok ()
  else .error "Cannot read properties of undefined (reading 'map')".toList

/-- Whether a command takes anything but help. -/
def hasArgsOrOptions (cmd : Command P R) : Bool :=
  !(cmd.args.getD []).isEmpty || 1 < (cmd.options.getD []).length

/-- Whether the next token asks for help. -/
def asksHelp (rest : List Text) : Bool :=
  rest.head? = some "--help".toList ∨ rest.head? = some "-h".toList

/-- The arguments and options among the tokens behind the command. -/
def collect (cmd : Command P R) (rest : List Text) : Except Text (List Text × List Text) :=
  match hasArgsOrOptions cmd, rest with
  | true, nextToken :: others =>
      if nextToken.isEmpty then .ok ([], []) else collectArgsAndOptions cmd nextToken others
  | _, _ => .ok ([], [])

/-- What the handler is called with: `rest` are the tokens behind the command. There is nothing
when the help is printed. -/
def readInput (cmd : Command P R) (tokens rest : List Text) :
    Except Text (Option (ParsedInput P)) := do
  if hasArgsOrOptions cmd && asksHelp rest then .ok none
  else
    let (args, opts) ← collect cmd rest
    let parsedArgs ← parseArguments cmd.args args tokens
    let parsedOpts ← parseOptions cmd.options opts tokens
    .ok (some ⟨List.intercalate [' '] tokens, parsedArgs, parsedOpts⟩)

/-- The end of the loop: `cmd` is the command that the tokens name. -/
def process (topName : Text) (cmd : Command P R) (tokens rest : List Text) : Execution R :=
  match cmd.handle with
  | none => ⟨(printSubcommandHelp cmd).map fun _ => none, []⟩
  | some handle =>
      match readInput cmd tokens rest with
      | .error message => ⟨.error message, []⟩
      | .ok none => ⟨.ok none, []⟩
      | .ok (some input) =>
          let result := handle input
          ⟨result.map some, [.finish topName result]⟩

/-- The turns of the loop that are left. -/
def executeFrom (topName : Text) (tokens : List Text) : Command P R → List Text → Execution R
  | _, [] => ⟨.ok none, []⟩
  | cmd, token :: rest =>
      let cmd := (findSubcommand cmd token).getD cmd
      match cmd.preChecks.mapM id with
      | .error message => ⟨.error message, []⟩
      | .ok _ =>
          -- Early continue if it's not the end of the command
          if rest.head?.any fun nextToken => (findSubcommand cmd nextToken).isSome then
            executeFrom topName tokens cmd rest
          else process topName cmd tokens rest

/-- Execute from the given tokens. -/
def execute (all : List (Command P R)) (tokens : List Text) : Execution R :=
  match tokens with
  | [] | [] :: _ => ⟨.ok none, []⟩
  | inputCmdName :: _ =>
      match all.find? fun cmd => cmd.name = inputCmdName with
      | none => ⟨.error ("Command `".toList ++ italic inputCmdName ++ "` not found.".toList), []⟩
      | some topCmd =>
          let executed := executeFrom topCmd.name tokens topCmd tokens
          { executed with
            events := .start topCmd.name (List.intercalate [' '] tokens) :: executed.events }

/-! ## Start and finish -/

/-- An event that says that the command has finished. -/
def isFinishOf (name : Text) : CommandEvent R → Bool
  | .finish other _ => other = name
  | .start _ _ => false

/-- After each start event there is exactly one finish event of the same command. -/
def Paired (events : List (CommandEvent R)) : Prop :=
  ∀ before name input after, events = before ++ .start name input :: after →
    (after.filter (isFinishOf name)).length = 1

/-- The command that the first token names. -/
def topCommand (all : List (Command P R)) (tokens : List Text) : Option (Command P R) :=
  match tokens with
  | [] | [] :: _ => none
  | inputCmdName :: _ => all.find? fun cmd => cmd.name = inputCmdName

/-- The commands that the tokens name one below the other, and the tokens behind them. -/
def namedCommands : Command P R → List Text → List (Command P R) × List Text
  | _, [] => ([], [])
  | cmd, token :: rest =>
      let cmd := (findSubcommand cmd token).getD cmd
      if rest.head?.any fun nextToken => (findSubcommand cmd nextToken).isSome then
        (cmd :: (namedCommands cmd rest).1, (namedCommands cmd rest).2)
      else ([cmd], rest)

/-- No help is asked for, and the tokens behind the command are arguments and options of it. -/
structure Accepts (cmd : Command P R) (tokens rest : List Text) : Prop where
  noHelp : ¬ (hasArgsOrOptions cmd = true ∧ asksHelp rest = true)
  parses : ∃ args opts, collect cmd rest = .ok (args, opts) ∧
    (parseArguments cmd.args args tokens).isOk = true ∧
    (parseOptions cmd.options opts tokens).isOk = true

/-- The pre-checks of all commands that the remaining tokens name pass, and the last one has a
handler and accepts what is left. -/
structure ReachesHandler (tokens : List Text) (topCmd : Command P R) (remaining : List Text) :
    Prop where
  checked : ∀ cmd ∈ (namedCommands topCmd remaining).1, ∀ check ∈ cmd.preChecks, check = .ok ()
  handles : ∃ cmd ∈ (namedCommands topCmd remaining).1.getLast?, cmd.handle.isSome = true ∧
    Accepts cmd tokens (namedCommands topCmd remaining).2

variable {all : List (Command P R)} {cmd topCmd : Command P R} {tokens rest : List Text}
  {topName : Text}

/-- The input is read when it is accepted. -/
theorem readInput_iff : (∃ input, readInput cmd tokens rest = .ok (some input)) ↔
    Accepts cmd tokens rest := by
  rw [readInput]
  by_cases help : (hasArgsOrOptions cmd && asksHelp rest) = true
  · rw [if_pos help]
    rw [Bool.and_eq_true] at help
    constructor
    · rintro ⟨input, ⟨⟩⟩
    · exact fun accepts => absurd help accepts.noHelp
  · rw [if_neg help]
    rw [Bool.and_eq_true] at help
    constructor
    · rintro ⟨input, read⟩
      refine ⟨help, ?_⟩
      rcases collected : collect cmd rest with _ | ⟨args, opts⟩
      · rw [collected] at read
        cases read
      · rw [collected] at read
        refine ⟨args, opts, rfl, ?_⟩
        simp only [bind, Except.bind] at read
        rcases parsedArgs : parseArguments cmd.args args tokens with _ | _
        · rw [parsedArgs] at read
          cases read
        · rw [parsedArgs] at read
          rcases parsedOpts : parseOptions cmd.options opts tokens with _ | _
          · rw [parsedOpts] at read
            cases read
          · exact ⟨rfl, rfl⟩
    · rintro ⟨-, args, opts, collected, parsedArgs, parsedOpts⟩
      rw [collected]
      simp only [bind, Except.bind]
      rcases args_ : parseArguments cmd.args args tokens with _ | _
      · rw [args_] at parsedArgs
        cases parsedArgs
      · rcases opts_ : parseOptions cmd.options opts tokens with _ | _
        · rw [opts_] at parsedOpts
          cases parsedOpts
        · exact ⟨_, rfl⟩

/-- The checks pass when each does. -/
theorem checks_iff : (∃ results, cmd.preChecks.mapM id = Except.ok results) ↔
    ∀ check ∈ cmd.preChecks, check = .ok () := by
  induction cmd.preChecks with
  | nil => simp [pure, Except.pure]
  | cons check rest ih =>
      rw [List.mapM_cons, List.forall_mem_cons, ← ih]
      cases check with
      | error message => simp [bind, Except.bind]
      | ok value =>
          cases rest.mapM id with
          | error message => simp [bind, Except.bind]
          | ok values => simp [bind, Except.bind, pure, Except.pure]

/-- The loop ends with a handler and its finish event, or without an event. -/
theorem process_events (topName : Text) (cmd : Command P R) (tokens rest : List Text) :
    ((cmd.handle.isSome = true ∧ Accepts cmd tokens rest) ∧
        ∃ result, (process topName cmd tokens rest).events = [.finish topName result]) ∨
      (¬ (cmd.handle.isSome = true ∧ Accepts cmd tokens rest) ∧
        (process topName cmd tokens rest).events = []) := by
  simp only [process, ← readInput_iff]
  cases cmd.handle with
  | none => exact .inr ⟨by simp, rfl⟩
  | some handle =>
      rcases read : readInput cmd tokens rest with _ | _ | input
      · exact .inr ⟨by simp, rfl⟩
      · exact .inr ⟨by simp, rfl⟩
      · exact .inl ⟨⟨rfl, input, rfl⟩, _, rfl⟩

/-- The command itself is among those that the tokens name. -/
theorem namedCommands_ne_nil (topCmd : Command P R) (token : Text) (rest : List Text) :
    (namedCommands topCmd (token :: rest)).1 ≠ [] := by
  simp only [namedCommands]
  split <;> simp

/-- Where the next token names a subcommand, the loop goes on with it. -/
theorem reachesHandler_continue {token nextToken : Text}
    (named : (findSubcommand ((findSubcommand cmd token).getD cmd) nextToken).isSome = true) :
    ReachesHandler tokens cmd (token :: nextToken :: rest) ↔
      (∀ check ∈ ((findSubcommand cmd token).getD cmd).preChecks, check = .ok ()) ∧
        ReachesHandler tokens ((findSubcommand cmd token).getD cmd) (nextToken :: rest) := by
  have path : namedCommands cmd (token :: nextToken :: rest) =
      ((findSubcommand cmd token).getD cmd ::
        (namedCommands ((findSubcommand cmd token).getD cmd) (nextToken :: rest)).1,
        (namedCommands ((findSubcommand cmd token).getD cmd) (nextToken :: rest)).2) := by
    rw [namedCommands, List.head?_cons, Option.any_some, if_pos named]
  have last := List.getLast?_cons_of_ne_nil
    (namedCommands_ne_nil ((findSubcommand cmd token).getD cmd) nextToken rest)
    (x := (findSubcommand cmd token).getD cmd)
  constructor
  · rintro ⟨checked, handles⟩
    rw [path] at checked handles
    rw [last] at handles
    rw [List.forall_mem_cons] at checked
    exact ⟨checked.1, checked.2, handles⟩
  · rintro ⟨here, checked, handles⟩
    refine ⟨?_, ?_⟩
    · rw [path, List.forall_mem_cons]
      exact ⟨here, checked⟩
    · rw [path, last]
      exact handles

/-- At the last command the handler is reached when its checks pass and its input is read. -/
theorem reachesHandler_end {token : Text}
    (named : ¬ rest.head?.any (fun nextToken =>
      (findSubcommand ((findSubcommand cmd token).getD cmd) nextToken).isSome) = true) :
    ReachesHandler tokens cmd (token :: rest) ↔
      (∀ check ∈ ((findSubcommand cmd token).getD cmd).preChecks, check = .ok ()) ∧
        ((findSubcommand cmd token).getD cmd).handle.isSome = true ∧
          Accepts ((findSubcommand cmd token).getD cmd) tokens rest := by
  have path : namedCommands cmd (token :: rest) = ([(findSubcommand cmd token).getD cmd], rest) := by
    rw [namedCommands, if_neg named]
  constructor
  · rintro ⟨checked, handles⟩
    rw [path] at checked handles
    exact ⟨by simpa using checked, by simpa using handles⟩
  · rintro ⟨checked, handles⟩
    refine ⟨?_, ?_⟩
    · rw [path]
      simpa using checked
    · rw [path]
      simpa using handles

/-- What the turns that are left dispatch. -/
theorem executeFrom_events (topName : Text) (tokens : List Text) (cmd : Command P R) (token : Text)
    (rest : List Text) :
    (ReachesHandler tokens cmd (token :: rest) ∧
        ∃ result, (executeFrom topName tokens cmd (token :: rest)).events =
          [.finish topName result]) ∨
      (¬ ReachesHandler tokens cmd (token :: rest) ∧
        (executeFrom topName tokens cmd (token :: rest)).events = []) := by
  induction rest generalizing cmd token with
  | nil =>
      rw [executeFrom, reachesHandler_end (by simp), ← checks_iff]
      cases ((findSubcommand cmd token).getD cmd).preChecks.mapM id with
      | error message => exact .inr ⟨by simp, rfl⟩
      | ok results => simpa using process_events topName ((findSubcommand cmd token).getD cmd) tokens []
  | cons nextToken rest ih =>
      rw [executeFrom]
      by_cases named : (findSubcommand ((findSubcommand cmd token).getD cmd) nextToken).isSome = true
      · rw [reachesHandler_continue named, ← checks_iff]
        cases ((findSubcommand cmd token).getD cmd).preChecks.mapM id with
        | error message => exact .inr ⟨by simp, rfl⟩
        | ok results => simpa [named] using ih ((findSubcommand cmd token).getD cmd) nextToken
      · rw [reachesHandler_end (by simpa using named), ← checks_iff]
        cases ((findSubcommand cmd token).getD cmd).preChecks.mapM id with
        | error message => exact .inr ⟨by simp, rfl⟩
        | ok results => simpa [named] using process_events topName ((findSubcommand cmd token).getD cmd) tokens (nextToken :: rest)

/-- Without events all are paired. -/
theorem paired_nil : Paired ([] : List (CommandEvent R)) := by
  intro before name input after same
  simp at same

/-- A start event with the events of the loop. -/
theorem paired_start {name input : Text} {events : List (CommandEvent R)}
    (events_ : events = [] ∨ ∃ result, events = [.finish name result]) :
    Paired (.start name input :: events) ↔ ∃ result, events = [.finish name result] := by
  constructor
  · intro paired
    refine events_.resolve_left fun none_ => ?_
    have count := paired [] name input events rfl
    simp [none_] at count
  · rintro ⟨result, rfl⟩ before other text after same
    cases before with
    | nil =>
        cases same
        simp [isFinishOf]
    | cons first rest =>
        rw [List.cons_append, List.cons.injEq] at same
        cases rest with
        | nil => simp at same
        | cons second others =>
            have short := congrArg List.length same.2
            simp at short

/-- The events of a call are paired exactly when no command is started or the tokens reach the
handler. -/
theorem paired_iff (all : List (Command P R)) (tokens : List Text) :
    Paired (execute all tokens).events ↔
      ∀ topCmd, topCommand all tokens = some topCmd → ReachesHandler tokens topCmd tokens := by
  rcases tokens with _ | ⟨_ | ⟨char, name⟩, rest⟩
  · exact iff_of_true paired_nil nofun
  · exact iff_of_true paired_nil nofun
  · simp only [execute, topCommand]
    cases found : all.find? fun cmd => cmd.name = char :: name with
    | none => exact iff_of_true paired_nil nofun
    | some topCmd =>
        simp only [Option.some.injEq, forall_eq']
        rcases executeFrom_events topCmd.name ((char :: name) :: rest) topCmd (char :: name) rest with
          ⟨reaches, finished⟩ | ⟨fails, none_⟩
        · exact iff_of_true ((paired_start (.inr finished)).mpr finished) reaches
        · refine iff_of_false (fun paired => ?_) fails
          obtain ⟨result, finished⟩ := (paired_start (.inl none_)).mp paired
          rw [none_] at finished
          cases finished

/-- A command with one argument that is required. -/
def cluster : Command Unit Unit where
  name := "cluster".toList
  preChecks := []
  args := some [⟨"name".toList, false, false, none, none⟩]
  options := some [⟨"help".toList, some ['h'], false, none, none⟩]
  handle := some fun _ => .ok ()
  subcommands := none

/-- Without the argument the start event stands alone. -/
theorem not_always_paired : ¬ ∀ (all : List (Command Unit Unit)) tokens,
    Paired (execute all tokens).events := by
  intro always
  have events : (execute [cluster] ["cluster".toList]).events =
      [.start "cluster".toList "cluster".toList] := by decide
  have count := always [cluster] ["cluster".toList] [] _ _ [] events
  cases count

end PgCommandManager
end Solpg.Client.Utils
