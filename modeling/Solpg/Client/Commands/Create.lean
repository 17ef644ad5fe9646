import Solpg.Client.Utils.Command

/-!
# Creation of commands

`createCmd`, `createArgs` and `createOptions` of `commands/create.ts`. Options that are created have
a short form of one letter or none.
-/

namespace Solpg.Client.Commands

open Solpg.Std Utils Utils.PgCommandManager

/-- `short` of an option that is declared. -/
inductive Short where
  | undefined
  | bool (value : Bool)
  | text (short : Text)

namespace Short

/-- Whether the option has a short form: the value is truthy. -/
def given : Short → Bool
  | undefined => false
  | bool value => value
  | text short => !short.isEmpty

/-- The value in a template, if it is defined. -/
def shown : Short → Option Text
  | undefined => none
  | bool value => some (if value then "true".toList else "false".toList)
  | text short => some short

end Short

structure OptionParam (P : Type) where
  name : Text
  short : Short
  takeValue : Bool
  values : Option (Except Text (List Text))
  parse : Option (Text → List Text → Except Text P)

structure CommandParam (P R : Type) where
  name : Text
  preChecks : List (Except Text Unit)
  args : Option (List (Arg P))
  options : Option (List (OptionParam P))
  handle : ParsedInput P → Except Text R

variable {P R : Type}

def OptionParam.option (opt : OptionParam P) : CommandOption P where
  name := opt.name
  short := opt.short.shown
  takeValue := opt.takeValue
  values := opt.values
  parse := opt.parse

def helpOption : OptionParam P where
  name := "help".toList
  short := .text ['h']
  takeValue := false
  values := none
  parse := none

/-- Add built-in help option to the commands options list. -/
def addHelpOption (options : Option (List (OptionParam P))) : List (OptionParam P) :=
  options.getD [] ++ [helpOption]

/-- Create a command with a handler, which has no subcommands. -/
def createCmd (cmd : CommandParam P R) : Command P R where
  name := cmd.name
  preChecks := cmd.preChecks
  args := cmd.args
  options := some ((addHelpOption cmd.options).map OptionParam.option)
  handle := some cmd.handle
  subcommands := none

/-! ## Arguments -/

/-- The check of the arguments that are left. -/
def createArgsFrom (lastName : Option Text) : Bool → List (Arg P) → Except Text Unit
  | _, [] => .ok ()
  | isOptional, arg :: rest =>
      if isOptional && !arg.optional then
        .error "Optional arguments must come after required arguments".toList
      else if arg.multiple && some arg.name ≠ lastName then
        .error "A multiple value argument must be the last argument".toList
      else createArgsFrom lastName (isOptional || arg.optional) rest

/-- Create command arguments. -/
def createArgs (args : List (Arg P)) : Except Text (List (Arg P)) :=
  (createArgsFrom (args.getLast?.map Arg.name) false args).map fun _ => args

/-! ## Options -/

def createShort (opt : OptionParam P) : Except Text Text :=
  let short := match opt.short with
    | .text short => some short
    | _ => opt.name.head?.map fun letter => [letter]
  match short with
  | none => .error "Cannot read properties of undefined (reading \x27length\x27)".toList
  | some short =>
      if Text.utf16Length short ≠ 1 then
        .error (inBackticks "Short option must be exactly 1 letter".toList opt.name)
      else .ok short

/-- The loop over the options: the first ones have their shorts normalized. -/
def createOptionsFrom (normalized : List (OptionParam P)) :
    List (OptionParam P) → Except Text (List (OptionParam P))
  | [] => .ok normalized
  | opt :: rest =>
      if !opt.short.given then createOptionsFrom (normalized ++ [opt]) rest
      else do
        let short ← createShort opt
        let others := (normalized ++ opt :: rest).filter fun o => o.name ≠ opt.name
        let taken ← others.anyM fun o =>
          if o.short.given then (fun other => decide (other = short)) <$> createShort o
          else pure false
        if taken then .error (inBackticks "Duplicate short option".toList opt.name)
        else createOptionsFrom (normalized ++ [{ opt with short := .text short }]) rest

/-- Create command options. -/
def createOptions (opts : List (OptionParam P)) : Except Text (List (OptionParam P)) :=
  createOptionsFrom [] opts

/-- The command is created from arguments and options that are. -/
inductive Created : Command P R → Prop where
  | of {cmd : CommandParam P R}
      (args : ∀ args ∈ cmd.args, ∃ declared, createArgs declared = .ok args)
      (options : ∀ options ∈ cmd.options, ∃ declared, createOptions declared = .ok options) :
      Created (createCmd cmd)

/-! ## Short forms -/

/-- A short form has one letter. -/
def Normalized (opt : OptionParam P) : Prop :=
  opt.short.given = true → ∃ letter, opt.short = .text [letter]

theorem createShort_letter {opt : OptionParam P} {short : Text} (created : createShort opt = .ok short) :
    ∃ letter, short = [letter] := by
  have single : ∀ {short : Text}, Text.utf16Length short = 1 → ∃ letter, short = [letter] := by
    intro short length
    have positive : ∀ char : Char, 0 < if char.toNat < 0x10000 then 1 else 2 := by
      intro char
      split <;> omega
    cases short with
    | nil => cases length
    | cons letter rest =>
        cases rest with
        | nil => exact ⟨letter, rfl⟩
        | cons second rest =>
            simp only [Text.utf16Length, List.map_cons, List.sum_cons] at length
            have := positive letter
            have := positive second
            omega
  rw [createShort] at created
  split at created
  · cases created
  · split at created
    · cases created
    · next length =>
        cases created
        exact single (not_not.mp length)

theorem createOptionsFrom_normalized {normalized rest options : List (OptionParam P)}
    (before : ∀ opt ∈ normalized, Normalized opt)
    (created : createOptionsFrom normalized rest = .ok options) :
    ∀ opt ∈ options, Normalized opt := by
  induction rest generalizing normalized with
  | nil =>
      cases created
      exact before
  | cons opt rest ih =>
      rw [createOptionsFrom] at created
      split at created
      · next absent =>
          refine ih (fun other among => ?_) created
          rcases List.mem_append.mp among with among | among
          · exact before other among
          · obtain rfl := List.mem_singleton.mp among
            intro given
            simp [given] at absent
      · cases made : createShort opt with
        | error message =>
            rw [made] at created
            cases created
        | ok short =>
            rw [made] at created
            simp only [bind, Except.bind] at created
            split at created
            · cases created
            · split at created
              · cases created
              · refine ih (fun other among => ?_) created
                rcases List.mem_append.mp among with among | among
                · exact before other among
                · obtain rfl := List.mem_singleton.mp among
                  obtain ⟨letter, rfl⟩ := createShort_letter made
                  exact fun _ => ⟨letter, rfl⟩

theorem createOptions_normalized {declared options : List (OptionParam P)}
    (created : createOptions declared = .ok options) : ∀ opt ∈ options, Normalized opt :=
  createOptionsFrom_normalized (fun _ among => by cases among) created

end Solpg.Client.Commands
