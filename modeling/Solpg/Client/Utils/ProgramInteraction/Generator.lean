import Solpg.Client.Utils.ProgramInteraction.IdlPrimitives
import Solpg.Std.Recursion

/-!
# Generators of values

`generateValue` and `generateProgramAddressFromSeeds`. A generator may refer to an account or an
argument of the instruction, whose generator may refer to the next one, and the seeds of an address
have generators of their own.
-/

namespace Solpg.Client.Utils

open Solpg.Std PgCommon

/-- `InstructionValueGenerator`. A seed is its type and its generator. -/
inductive Generator where
  | custom (value : Text)
  | random (value : Text)
  | currentWallet
  | allWallets (name : Text)
  | fromSeed (seeds : List (IdlType × Generator)) (programId : Generator)
  | currentProgram
  | allPrograms (name : Text)
  | tokenAccounts (name : Text)
  | mintAccounts (name : Text)
  | pyth (name : Text)
  | accounts (name : Text)
  | arguments (name : Text)

structure InstructionArgument where
  name : Text
  type : IdlType
  generator : Generator

structure InstructionAccount where
  name : Text
  generator : Generator

structure InstructionValues where
  accounts : List InstructionAccount
  args : List InstructionArgument

/-- What `generateValue` returns. -/
inductive Generated where
  | text (value : Text)
  | null
  | undefined
  deriving DecidableEq, Repr

/-- What generators without a reference look up, and what is done with seeds: `encode` serializes
what the type of a seed makes of a value. -/
structure Sources (PublicKey : Type) where
  currentWallet : Option Text
  wallets : List (Text × Text)
  currentProgram : Option Text
  programs : List (Text × Text)
  pyth : Text → Except Text Generated
  encode : IdlType → Generated → Except Text Bytes
  newPublicKey : Generated → Except Text PublicKey
  /-- `null` is an object, and no public key is made of it. -/
  findProgramAddress : List Bytes → Option PublicKey → Except Text Text

variable {PublicKey : Type}

/-- A value, an error, or nothing yet when the recursion goes deeper. -/
abbrev GenerateM := ExceptT Text Option

/-- The property of an element that was found, `undefined` having none. -/
def foundKey (method : String) (found : Option (Text × Text)) : Except Text Generated :=
  match found with
  | some entry => .ok (.text entry.2)
  | none => .error (ofUndefined method)

def toPublicKey (sources : Sources PublicKey) : Generated → Except Text (Option PublicKey)
  | .null => .ok none
  | programId => (sources.newPublicKey programId).map some

section

variable (sources : Sources PublicKey) (values : InstructionValues)

def seedBuffer (generate : Generator → GenerateM Generated) (seed : IdlType × Generator) :
    GenerateM Bytes := do
  let value ← generate seed.2
  MonadExcept.ofExcept (sources.encode seed.1 value)

/-- `generateProgramAddressFromSeeds`. -/
def generateProgramAddressFromSeeds (generate : Generator → GenerateM Generated)
    (seeds : List (IdlType × Generator)) (programId : Generated) : GenerateM Generated := do
  let programId ← MonadExcept.ofExcept (toPublicKey sources programId)
  let buffers ← seeds.mapM (seedBuffer sources generate)
  return .text (← MonadExcept.ofExcept (sources.findProgramAddress buffers programId))

/-- The body of `generateValue`, for which `generate` is the function itself. -/
def generateStep (generate : Generator → GenerateM Generated) : Generator → GenerateM Generated
  | .custom value => pure (.text value)
  | .random value => pure (.text value)
  | .currentWallet => MonadExcept.ofExcept (match sources.currentWallet with
      | some key => .ok (.text key)
      | none => .error "Cannot read properties of null (reading \x27publicKey\x27)".toList)
  | .allWallets name => MonadExcept.ofExcept
      (foundKey "publicKey" (sources.wallets.find? fun wallet => wallet.1 = name))
  | .fromSeed seeds programId => do
      generateProgramAddressFromSeeds sources generate seeds (← generate programId)
  | .currentProgram => pure (sources.currentProgram.elim .null .text)
  | .allPrograms name => MonadExcept.ofExcept
      (foundKey "programId" (sources.programs.find? fun program => program.1 = name))
  | .tokenAccounts name => pure (.text name)
  | .mintAccounts name => pure (.text name)
  | .pyth name => MonadExcept.ofExcept (sources.pyth name)
  | .accounts name =>
      match values.accounts.find? fun acc => acc.name = name with
      | some accRef => generate accRef.generator
      | none => throw (ofUndefined "generator")
  | .arguments name =>
      match values.args.find? fun arg => arg.name = name with
      | some argRef => generate argRef.generator
      | none => throw (ofUndefined "generator")

/-- `generateValue`, with a bound on how deep it calls itself. -/
def generateValue (depth : Nat) (generator : Generator) : GenerateM Generated :=
  unroll (β := Except Text Generated) (generateStep sources values) depth generator

end

end Solpg.Client.Utils
