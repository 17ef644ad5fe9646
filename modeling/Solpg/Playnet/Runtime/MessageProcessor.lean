import Solpg.Playnet.Authorization

/-!
# Processing a message

`MessageProcessor::process_message`: each instruction of a message is executed
over the loaded accounts. The system program is the model's own; the checks
around an instruction and all other programs are a `ProgramRuntime`, of which
only two facts are used: a program changes no account keys, and an unbalanced
instruction fails.
-/

namespace Solpg.Playnet.Runtime

open Solpg.Std
open Outcome

/-- How processing a transaction ends early. -/
inductive Failure where
  | error (error : TransactionError)
  | panicked
  deriving DecidableEq, Repr

/-- The instructions that have been processed, the last first, with the accounts
after each. Whatever the runtime counts is a function of it. -/
abbrev Trace := List (InstructionContext × TransactionContext)

/-- The log, the compute units and the return data of a transaction. -/
structure Report where
  logMessages : List String
  executedUnits : Nat
  returnData : Pubkey × List UInt8
  deriving DecidableEq, Repr

/-- The parts of `solana-program-runtime` and of the loaders that the code calls. -/
structure ProgramRuntime where
  sdk : Sdk
  policy : InstructionContext → AccessPolicy
  /-- The checks of `push`. -/
  push : Trace → InstructionContext → TransactionContext → Option RuntimeError
  /-- The checks of `pop`, and the comparison with the accounts before. -/
  pop : Trace → InstructionContext → TransactionContext → TransactionContext → Option RuntimeError
  processBpfLoaderInstruction : Trace → InvokeContext → InstructionContext →
    TransactionContext → Except RuntimeError TransactionContext
  /-- The keys of a transaction context cannot be changed. -/
  keepsKeys : ∀ {trace invokeContext instruction context after},
    processBpfLoaderInstruction trace invokeContext instruction context = .ok after →
      after.accounts.map Prod.fst = context.accounts.map Prod.fst
  /-- An instruction that passes has moved lamports only between its accounts. -/
  balanced : ∀ {trace invokeContext instruction context after},
    processBpfLoaderInstruction trace invokeContext instruction context = .ok after →
      pop trace instruction context after = none →
        ∀ count, (∀ index, instruction.Uses index → index < count) →
          after.total count = context.total count
  report : Trace → Report

/-- `BuiltinProgram`, by its entry point. -/
inductive BuiltinProgram where
  | bpfLoader
  | system
  deriving DecidableEq, Repr

def builtinPrograms : List (Pubkey × BuiltinProgram) :=
  [(bpfLoader, .bpfLoader), (bpfLoaderUpgradeable, .bpfLoader), (systemProgram, .system)]

/-- `store_current_index`: the last two bytes. It panics on shorter data. -/
def storeCurrentIndex (data : List UInt8) (instructionIndex : Nat) : Option (List UInt8) :=
  if 2 ≤ data.length then
    some (data.take (data.length - 2) ++
      [UInt8.ofNat instructionIndex, UInt8.ofNat (instructionIndex / 256)])
  else none

variable (runtime : ProgramRuntime) (message : Message) (sysvarCache : SysvarCache)

def instructionAccounts (instruction : CompiledInstruction) : List InstructionAccount :=
  instruction.accounts.mapIdx fun instructionAccountIndex indexInTransaction =>
    let indexInCallee :=
      ((instruction.accounts.take instructionAccountIndex).idxOf? indexInTransaction).getD
        instructionAccountIndex
    ⟨indexInTransaction, indexInTransaction, indexInCallee, message.isSigner indexInTransaction,
      runtime.sdk.isWritable message indexInTransaction⟩

/-- What an instruction runs with. No feature is active. -/
def invokeContext (instruction : InstructionContext) : InvokeContext where
  sdk := runtime.sdk
  policy := runtime.policy instruction
  blockhash := message.recentBlockhash
  lamportsPerSignature := 0
  systemTransferZeroCheck := false
  mergeNonceErrorIntoSystemError := false
  sysvarCache := sysvarCache

/-- The first program account of an instruction. -/
def rootAccount (instruction : InstructionContext) (context : TransactionContext) :
    Except InstructionError (Pubkey × Account) :=
  match instruction.programAccounts.head?.bind (context.accounts[·]?) with
  | some root => .ok root
  | none => .error .unsupportedProgramId

/-- The builtin program that the root of a chain names: a native one names itself. -/
def builtinOf (root : Pubkey × Account) : Option BuiltinProgram :=
  builtinPrograms.lookup (if root.2.owner = nativeLoader then root.1 else root.2.owner)

/-- `process_executable_chain`. -/
def processExecutableChain (trace : Trace) (instruction : InstructionContext)
    (context : TransactionContext) : Except InstructionError TransactionContext := do
  let root ← rootAccount instruction context
  match builtinOf root with
  | some .system =>
      processSystemInstruction (invokeContext runtime message sysvarCache instruction) instruction
        context
  | some .bpfLoader =>
      (runtime.processBpfLoaderInstruction trace
        (invokeContext runtime message sysvarCache instruction) instruction context).mapError
          .runtime
  | none => .error .unsupportedProgramId

/-- A precompile is only pushed and popped. -/
def execute (isPrecompile : Bool) (trace : Trace) (instruction : InstructionContext)
    (context : TransactionContext) : Except InstructionError TransactionContext :=
  if isPrecompile then .ok context
  else processExecutableChain runtime message sysvarCache trace instruction context

/-- The result of a check of the runtime. -/
def passes (check : Option RuntimeError) : Except InstructionError Unit :=
  match check with
  | some error => .error (.runtime error)
  | none => .ok ()

/-- `InvokeContext::process_instruction`, and `push` and `pop` around a precompile. -/
def processInstruction (isPrecompile : Bool) (trace : Trace) (instruction : InstructionContext)
    (context : TransactionContext) : Except InstructionError TransactionContext := do
  passes (runtime.push trace instruction context)
  let after ← execute runtime message sysvarCache isPrecompile trace instruction context
  passes (runtime.pop trace instruction context after)
  return after

/-- Fix up the special instructions key, if it is among the accounts. -/
def storeInstructionIndex (instructionIndex : Nat) (context : TransactionContext) :
    Except Failure TransactionContext :=
  match context.findIndexOfAccount Sysvar.instructions with
  | none => .ok context
  | some accountIndex =>
      match context.accounts[accountIndex]? with
      | none => .error (.error .invalidAccountIndex)
      | some (_, account) =>
          match storeCurrentIndex account.data instructionIndex with
          | some data => .ok (context.put accountIndex { account with data })
          | none => .error .panicked

/-- The loop over the instructions of a message. -/
def processInstructions (trace : Trace) (instructionIndex : Nat) :
    List (CompiledInstruction × List Nat) → TransactionContext →
      Except Failure (TransactionContext × Trace)
  | [], context => .ok (context, trace)
  | (instruction, programIndices) :: rest, context => do
      let programId := message.accountKeys[instruction.programIdIndex]?
      let isPrecompile := programId.any runtime.sdk.isPrecompile
      let context ← storeInstructionIndex instructionIndex context
      let current : InstructionContext :=
        ⟨programIndices, instructionAccounts runtime message instruction, instruction.data⟩
      let after ← (processInstruction runtime message sysvarCache isPrecompile trace current
        context).mapError fun error =>
          .error (.instructionError (instructionIndex % 256) error)
      processInstructions ((current, after) :: trace) (instructionIndex + 1) rest after

def processMessage (programIndices : List (List Nat)) (context : TransactionContext) :
    Except Failure (TransactionContext × Trace) :=
  processInstructions runtime message sysvarCache [] 0 (message.instructions.zip programIndices)
    context

end Solpg.Playnet.Runtime
