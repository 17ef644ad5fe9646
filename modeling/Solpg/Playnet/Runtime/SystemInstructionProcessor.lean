import Solpg.Playnet.Runtime.NonceKeyedAccount

/-!
# The system program

`process_system_instruction` and its helpers. Each helper is specified by what
it may do to the accounts and by the signature that it has checked.
-/

namespace Solpg.Playnet.Runtime

open Solpg.Std
open Outcome

/-! ## Errors -/

/-- The error of an instruction for that of a key. -/
def pubkeyError : PubkeyError → InstructionError
  | .maxSeedLengthExceeded => .maxSeedLengthExceeded
  | .invalidSeeds => .invalidSeeds
  | .illegalOwner => .illegalOwner

/-- 10 MiB. -/
def maxPermittedDataLength : Nat := 10 * 1024 * 1024

variable (invokeContext : InvokeContext)

/-! ## Sysvars -/

/-- `check_sysvar_account`. -/
def checkSysvarAccount (sysvar : Pubkey) (instruction : InstructionContext)
    (context : TransactionContext) (index : Nat) : Except InstructionError Unit := do
  let key ← instruction.getKey context index
  require (key = sysvar) .invalidArgument

/-- A sysvar of the cache, if it is there. -/
def cached {α : Type} (sysvar : Option α) : Except InstructionError α :=
  match sysvar with
  | some value => .ok value
  | none => .error .unsupportedSysvar

/-- `get_sysvar_with_account_check::recent_blockhashes`. -/
def recentBlockhashes (instruction : InstructionContext) (context : TransactionContext)
    (index : Nat) : Except InstructionError (List Hash) := do
  checkSysvarAccount Sysvar.recentBlockhashes instruction context index
  cached invokeContext.sysvarCache.recentBlockhashes

/-- `get_sysvar_with_account_check::rent`. -/
def rentSysvar (instruction : InstructionContext) (context : TransactionContext) (index : Nat) :
    Except InstructionError Rent := do
  checkSysvarAccount Sysvar.rent instruction context index
  cached invokeContext.sysvarCache.rent

/-! ## Addresses -/

/-- An address that may have been generated from a seed. -/
structure Address where
  address : Pubkey
  base : Option Pubkey
  deriving DecidableEq, Repr

namespace Address

/-- `Address::is_signer`. -/
def isSigner (address : Address) (signers : List Pubkey) : Bool :=
  match address.base with
  | some base => signers.contains base
  | none => signers.contains address.address

/-- `Address::create`. -/
def create (address : Pubkey) (withSeed : Option (Pubkey × String × Pubkey)) :
    Except InstructionError Address :=
  match withSeed with
  | some (base, seed, owner) => do
      let addressWithSeed ← (invokeContext.sdk.createWithSeed base seed owner).mapError pubkeyError
      require (address = addressWithSeed) SystemError.addressWithSeedMismatch.toInstructionError
      return ⟨address, some base⟩
  | none => .ok ⟨address, none⟩

end Address

/-! ## Helpers -/

/-- `allocate`. -/
def allocate (account : BorrowedAccount) (address : Address) (space : Nat)
    (signers : List Pubkey) : Except InstructionError BorrowedAccount := do
  require (address.isSigner signers) .missingRequiredSignature
  require (account.account.data = [] ∧ account.account.owner = systemProgram)
    SystemError.accountAlreadyInUse.toInstructionError
  require (space ≤ maxPermittedDataLength)
    SystemError.invalidAccountDataLength.toInstructionError
  account.setDataLength invokeContext.policy space

/-- `assign`. -/
def assign (account : BorrowedAccount) (address : Address) (owner : Pubkey)
    (signers : List Pubkey) : Except InstructionError BorrowedAccount :=
  -- No work to do, just return.
  if account.account.owner = owner then .ok account
  else do
    require (address.isSigner signers) .missingRequiredSignature
    account.setOwner invokeContext.policy owner

/-- `allocate_and_assign`. -/
def allocateAndAssign (target : BorrowedAccount) (toAddress : Address) (space : Nat)
    (owner : Pubkey) (signers : List Pubkey) : Except InstructionError BorrowedAccount := do
  let target ← allocate invokeContext target toAddress space signers
  assign invokeContext target toAddress owner signers

variable (instruction : InstructionContext) (context : TransactionContext)

/-- `transfer_verified`. -/
def transferVerified (fromAccountIndex toAccountIndex lamports : Nat) :
    Except InstructionError TransactionContext := do
  let source ← instruction.tryBorrowInstructionAccount context fromAccountIndex
  require (source.account.data = []) .invalidArgument
  require (lamports ≤ source.account.lamports)
    SystemError.resultWithNegativeLamports.toInstructionError
  moveLamports invokeContext instruction context source toAccountIndex lamports

/-- `transfer`. -/
def transfer (fromAccountIndex toAccountIndex lamports : Nat) :
    Except InstructionError TransactionContext :=
  if !invokeContext.systemTransferZeroCheck && lamports == 0 then .ok context
  else do
    let signs ← instruction.isInstructionAccountSigner fromAccountIndex
    require signs .missingRequiredSignature
    transferVerified invokeContext instruction context fromAccountIndex toAccountIndex lamports

/-- `transfer_with_seed`. -/
def transferWithSeed (fromAccountIndex fromBaseAccountIndex : Nat) (fromSeed : String)
    (fromOwner : Pubkey) (toAccountIndex lamports : Nat) :
    Except InstructionError TransactionContext :=
  if !invokeContext.systemTransferZeroCheck && lamports == 0 then .ok context
  else do
    let signs ← instruction.isInstructionAccountSigner fromBaseAccountIndex
    require signs .missingRequiredSignature
    let base ← instruction.getKey context fromBaseAccountIndex
    let addressFromSeed ←
      (invokeContext.sdk.createWithSeed base fromSeed fromOwner).mapError pubkeyError
    let fromKey ← instruction.getKey context fromAccountIndex
    require (fromKey = addressFromSeed) SystemError.addressWithSeedMismatch.toInstructionError
    transferVerified invokeContext instruction context fromAccountIndex toAccountIndex lamports

/-- `create_account`. -/
def createAccount (fromAccountIndex toAccountIndex : Nat) (toAddress : Address)
    (lamports space : Nat) (owner : Pubkey) (signers : List Pubkey) :
    Except InstructionError TransactionContext := do
  let target ← instruction.tryBorrowInstructionAccount context toAccountIndex
  require (target.account.lamports = 0) SystemError.accountAlreadyInUse.toInstructionError
  let target ← allocateAndAssign invokeContext target toAddress space owner signers
  transfer invokeContext instruction (context.drop target) fromAccountIndex toAccountIndex lamports

/-! ## The instructions -/

/-- `limited_deserialize`. -/
def limitedDeserialize (data : List UInt8) : Except InstructionError SystemInstruction :=
  match invokeContext.sdk.deserialize data with
  | some variant => .ok variant
  | none => .error .invalidInstructionData

/-- The arms of `process_system_instruction`. -/
def processVariant (signers : List Pubkey) :
    SystemInstruction → Except InstructionError TransactionContext
  | .createAccount lamports space owner => do
      instruction.checkNumberOfInstructionAccounts 2
      let toAddress ← Address.create invokeContext (← instruction.getKey context 1) none
      createAccount invokeContext instruction context 0 1 toAddress lamports space owner signers
  | .createAccountWithSeed base seed lamports space owner => do
      instruction.checkNumberOfInstructionAccounts 2
      let toAddress ← Address.create invokeContext (← instruction.getKey context 1)
        (some (base, seed, owner))
      createAccount invokeContext instruction context 0 1 toAddress lamports space owner signers
  | .assign owner => do
      instruction.checkNumberOfInstructionAccounts 1
      let account ← instruction.tryBorrowInstructionAccount context 0
      let address ← Address.create invokeContext (← instruction.getKey context 0) none
      let account ← assign invokeContext account address owner signers
      return context.drop account
  | .transfer lamports => do
      instruction.checkNumberOfInstructionAccounts 2
      transfer invokeContext instruction context 0 1 lamports
  | .transferWithSeed lamports fromSeed fromOwner => do
      instruction.checkNumberOfInstructionAccounts 3
      transferWithSeed invokeContext instruction context 0 1 fromSeed fromOwner 2 lamports
  | .advanceNonceAccount => do
      instruction.checkNumberOfInstructionAccounts 1
      let account ← instruction.tryBorrowInstructionAccount context 0
      let blockhashes ← recentBlockhashes invokeContext instruction context 1
      require (blockhashes ≠ []) (.custom NonceError.noRecentBlockhashes.code)
      let account ← advanceNonceAccount invokeContext account signers
      return context.drop account
  | .withdrawNonceAccount lamports => do
      instruction.checkNumberOfInstructionAccounts 2
      let _blockhashes ← recentBlockhashes invokeContext instruction context 2
      let rent ← rentSysvar invokeContext instruction context 3
      withdrawNonceAccount invokeContext 0 lamports 1 rent signers instruction context
  | .initializeNonceAccount authorized => do
      instruction.checkNumberOfInstructionAccounts 1
      let account ← instruction.tryBorrowInstructionAccount context 0
      let blockhashes ← recentBlockhashes invokeContext instruction context 1
      require (blockhashes ≠ []) (.custom NonceError.noRecentBlockhashes.code)
      let rent ← rentSysvar invokeContext instruction context 2
      let account ← initializeNonceAccount invokeContext account authorized rent
      return context.drop account
  | .authorizeNonceAccount nonceAuthority => do
      instruction.checkNumberOfInstructionAccounts 1
      let account ← instruction.tryBorrowInstructionAccount context 0
      let account ← authorizeNonceAccount invokeContext account nonceAuthority signers
      return context.drop account
  | .upgradeNonceAccount => do
      instruction.checkNumberOfInstructionAccounts 1
      let account ← instruction.tryBorrowInstructionAccount context 0
      require (account.account.owner = systemProgram) .invalidAccountOwner
      require account.isWritable .invalidArgument
      let versions ← getState account
      match versions.upgrade invokeContext.sdk with
      | none => .error .invalidArgument
      | some versions => do
          let account ← account.setState invokeContext.policy (Versions.codec.write versions)
          return context.drop account
  | .allocate space => do
      instruction.checkNumberOfInstructionAccounts 1
      let account ← instruction.tryBorrowInstructionAccount context 0
      let address ← Address.create invokeContext (← instruction.getKey context 0) none
      let account ← allocate invokeContext account address space signers
      return context.drop account
  | .allocateWithSeed base seed space owner => do
      instruction.checkNumberOfInstructionAccounts 1
      let account ← instruction.tryBorrowInstructionAccount context 0
      let address ← Address.create invokeContext (← instruction.getKey context 0)
        (some (base, seed, owner))
      let account ← allocateAndAssign invokeContext account address space owner signers
      return context.drop account
  | .assignWithSeed base seed owner => do
      instruction.checkNumberOfInstructionAccounts 1
      let account ← instruction.tryBorrowInstructionAccount context 0
      let address ← Address.create invokeContext (← instruction.getKey context 0)
        (some (base, seed, owner))
      let account ← assign invokeContext account address owner signers
      return context.drop account

/-- `process_instruction`. -/
def processSystemInstruction : Except InstructionError TransactionContext := do
  let variant ← limitedDeserialize invokeContext instruction.instructionData
  let signers ← instruction.getSigners context
  processVariant invokeContext instruction context signers variant

/-- `SystemAccountKind`. -/
inductive SystemAccountKind where
  | system
  | nonce
  deriving DecidableEq, Repr

/-- `get_system_account_kind`. -/
def getSystemAccountKind (account : Account) : Option SystemAccountKind :=
  if account.owner = systemProgram then
    if account.data = [] then some .system
    else if account.data.length = NonceState.size then
      match (Versions.codec.deserialize account.data).map Versions.state with
      | some (.initialized _) => some .nonce
      | _ => none
    else none
  else none

end Solpg.Playnet.Runtime
