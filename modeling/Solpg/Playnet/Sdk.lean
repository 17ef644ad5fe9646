import Mathlib.Algebra.GroupWithZero.Nat
import Mathlib.Data.List.Basic
import Mathlib.Data.Vector.Basic

/-!
# Accounts, messages and transactions

The data types of `solana-sdk` that the playnet runtime works on, and the
identifiers that its code compares with. What the runtime calls and does not
define (hashing, signing, serialized forms of other programs) is `Sdk`.
-/

namespace Solpg.Playnet

/-- A public key. -/
structure Pubkey where
  bytes : Vector UInt8 32
  deriving DecidableEq, Repr

/-- A hash. -/
structure Hash where
  bytes : Vector UInt8 32
  deriving DecidableEq, Repr

/-- A signature. -/
structure Signature where
  bytes : Vector UInt8 64
  deriving DecidableEq, Repr

/-- `Pubkey::default`. -/
def Pubkey.default : Pubkey := ⟨Vector.replicate 32 0⟩

/-- An account. -/
structure Account where
  lamports : Nat
  data : List UInt8
  owner : Pubkey
  executable : Bool
  rentEpoch : Nat
  deriving DecidableEq, Repr

/-- `Account::default`. -/
def Account.default : Account := ⟨0, [], Pubkey.default, false, 0⟩

/-- `Account::new`, with zeroed data. -/
def Account.new (lamports space : Nat) (owner : Pubkey) : Account :=
  ⟨lamports, List.replicate space 0, owner, false, 0⟩

/-! ## Identifiers -/

/-- The id of the system program. -/
def systemProgram : Pubkey := Pubkey.default

/-- The id of the native loader. -/
def nativeLoader : Pubkey := ⟨#v[
  5, 135, 132, 191, 20, 139, 164, 40, 47, 176, 18, 87, 72, 136, 169, 241,
  83, 160, 125, 173, 247, 101, 192, 69, 92, 154, 151, 3, 128, 0, 0, 0]⟩

/-- The id of the BPF loader. -/
def bpfLoader : Pubkey := ⟨#v[
  2, 168, 246, 145, 78, 136, 161, 110, 57, 90, 225, 40, 148, 143, 250, 105,
  86, 147, 55, 104, 24, 221, 71, 67, 82, 33, 243, 198, 0, 0, 0, 0]⟩

/-- The id of the upgradeable BPF loader. -/
def bpfLoaderUpgradeable : Pubkey := ⟨#v[
  2, 168, 246, 145, 78, 136, 161, 176, 226, 16, 21, 62, 247, 99, 174, 43,
  0, 194, 185, 61, 22, 193, 36, 210, 192, 83, 122, 16, 4, 128, 0, 0]⟩

namespace Sysvar

/-- The owner of sysvar accounts. -/
def id : Pubkey := ⟨#v[
  6, 167, 213, 23, 24, 117, 247, 41, 199, 61, 147, 64, 143, 33, 97, 32,
  6, 126, 216, 140, 118, 224, 140, 40, 127, 193, 148, 96, 0, 0, 0, 0]⟩

/-- The id of the clock sysvar. -/
def clock : Pubkey := ⟨#v[
  6, 167, 213, 23, 24, 199, 116, 201, 40, 86, 99, 152, 105, 29, 94, 182,
  139, 94, 184, 163, 155, 75, 109, 92, 115, 85, 91, 33, 0, 0, 0, 0]⟩

/-- The id of the rent sysvar. -/
def rent : Pubkey := ⟨#v[
  6, 167, 213, 23, 25, 44, 92, 81, 33, 140, 201, 76, 61, 74, 241, 127,
  88, 218, 238, 8, 155, 161, 253, 68, 227, 219, 217, 138, 0, 0, 0, 0]⟩

/-- The id of the instructions sysvar. -/
def instructions : Pubkey := ⟨#v[
  6, 167, 213, 23, 24, 123, 209, 102, 53, 218, 212, 4, 85, 253, 194, 192,
  193, 36, 198, 143, 33, 86, 117, 165, 219, 186, 203, 95, 8, 0, 0, 0]⟩

/-- The id of the recent blockhashes sysvar. -/
def recentBlockhashes : Pubkey := ⟨#v[
  6, 167, 213, 23, 25, 44, 86, 142, 224, 138, 132, 95, 115, 210, 151, 136,
  207, 3, 92, 49, 69, 178, 26, 179, 68, 216, 6, 46, 169, 64, 0, 0]⟩

end Sysvar

/-! ## Errors -/

/-- What the permission checks of a `BorrowedAccount` answer. -/
inductive AccessError where
  | modifiedProgramId
  | externalAccountLamportSpend
  | externalAccountDataModified
  | readonlyLamportChange
  | readonlyDataModified
  | executableLamportChange
  | executableDataModified
  | accountDataSizeChanged
  | invalidRealloc
  | maxAccountsDataSizeExceeded
  deriving DecidableEq, Repr

/-- What the bookkeeping around an instruction and the other programs answer. -/
inductive RuntimeError where
  | access (error : AccessError)
  | unbalancedInstruction
  | callDepth
  | reentrancyNotAllowed
  | maxInstructionTraceLengthExceeded
  | program (code : Nat)
  deriving DecidableEq, Repr

/-- The errors of an instruction that the code returns. -/
inductive InstructionError where
  | invalidArgument
  | invalidInstructionData
  | invalidAccountData
  | accountDataTooSmall
  | insufficientFunds
  | missingRequiredSignature
  | notEnoughAccountKeys
  | missingAccount
  | arithmeticOverflow
  | invalidAccountOwner
  | maxSeedLengthExceeded
  | invalidSeeds
  | illegalOwner
  | unsupportedSysvar
  | unsupportedProgramId
  | custom (code : Nat)
  | access (error : AccessError)
  | runtime (error : RuntimeError)
  deriving DecidableEq, Repr

/-- The errors of a transaction that the code returns. -/
inductive TransactionError where
  | accountNotFound
  | programAccountNotFound
  | invalidAccountForFee
  | insufficientFundsForFee
  | invalidAccountIndex
  | invalidProgramForExecution
  | invalidWritableAccount
  | callChainTooDeep
  | missingSignatureForFee
  | sanitizeFailure
  | alreadyProcessed
  | instructionError (index : Nat) (error : InstructionError)
  deriving DecidableEq, Repr

/-! ## Messages -/

/-- `MessageHeader`. -/
structure MessageHeader where
  numRequiredSignatures : Nat
  numReadonlySignedAccounts : Nat
  numReadonlyUnsignedAccounts : Nat
  deriving DecidableEq, Repr

/-- `CompiledInstruction`. -/
structure CompiledInstruction where
  programIdIndex : Nat
  accounts : List Nat
  data : List UInt8
  deriving DecidableEq, Repr

/-- `Message`. -/
structure Message where
  header : MessageHeader
  accountKeys : List Pubkey
  recentBlockhash : Hash
  instructions : List CompiledInstruction
  deriving DecidableEq, Repr

/-- `Message::sanitize`. It does not compare account keys with each other. -/
structure Message.Sanitized (message : Message) : Prop where
  signingArea : message.header.numRequiredSignatures +
    message.header.numReadonlyUnsignedAccounts ≤ message.accountKeys.length
  feePayer : message.header.numReadonlySignedAccounts < message.header.numRequiredSignatures
  programs : ∀ instruction ∈ message.instructions,
    instruction.programIdIndex < message.accountKeys.length ∧ instruction.programIdIndex ≠ 0
  accounts : ∀ instruction ∈ message.instructions, ∀ index ∈ instruction.accounts,
    index < message.accountKeys.length

instance (message : Message) : Decidable message.Sanitized :=
  decidable_of_iff
    ((message.header.numRequiredSignatures + message.header.numReadonlyUnsignedAccounts ≤
        message.accountKeys.length) ∧
      (message.header.numReadonlySignedAccounts < message.header.numRequiredSignatures) ∧
      (∀ instruction ∈ message.instructions,
        instruction.programIdIndex < message.accountKeys.length ∧
          instruction.programIdIndex ≠ 0) ∧
      (∀ instruction ∈ message.instructions, ∀ index ∈ instruction.accounts,
        index < message.accountKeys.length))
    ⟨fun ⟨a, b, c, d⟩ => ⟨a, b, c, d⟩, fun ⟨a, b, c, d⟩ => ⟨a, b, c, d⟩⟩

namespace Message

variable (message : Message)

/-- `is_signer`. -/
def isSigner (index : Nat) : Bool := index < message.header.numRequiredSignatures

/-- `is_key_called_as_program`. -/
def isKeyCalledAsProgram (index : Nat) : Bool :=
  message.instructions.any fun instruction => instruction.programIdIndex == index

/-- `is_key_passed_to_program`. -/
def isKeyPassedToProgram (index : Nat) : Bool :=
  message.instructions.any fun instruction => instruction.accounts.contains index

/-- `is_non_loader_key`. -/
def isNonLoaderKey (index : Nat) : Bool :=
  !message.isKeyCalledAsProgram index || message.isKeyPassedToProgram index

/-- `is_upgradeable_loader_present`. -/
def isUpgradeableLoaderPresent : Bool := message.accountKeys.contains bpfLoaderUpgradeable

end Message

/-- A `SanitizedTransaction`. Its first signature identifies it. -/
structure SanitizedTransaction where
  message : Message
  signatures : List Signature
  sanitized : message.Sanitized
  signed : signatures.length = message.header.numRequiredSignatures
  deriving DecidableEq

/-- There is a first signature: the fee payer signs. -/
theorem SanitizedTransaction.signatures_ne_nil (tx : SanitizedTransaction) : tx.signatures ≠ [] := by
  intro none
  have payer := tx.sanitized.feePayer
  have count := tx.signed
  rw [none, List.length_nil] at count
  omega

/-- `SanitizedTransaction::signature`. -/
def SanitizedTransaction.signature (tx : SanitizedTransaction) : Signature :=
  tx.signatures.head tx.signatures_ne_nil

/-- `SanitizedTransaction::try_create`. -/
def SanitizedTransaction.tryCreate (message : Message) (signatures : List Signature) :
    Except TransactionError SanitizedTransaction :=
  if valid : message.Sanitized ∧ signatures.length = message.header.numRequiredSignatures then
    .ok ⟨message, signatures, valid.1, valid.2⟩
  else .error .sanitizeFailure

/-! ## System instructions -/

/-- `SystemInstruction`. -/
inductive SystemInstruction where
  | createAccount (lamports space : Nat) (owner : Pubkey)
  | assign (owner : Pubkey)
  | transfer (lamports : Nat)
  | createAccountWithSeed (base : Pubkey) (seed : String) (lamports space : Nat) (owner : Pubkey)
  | advanceNonceAccount
  | withdrawNonceAccount (lamports : Nat)
  | initializeNonceAccount (authorized : Pubkey)
  | authorizeNonceAccount (nonceAuthority : Pubkey)
  | allocate (space : Nat)
  | allocateWithSeed (base : Pubkey) (seed : String) (space : Nat) (owner : Pubkey)
  | assignWithSeed (base : Pubkey) (seed : String) (owner : Pubkey)
  | transferWithSeed (lamports : Nat) (fromSeed : String) (fromOwner : Pubkey)
  | upgradeNonceAccount
  deriving DecidableEq, Repr

/-- `PubkeyError`. -/
inductive PubkeyError where
  | maxSeedLengthExceeded
  | invalidSeeds
  | illegalOwner
  deriving DecidableEq, Repr

/-- `Keypair`. -/
structure Keypair where
  pubkey : Pubkey
  secret : List UInt8
  deriving DecidableEq, Repr

/-- The functions that the runtime calls in other crates. -/
structure Sdk where
  /-- `Hasher`. -/
  hash : List UInt8 → Hash
  createWithSeed : Pubkey → String → Pubkey → Except PubkeyError Pubkey
  /-- `limited_deserialize`, and the inverse that builds instruction data. -/
  deserialize : List UInt8 → Option SystemInstruction
  serialize : SystemInstruction → List UInt8
  isBuiltinKeyOrSysvar : Pubkey → Bool
  isPrecompile : Pubkey → Bool
  /-- The program data address of an account whose state is `Program`. -/
  programdataAddress : List UInt8 → Option Pubkey
  constructInstructionsData : Message → List UInt8
  /-- `Keypair::sign_message` of the serialized message. -/
  signMessage : Keypair → Message → Signature
  /-- `Rent::default().minimum_balance`. -/
  minimumBalance : Nat → Nat
  /-- `Clock::default` and `Rent::default`, serialized. -/
  clockData : List UInt8
  rentData : List UInt8

/-- `Message::is_writable`. -/
def Sdk.isWritable (sdk : Sdk) (message : Message) (index : Nat) : Bool :=
  (index < message.header.numRequiredSignatures - message.header.numReadonlySignedAccounts ||
    (message.header.numRequiredSignatures ≤ index &&
      index < message.accountKeys.length - message.header.numReadonlyUnsignedAccounts)) &&
  !((message.accountKeys[index]?).any sdk.isBuiltinKeyOrSysvar) &&
  !(message.isKeyCalledAsProgram index && !message.isUpgradeableLoaderPresent)

end Solpg.Playnet
