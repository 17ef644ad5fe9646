import Solpg.Playnet.Runtime.Bank

/-!
# The RPC of the playnet

`PgRpc` and the results that it hands to JavaScript. Signatures, hashes and
errors stand for their texts. Checking a signature is left to the other crates,
so a transaction is sent with what they answer.
-/

namespace Solpg.Playnet

open Solpg.Playnet.Runtime

/-- A call that needs the value of another one. A panic ends both. -/
def Runtime.Call.bind {α β : Type} (call : Call α) (next : α → Call β) : Call β :=
  match call with
  | .returned value => next value
  | .panicked => .panicked

instance : Monad Call where
  pure := .returned
  bind := Call.bind

/-- `WasmCommitmentLevel`. -/
inductive WasmCommitmentLevel where
  | processed
  | confirmed
  | finalized
  deriving DecidableEq, Repr

/-- The status of a transaction. -/
structure TransactionStatus where
  confirmationStatus : Option WasmCommitmentLevel
  confirmations : Option Nat
  slot : Nat
  err : Option TransactionError
  deriving DecidableEq, Repr

/-- The result of sending a transaction. -/
structure SendTransactionResult where
  result : Except TransactionError Signature
  deriving DecidableEq

/-- `error()`. -/
def SendTransactionResult.error (sent : SendTransactionResult) : Option TransactionError :=
  match sent.result with
  | .ok _ => none
  | .error error => some error

/-- `unwrap` on the result. -/
def SendTransactionResult.txHash (sent : SendTransactionResult) : Call Signature :=
  match sent.result with
  | .ok txHash => .returned txHash
  | .error _ => .panicked

/-- The result of asking for a transaction. -/
structure GetTransactionResult where
  data : Option TransactionData
  deriving DecidableEq

namespace GetTransactionResult

variable (result : GetTransactionResult)

/-- It should be called before any other data is accessed. -/
def exists_ : Bool := result.data.isSome

/-- `block_time()`, which unwraps. -/
def blockTime : Call (Option Int) :=
  match result.data with
  | some data => .returned data.blockTime
  | none => .panicked

/-- No version: the playnet deserializes legacy transactions only. -/
def version : Call (Option Nat) :=
  match result.data with
  | some _ => .returned none
  | none => .panicked

/-- `meta()`, which unwraps twice. -/
def getMeta : Call ConfirmedTransactionMeta :=
  match result.data with
  | some data =>
      match data.confirmed with
      | some confirmed => .returned confirmed
      | none => .panicked
  | none => .panicked

/-- `transaction()`, which unwraps. -/
def transaction : Call SanitizedTransaction :=
  match result.data with
  | some data => .returned data.tx
  | none => .panicked

end GetTransactionResult

namespace PgRpc

variable (bank : PgBank)

/-- `get_slot`. -/
def getSlot : Nat := bank.getSlot

/-- `get_block_height`. -/
def getBlockHeight : Nat := bank.getBlockHeight

/-- `get_genesis_hash`. -/
def getGenesisHash : Hash := bank.getGenesisHash

/-- The status of a recorded transaction. A `usize` has 32 bits. -/
def signatureStatus (signature : Signature) : Option TransactionStatus :=
  (bank.getTx signature).map fun data =>
    let currentSlot := bank.getSlot
    let confirmations := currentSlot - data.slot
    let confirmationStatus :=
      if confirmations = 0 then .processed
      else if confirmations < 32 then .confirmed
      else .finalized
    { confirmationStatus := some confirmationStatus
      confirmations := some (confirmations % 2 ^ 32)
      slot := data.slot
      err := data.confirmed.bind ConfirmedTransactionMeta.err }

/-- `get_signature_statuses`. -/
def getSignatureStatuses (signatures : List Signature) : List (Option TransactionStatus) :=
  signatures.map (signatureStatus bank)

/-- `get_transaction`. -/
def getTransaction (signature : Signature) : GetTransactionResult := ⟨bank.getTx signature⟩

variable (runtime : ProgramRuntime)

/-- `verified` is what the verification of the signatures and precompiles answers. -/
def sendTransaction (tx : Except TransactionError SanitizedTransaction)
    (verified : Except TransactionError Unit) : Call SendTransactionResult × PgBank :=
  match tx with
  | .error error => (.returned ⟨.error error⟩, bank)
  | .ok sanitizedTx =>
      match verified with
      | .error error => (.returned ⟨.error error⟩, bank)
      | .ok () =>
          match bank.processTx runtime sanitizedTx with
          | (.panicked, bank) => (.panicked, bank)
          | (.returned result, bank) => (.returned ⟨result⟩, bank)

/-- `request_airdrop`. -/
def requestAirdrop (target : Pubkey) (lamports : Nat) : Call SendTransactionResult × PgBank :=
  match bank.airdrop runtime target lamports with
  | (.panicked, bank) => (.panicked, bank)
  | (.returned result, bank) => (.returned ⟨result⟩, bank)

end PgRpc
end Solpg.Playnet
