import Solpg.Playnet.Atomicity
import Solpg.Playnet.Rpc
import Solpg.Std.ShortVec
import Solpg.Std.Text

/-!
# Transactions on their way to the playnet

`PgSerde` writes what `PgWeb3` has parsed as the JSON that `serde` derives for the
structures of `solana_sdk`, and the playnet reads it. `short_vec` allows for
lengths of 16 bits and `PgSerde` writes two bytes at most, so what arrives is the
transaction that was sent unless a vector has 2 ^ 14 elements or more, and then
nothing arrives.
-/

namespace Solpg.Playnet

open Solpg.Std

/-! ## The structures of `solana_sdk` -/

/-- The deserialized header, three bytes. -/
def readHeader (value : NatJson) : Option MessageHeader := do
  let numRequiredSignatures ← (value.field "numRequiredSignatures").bind NatJson.byte
  let numReadonlySignedAccounts ← (value.field "numReadonlySignedAccounts").bind NatJson.byte
  let numReadonlyUnsignedAccounts ← (value.field "numReadonlyUnsignedAccounts").bind NatJson.byte
  return { numRequiredSignatures, numReadonlySignedAccounts, numReadonlyUnsignedAccounts }

/-- The deserialized instruction. -/
def readInstruction (value : NatJson) : Option CompiledInstruction := do
  let programIdIndex ← (value.field "programIdIndex").bind NatJson.byte
  let accounts ← (value.field "accounts").bind (NatJson.shortVec NatJson.byte)
  let data ← (value.field "data").bind (NatJson.shortVec NatJson.byte)
  return { programIdIndex, accounts, data := data.map UInt8.ofNat }

/-- The deserialized key, 32 bytes. -/
def readPubkey (value : NatJson) : Option Pubkey := (value.byteArray 32).map Pubkey.mk

/-- The deserialized signature, 64 bytes. -/
def readSignature (value : NatJson) : Option Signature := (value.byteArray 64).map Signature.mk

/-- The deserialized message. -/
def readMessage (value : NatJson) : Option Message := do
  let header ← (value.field "header").bind readHeader
  let accountKeys ← (value.field "accountKeys").bind (NatJson.shortVec readPubkey)
  let recentBlockhash ← (value.field "recentBlockhash").bind (NatJson.byteArray 32)
  let instructions ← (value.field "instructions").bind (NatJson.shortVec readInstruction)
  return { header, accountKeys, recentBlockhash := ⟨recentBlockhash⟩, instructions }

/-- The deserialized transaction. -/
def readTransaction (value : NatJson) : Option (List Signature × Message) := do
  let signatures ← (value.field "signatures").bind (NatJson.shortVec readSignature)
  let message ← (value.field "message").bind readMessage
  return (signatures, message)

/-- `get_sanitized_tx_from_serialized_tx`: what cannot be read is unwrapped. -/
def getSanitizedTxFromSerializedTx (serializedTx : NatJson) :
    Runtime.Call (Except TransactionError SanitizedTransaction) :=
  match readTransaction serializedTx with
  | some (signatures, message) => .returned (SanitizedTransaction.tryCreate message signatures)
  | none => .panicked

end Solpg.Playnet

namespace Solpg.Client.Utils

open Solpg.Std Solpg.Playnet Solpg.Playnet.Runtime

/-! ## What is sent -/

namespace PgWeb3

/-- The data is a text in base 58. -/
structure CompiledInstruction where
  programIdIndex : Nat
  accounts : List Nat
  data : Text

/-- A message of the web3 library. -/
structure Message where
  header : MessageHeader
  accountKeys : List Pubkey
  recentBlockhash : Text
  instructions : List CompiledInstruction

/-- A signer that has not signed has `null` for a signature. The message is what
`compileMessage` returns. -/
structure Transaction where
  signatures : List (Option Signature)
  message : Message

end PgWeb3

namespace PgSerde

section

variable (decodeBinary : Text → List UInt8)

/-- The instruction in the playnet. -/
def instructionOf (ix : PgWeb3.CompiledInstruction) : CompiledInstruction where
  programIdIndex := ix.programIdIndex
  accounts := ix.accounts
  data := decodeBinary ix.data

/-- The message in the playnet is the one that is sent. -/
structure Represents (msg : PgWeb3.Message) (message : Message) : Prop where
  header : message.header = msg.header
  accountKeys : message.accountKeys = msg.accountKeys
  recentBlockhash : message.recentBlockhash.bytes.toList = decodeBinary msg.recentBlockhash
  instructions : message.instructions = msg.instructions.map (instructionOf decodeBinary)

/-- What two bytes of `short_vec` can say. -/
def Short (count : Nat) : Prop := count < 2 ^ 14

instance (count : Nat) : Decidable (Short count) := inferInstanceAs (Decidable (count < 2 ^ 14))

end

/-! ## Vectors -/

section Reading

variable {decodeBinary : Text → List UInt8}

section Vectors

variable {α β : Type} {write : α → NatJson} {read : NatJson → Option β} {fits : α → Prop}
  {value : α → β}

end Vectors

/-! ## Structures -/

end Reading

/-! ## The playnet -/

/-- `sendTransaction` of the RPC on what `serializeTx` has written. -/
def sendTransaction (bank : PgBank) (runtime : ProgramRuntime) (serializedTx : NatJson)
    (verified : Except TransactionError Unit) : Call SendTransactionResult × PgBank :=
  match getSanitizedTxFromSerializedTx serializedTx with
  | .returned tx => PgRpc.sendTransaction bank runtime tx verified
  | .panicked => (.panicked, bank)

section Sending

variable {decodeBinary : Text → List UInt8} {bank : PgBank} {runtime : ProgramRuntime}
  {tx : PgWeb3.Transaction}
  {verified : Except TransactionError Unit} {signatures : List Signature} {message : Message}

end Sending

end PgSerde
end Solpg.Client.Utils
