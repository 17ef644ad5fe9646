import Solpg.Playnet.ChainState

/-!
# Responses of the playnet

The adapters that turn `PgRpc` results into JSON-RPC responses, for the requests
that send and look up transactions. A transaction stands for its serialized
form, and a thrown error for a panic.
-/

namespace Solpg.Client.Utils

open Solpg.Std
open Solpg.Playnet
open Solpg.Playnet.Runtime

/-! ## Responses -/

structure SignatureStatusResponse where
  confirmationStatus : String
  confirmations : Nat
  err : Option TransactionError
  slot : Nat
  deriving DecidableEq, Repr

/-- The fields that are not always the same. -/
structure TransactionResponse where
  slot : Nat
  transaction : SanitizedTransaction
  fee : Nat
  preBalances : List Nat
  postBalances : List Nat
  logMessages : Option (List String)
  err : Option TransactionError
  computeUnitsConsumed : Option Nat
  blockTime : Option Int
  version : String
  deriving DecidableEq

def getConfirmationStatus (status : TransactionStatus) : String :=
  match status.confirmationStatus with
  | some .processed => "processed"
  | some .confirmed => "confirmed"
  | _ => "finalized"

def getSignatureStatusesResponse (bank : PgBank) (signatures : List Signature) :
    List (Option SignatureStatusResponse) :=
  (PgRpc.getSignatureStatuses bank signatures).map fun status =>
    status.map fun status =>
      { confirmationStatus := getConfirmationStatus status
        confirmations := status.confirmations.getD 0
        err := status.err
        slot := status.slot }

/-- `slot` is the one of the context that every response gets. -/
def getTransactionResponse (bank : PgBank) (signature : Signature) :
    Call (Option TransactionResponse) := do
  let slot := PgRpc.getSlot bank
  let result := PgRpc.getTransaction bank signature
  let meta_ ← result.getMeta
  let transaction ← result.transaction
  if result.exists_ then
    let blockTime ← result.blockTime
    let version ← result.version
    return some {
      slot := slot
      transaction := transaction
      fee := meta_.fee
      preBalances := meta_.preBalances
      postBalances := meta_.postBalances
      logMessages := meta_.logMessages
      err := meta_.err
      computeUnitsConsumed := meta_.computeUnitsConsumed
      blockTime := blockTime
      version := (version.map toString).getD "legacy" }
  else return none

/-- `handleError`, and the signature of a transaction that was sent. -/
def sentResponse (result : Call SendTransactionResult) : Call Signature := do
  let sent ← result
  match sent.error with
  | some _ => .panicked
  | none => sent.txHash

/-! ## Runs -/

/-- The requests that look up or change what is recorded. -/
inductive RpcRequest where
  | getSignatureStatuses (signatures : List Signature)
  | getTransaction (signature : Signature)
  | requestAirdrop (target : Pubkey) (lamports : Nat)
  | sendTransaction (tx : Except TransactionError SanitizedTransaction)
      (verified : Except TransactionError Unit)

def RpcRequest.step (runtime : ProgramRuntime) (bank : PgBank) : RpcRequest → PgBank
  | .getSignatureStatuses _ => bank
  | .getTransaction _ => bank
  | .requestAirdrop target lamports => (PgRpc.requestAirdrop bank runtime target lamports).2
  | .sendTransaction tx verified => (PgRpc.sendTransaction bank runtime tx verified).2

/-- The RPC of a playnet that was created from save data or without. -/
def rpcMachine (runtime : ProgramRuntime) : Machine PgBank RpcRequest where
  Initial bank := ∃ keypair saved, bank = PgBank.new runtime.sdk keypair saved
  next bank request := some (request.step runtime bank)

/-! ## Looking up a signature -/

/-- Both lookups answer, and either both know nothing of the signature or both
report it with the same slot and the same error. -/
def LookupsAgree (bank : PgBank) (signature : Signature) : Prop :=
  ∃ transaction status, getTransactionResponse bank signature = .returned transaction ∧
    getSignatureStatusesResponse bank [signature] = [status] ∧
    ((transaction = none ∧ status = none) ∨
      ∃ found known, transaction = some found ∧ status = some known ∧
        found.slot = known.slot ∧ found.err = known.err)

/-- Both lookups report the signature. -/
def Found (bank : PgBank) (signature : Signature) : Prop :=
  (∃ found, getTransactionResponse bank signature = .returned (some found)) ∧
    ∃ known, getSignatureStatusesResponse bank [signature] = [some known]

/-- Every record is of an earlier slot, and has its metadata. -/
structure WellRecorded (bank : PgBank) : Prop where
  clock : bank.sysvarCache.clock = some 0
  earlier : ∀ signature data, bank.getTx signature = some data →
    data.slot < bank.getSlot ∧ data.confirmed.isSome

variable {runtime : ProgramRuntime} {bank : PgBank} {signature : Signature}

/-- Nothing is returned about a signature that is not recorded. -/
theorem getTransactionResponse_unknown (unknown : bank.getTx signature = none) :
    getTransactionResponse bank signature = .panicked := by
  have noMeta : (PgRpc.getTransaction bank signature).getMeta = .panicked := by
    simp only [GetTransactionResult.getMeta, PgRpc.getTransaction, unknown]
  simp only [getTransactionResponse, noMeta]
  rfl

/-- A recorded signature is reported with the current slot. -/
theorem getTransactionResponse_known {data : TransactionData}
    {confirmed : ConfirmedTransactionMeta} (known : bank.getTx signature = some data)
    (metadata : data.confirmed = some confirmed) :
    ∃ found, getTransactionResponse bank signature = .returned (some found) ∧
      found.slot = bank.getSlot ∧ found.err = confirmed.err := by
  have result : PgRpc.getTransaction bank signature = ⟨some data⟩ := by
    rw [PgRpc.getTransaction, known]
  obtain ⟨slot, tx, _, blockTime⟩ := data
  obtain rfl : _ = some confirmed := metadata
  simp only [getTransactionResponse, result]
  exact ⟨_, rfl, rfl, rfl⟩

theorem getSignatureStatusesResponse_known {data : TransactionData}
    (known : bank.getTx signature = some data) :
    ∃ status, getSignatureStatusesResponse bank [signature] = [some status] ∧
      status.slot = data.slot ∧
      status.err = data.confirmed.bind ConfirmedTransactionMeta.err := by
  simp only [getSignatureStatusesResponse, PgRpc.getSignatureStatuses, PgRpc.signatureStatus,
    List.map_cons, List.map_nil, known, Option.map_some]
  exact ⟨_, rfl, rfl, rfl⟩

/-- Exactly the recorded signatures are found. -/
theorem found_iff (recorded : WellRecorded bank) (signature : Signature) :
    Found bank signature ↔ signature ∈ bank.txs := by
  rw [Finmap.mem_iff]
  constructor
  · rintro ⟨⟨found, response⟩, -⟩
    cases known : bank.getTx signature with
    | none =>
        rw [getTransactionResponse_unknown known] at response
        cases response
    | some data => exact ⟨data, known⟩
  · rintro ⟨data, known⟩
    obtain ⟨confirmed, metadata⟩ :=
      Option.isSome_iff_exists.mp (recorded.earlier signature data known).2
    obtain ⟨found, response, -⟩ := getTransactionResponse_known known metadata
    obtain ⟨status, statuses, -⟩ := getSignatureStatusesResponse_known known
    exact ⟨⟨found, response⟩, status, statuses⟩

/-- One lookup panics for an unknown signature, and reports the wrong slot for a
recorded one. -/
theorem not_lookupsAgree (recorded : WellRecorded bank) (signature : Signature) :
    ¬ LookupsAgree bank signature := by
  rintro ⟨transaction, status, response, statuses, agree⟩
  cases known : bank.getTx signature with
  | none =>
      rw [getTransactionResponse_unknown known] at response
      cases response
  | some data =>
      obtain ⟨earlier, hasMeta⟩ := recorded.earlier signature data known
      obtain ⟨confirmed, metadata⟩ := Option.isSome_iff_exists.mp hasMeta
      obtain ⟨found, reported, slot, -⟩ := getTransactionResponse_known known metadata
      obtain ⟨status', listed, slot', -⟩ := getSignatureStatusesResponse_known known
      rw [reported] at response
      rw [listed] at statuses
      cases response
      cases statuses
      obtain ⟨nothing, -⟩ | ⟨_, _, sameFound, sameStatus, same, -⟩ := agree
      · cases nothing
      · -- The current slot began after the transaction was recorded.
        cases sameFound
        cases sameStatus
        omega

/-! ## Every run -/

theorem WellRecorded.processTx (recorded : WellRecorded bank) (tx : SanitizedTransaction) :
    WellRecorded (bank.processTx runtime tx).2 := by
  obtain ⟨-, accounts, processed⟩ | ⟨-, simulation, -, -, processed⟩ :=
    PgBank.processTx_advances runtime tx recorded.clock
  · rw [processed]
    exact ⟨recorded.clock, recorded.earlier⟩
  · rw [processed]
    refine ⟨recorded.clock, fun other data stored => ?_⟩
    change data.slot < bank.slot + 1 ∧ _
    by_cases here : other = tx.signature
    · subst here
      have inserted := stored.symm.trans (Finmap.lookup_insert bank.txs)
      cases inserted
      exact ⟨Nat.lt_succ_self bank.slot, rfl⟩
    · have earlier := recorded.earlier other data
        ((Finmap.lookup_insert_of_ne bank.txs here).symm.trans stored)
      exact ⟨Nat.lt_succ_of_lt earlier.1, earlier.2⟩

/-- A transaction is processed if it is sanitized and verified. -/
theorem sendTransaction_cases (bank : PgBank) (runtime : ProgramRuntime)
    (tx : Except TransactionError SanitizedTransaction)
    (verified : Except TransactionError Unit) :
    (∃ error, PgRpc.sendTransaction bank runtime tx verified = (.returned ⟨.error error⟩, bank)) ∨
    ∃ sanitizedTx, PgRpc.sendTransaction bank runtime tx verified =
      ((bank.processTx runtime sanitizedTx).1.bind fun result => .returned ⟨result⟩,
        (bank.processTx runtime sanitizedTx).2) := by
  cases tx with
  | error error => exact .inl ⟨error, rfl⟩
  | ok sanitizedTx =>
      cases verified with
      | error error => exact .inl ⟨error, rfl⟩
      | ok =>
          refine .inr ⟨sanitizedTx, ?_⟩
          simp only [PgRpc.sendTransaction]
          cases bank.processTx runtime sanitizedTx with
          | mk result after => cases result <;> rfl

theorem requestAirdrop_state (bank : PgBank) (runtime : ProgramRuntime) (target : Pubkey)
    (lamports : Nat) :
    (PgRpc.requestAirdrop bank runtime target lamports).2 =
      (bank.airdrop runtime target lamports).2 := by
  simp only [PgRpc.requestAirdrop]
  cases bank.airdrop runtime target lamports with
  | mk result after => cases result <;> rfl

/-- A request leaves the bank as it is, or as a transaction does. -/
theorem step_cases (runtime : ProgramRuntime) (bank : PgBank) (request : RpcRequest) :
    request.step runtime bank = bank ∨
      ∃ tx, request.step runtime bank = (bank.processTx runtime tx).2 := by
  cases request with
  | getSignatureStatuses signatures => exact .inl rfl
  | getTransaction signature => exact .inl rfl
  | requestAirdrop target lamports =>
      simp only [RpcRequest.step, requestAirdrop_state]
      obtain failed | ⟨tx, -, processed⟩ := PgBank.airdrop_cases bank runtime target lamports
      · exact .inl (by rw [failed])
      · exact .inr ⟨tx, by rw [processed]⟩
  | sendTransaction tx verified =>
      obtain ⟨error, sent⟩ | ⟨sanitizedTx, sent⟩ := sendTransaction_cases bank runtime tx verified
      · exact .inl (by rw [RpcRequest.step, sent])
      · exact .inr ⟨sanitizedTx, by rw [RpcRequest.step, sent]⟩

theorem WellRecorded.step (recorded : WellRecorded bank) (request : RpcRequest) :
    WellRecorded (request.step runtime bank) := by
  obtain same | ⟨tx, processed⟩ := step_cases runtime bank request
  · rw [same]
    exact recorded
  · rw [processed]
    exact recorded.processTx tx

theorem wellRecorded_new (sdk : Sdk) (keypair : Keypair) (saved : Option SaveData) :
    WellRecorded (PgBank.new sdk keypair saved) := by
  refine ⟨rfl, fun signature data stored => ?_⟩
  cases saved with
  | none => cases (Finmap.lookup_empty signature).symm.trans stored
  | some data => cases (Finmap.lookup_empty signature).symm.trans stored

theorem WellRecorded.throughout (recorded : WellRecorded bank) (requests : List RpcRequest) :
    (rpcMachine runtime).Throughout WellRecorded bank requests := by
  refine Machine.throughout_of_preserved _ ?_ requests recorded
  intro bank request next recorded stepped
  obtain rfl := Option.some.inj stepped
  exact recorded.step request

/-- At no point of a run do the lookups agree on any signature. -/
theorem lookups_never_agree (runtime : ProgramRuntime) (keypair : Keypair)
    (saved : Option SaveData) (requests : List RpcRequest) :
    (rpcMachine runtime).Throughout (fun bank => ∀ signature, ¬ LookupsAgree bank signature)
      (PgBank.new runtime.sdk keypair saved) requests :=
  ((wellRecorded_new runtime.sdk keypair saved).throughout requests).mono
    fun _ recorded signature => not_lookupsAgree recorded signature

/-! ## Signatures that were sent -/

/-- A signature that is recorded stays recorded. -/
theorem mem_txs_throughout (requests : List RpcRequest) (recorded : signature ∈ bank.txs) :
    (rpcMachine runtime).Throughout (fun later => signature ∈ later.txs) bank requests := by
  refine Machine.throughout_of_preserved _ ?_ requests recorded
  intro bank request next member stepped
  obtain rfl := Option.some.inj stepped
  obtain same | ⟨tx, processed⟩ := step_cases runtime bank request
  · rw [same]
    exact member
  · rw [processed]
    exact PgBank.mem_txs_processTx member

/-- Throughout every run after it was sent, a signature is found by both lookups,
unless its transaction is exempt from the records. -/
theorem sent_found {tx : SanitizedTransaction} {verified : Except TransactionError Unit}
    (recorded : WellRecorded bank) (saved : bpfUpgradeableWriteIxExists tx.message = false)
    (sent : sentResponse (PgRpc.sendTransaction bank runtime (.ok tx) verified).1 =
      .returned signature) (requests : List RpcRequest) :
    (rpcMachine runtime).Throughout (Found · signature)
      (PgRpc.sendTransaction bank runtime (.ok tx) verified).2 requests := by
  obtain ⟨accepted, after⟩ : (bank.processTx runtime tx).1 = .returned (.ok signature) ∧
      (PgRpc.sendTransaction bank runtime (.ok tx) verified).2 = (bank.processTx runtime tx).2 := by
    cases verified with
    | error error => cases sent
    | ok =>
        simp only [PgRpc.sendTransaction] at sent ⊢
        cases processed : bank.processTx runtime tx with
        | mk result next =>
            rw [processed] at sent
            cases result with
            | panicked => cases sent
            | returned result =>
                cases result with
                | error error => cases sent
                | ok txHash =>
                    cases sent
                    exact ⟨rfl, rfl⟩
  obtain ⟨rfl, member⟩ := PgBank.mem_txs_of_accepted saved accepted
  rw [after]
  have wellRecorded : (rpcMachine runtime).Throughout WellRecorded (bank.processTx runtime tx).2
      requests := (recorded.processTx tx).throughout requests
  exact (wellRecorded.and (mem_txs_throughout requests member)).mono
    fun later holds => (found_iff holds.1 _).mpr holds.2

/-- An unknown signature makes a lookup panic, and the signature of a transaction
with a Write is unknown after it was sent. -/
theorem not_always_agree :
    (¬ ∀ (runtime : ProgramRuntime) (keypair : Keypair) (saved : Option SaveData)
      (requests : List RpcRequest), (rpcMachine runtime).Throughout
        (fun bank => ∀ signature, LookupsAgree bank signature)
        (PgBank.new runtime.sdk keypair saved) requests) ∧
    ¬ ∀ (runtime : ProgramRuntime) (bank : PgBank) (tx : SanitizedTransaction)
      (signature : Signature), (rpcMachine runtime).Reachable bank →
      sentResponse (PgRpc.sendTransaction bank runtime (.ok tx) (.ok ())).1 =
        .returned signature →
      Found (PgRpc.sendTransaction bank runtime (.ok tx) (.ok ())).2 signature := by
  constructor
  · intro agree
    obtain ⟨transaction, status, response, -⟩ :=
      agree PgBank.transferRuntime ⟨sampleKey 1, []⟩ none [] PgBank.oneLamport.signature
    cases response
  · intro found
    have reachable : (rpcMachine PgBank.writeRuntime).Reachable PgBank.bufferBank :=
      ⟨PgBank.bufferBank, [], ⟨⟨sampleKey 1, []⟩, _, rfl⟩, rfl⟩
    obtain ⟨⟨_, response⟩, -⟩ := found PgBank.writeRuntime PgBank.bufferBank
      PgBank.transferAndWrite _ reachable rfl
    cases response

end Solpg.Client.Utils
