import Solpg.Playnet.Replay
import Solpg.Playnet.Rpc

/-!
# Slots and blockhashes

A recorded transaction starts a new slot. Slot, block height, latest blockhash
and records stay in step over every run, reloads included. What `get_genesis_hash`
reports does not: it is the latest blockhash.
-/

namespace Solpg.Playnet.Runtime

open Solpg.Std

/-- `create_blockhash`. -/
def createBlockhash (sdk : Sdk) (bytes : List UInt8) : Hash := sdk.hash bytes

/-- The blockhash of the slot after the one with this blockhash. -/
def nextBlockhash (sdk : Sdk) (blockhash : Hash) : Hash :=
  createBlockhash sdk blockhash.bytes.toList

namespace PgBank

/-- The record of a transaction that was simulated. -/
def recordOf (bank : PgBank) (tx : SanitizedTransaction) (simulation : SimulateTransactionResult)
    (fee : Nat) (unixTimestamp : Int) : TransactionData where
  slot := bank.slot
  tx := tx
  confirmed := some {
    fee := fee
    preBalances := simulation.preAccounts.map fun entry => entry.2.lamports
    postBalances := simulation.postAccounts.map fun entry => entry.2.lamports
    logMessages := some simulation.logs
    err := match simulation.result with
      | .ok () => none
      | .error error => some error
    computeUnitsConsumed := some simulation.unitsConsumed }
  blockTime := some unixTimestamp

/-- The bank after a transaction is recorded. -/
def recorded (bank : PgBank) (runtime : ProgramRuntime) (tx : SanitizedTransaction)
    (data : TransactionData) : PgBank :=
  { bank with txs := bank.txs.insert tx.signature data }.newSlot runtime.sdk

/-- A transaction that succeeds, is not exempt and is not recorded yet. -/
def startsSlot (runtime : ProgramRuntime) (bank : PgBank) (tx : SanitizedTransaction) : Prop :=
  (∃ simulation, bank.simulateTx runtime tx = .returned simulation ∧ simulation.result = .ok ()) ∧
    bpfUpgradeableWriteIxExists tx.message = false ∧ tx.signature ∉ bank.txs

/-- The transaction that a call submits. -/
def submitted (sdk : Sdk) (bank : PgBank) : BankCall → Option SanitizedTransaction
  | .processTx tx => some tx
  | .airdrop target lamports =>
      let message := bank.airdropMessage sdk target lamports
      (SanitizedTransaction.tryCreate message [sdk.signMessage bank.airdropKp message]).toOption
  | .reload _ => none

variable {runtime : ProgramRuntime} {bank : PgBank} {tx : SanitizedTransaction}

/-! ## What a call changes -/

/-- Nothing is recorded of an exempt transaction, or twice. -/
theorem saveTx_skips {simulation : SimulateTransactionResult} {fee : Nat}
    (skips : bpfUpgradeableWriteIxExists tx.message = true ∨ tx.signature ∈ bank.txs) :
    (bank.saveTx runtime tx simulation fee).2 = bank := by
  obtain ⟨-, saves⟩ | ⟨-, -, saves⟩ | ⟨saved, absent, -⟩ :=
    saveTx_cases bank runtime tx simulation fee
  · rw [saves]
  · rw [saves]
  · obtain exempt | member := skips
    · rw [saved] at exempt
      cases exempt
    · exact absurd member absent

theorem saveTx_records {simulation : SimulateTransactionResult} {fee : Nat} {unixTimestamp : Int}
    (saved : bpfUpgradeableWriteIxExists tx.message = false) (absent : tx.signature ∉ bank.txs)
    (clock : bank.sysvarCache.clock = some unixTimestamp) :
    bank.saveTx runtime tx simulation fee = (.returned (.ok tx.signature),
      bank.recorded runtime tx (bank.recordOf tx simulation fee unixTimestamp)) := by
  have unknown : bank.txs.lookup tx.signature = none := Finmap.lookup_eq_none.mpr absent
  simp only [saveTx, saved, unknown, clock]
  rfl

/-- What a transaction leaves behind: the bank with other accounts, and possibly
with a record and a new slot. -/
theorem processTx_advances (runtime : ProgramRuntime) (tx : SanitizedTransaction)
    {unixTimestamp : Int} (clock : bank.sysvarCache.clock = some unixTimestamp) :
    (¬ startsSlot runtime bank tx ∧ ∃ accounts,
      (bank.processTx runtime tx).2 = { bank with accounts }) ∨
    (startsSlot runtime bank tx ∧ ∃ simulation,
      bank.simulateTx runtime tx = .returned simulation ∧ simulation.result = .ok () ∧
      bank.processTx runtime tx = (.returned (.ok tx.signature),
        (bank.committed simulation).recorded runtime tx
          (bank.recordOf tx simulation 0 unixTimestamp))) := by
  obtain ⟨panics, processed⟩ | ⟨simulation, error, simulated, failed, processed⟩ |
    ⟨simulation, simulated, succeeds, processed⟩ := processTx_cases bank runtime tx
  · refine .inl ⟨?_, bank.accounts, by rw [processed]⟩
    rintro ⟨⟨other, again, -⟩, -⟩
    rw [panics] at again
    cases again
  · refine .inl ⟨?_, bank.accounts, by rw [processed]⟩
    rintro ⟨⟨other, again, succeeds⟩, -⟩
    rw [simulated] at again
    cases again
    rw [failed] at succeeds
    cases succeeds
  · by_cases skips : bpfUpgradeableWriteIxExists tx.message = true ∨ tx.signature ∈ bank.txs
    · refine .inl ⟨?_, (bank.committed simulation).accounts, ?_⟩
      · rintro ⟨-, saved, absent⟩
        simp [saved, absent] at skips
      · have skipped : ((bank.committed simulation).saveTx runtime tx simulation 0).2 =
            bank.committed simulation := saveTx_skips skips
        rw [processed, skipped]
        rfl
    · rw [not_or, Bool.not_eq_true] at skips
      refine .inr ⟨⟨⟨simulation, simulated, succeeds⟩, skips⟩, simulation, simulated, succeeds, ?_⟩
      exact processed.trans
        (saveTx_records skips.1 (show tx.signature ∉ (bank.committed simulation).txs from skips.2) clock)

/-- A call processes the transaction that it submits, if it submits one. -/
theorem step_eq (runtime : ProgramRuntime) (bank : PgBank) (call : BankCall) :
    (∃ tx, submitted runtime.sdk bank call = some tx ∧
      bank.step runtime call = (bank.processTx runtime tx).2) ∨
    (submitted runtime.sdk bank call = none ∧ (bank.step runtime call = bank ∨
      ∃ keypair, bank.step runtime call = new runtime.sdk keypair (some bank.getSaveData))) := by
  cases call with
  | processTx tx => exact .inl ⟨tx, rfl, rfl⟩
  | airdrop target lamports =>
      simp only [submitted, step, airdrop]
      cases SanitizedTransaction.tryCreate (bank.airdropMessage runtime.sdk target lamports)
          [runtime.sdk.signMessage bank.airdropKp
            (bank.airdropMessage runtime.sdk target lamports)] with
      | error error => exact .inr ⟨rfl, .inl rfl⟩
      | ok tx => exact .inl ⟨tx, rfl, rfl⟩
  | reload keypair => exact .inr ⟨rfl, .inr ⟨keypair, rfl⟩⟩

/-! ## The chain -/

/-- The fields of a bank that a new slot changes, and its records, are in step. -/
structure ChainState (sdk : Sdk) (bank : PgBank) : Prop where
  blockHeight : bank.getBlockHeight = bank.getSlot
  latestBlockhash : bank.getLatestBlockhash = (nextBlockhash sdk)^[bank.getSlot] bank.genesisHash
  below : ∀ signature data, bank.getTx signature = some data → data.slot < bank.getSlot
  distinct : ∀ first second data other, bank.getTx first = some data →
    bank.getTx second = some other → data.slot = other.slot → first = second

theorem ChainState.of_accounts {sdk : Sdk} (chain : ChainState sdk bank)
    (accounts : BankAccounts) : ChainState sdk { bank with accounts } :=
  ⟨chain.blockHeight, chain.latestBlockhash, chain.below, chain.distinct⟩

/-- A record gets the slot that it ends. -/
theorem ChainState.recorded (chain : ChainState runtime.sdk bank) (tx : SanitizedTransaction)
    {data : TransactionData} (slot : data.slot = bank.slot) :
    ChainState runtime.sdk (bank.recorded runtime tx data) := by
  have found (signature : Signature) (other : TransactionData)
      (stored : (bank.recorded runtime tx data).getTx signature = some other) :
      (signature = tx.signature ∧ other = data) ∨ bank.getTx signature = some other := by
    by_cases here : signature = tx.signature
    · subst here
      have inserted : (bank.txs.insert tx.signature data).lookup tx.signature = some data :=
        Finmap.lookup_insert bank.txs
      exact .inl ⟨rfl, (Option.some.inj (inserted.symm.trans stored)).symm⟩
    · refine .inr ?_
      have elsewhere := Finmap.lookup_insert_of_ne (b := data) bank.txs here
      exact elsewhere.symm.trans stored
  refine ⟨congrArg (· + 1) chain.blockHeight, ?_, fun signature other stored => ?_,
    fun first second one other atFirst atSecond same => ?_⟩
  · have next : (nextBlockhash runtime.sdk)^[bank.slot + 1] bank.genesisHash =
        nextBlockhash runtime.sdk bank.latestBlockhash := by
      rw [Function.iterate_succ_apply']
      exact congrArg _ chain.latestBlockhash.symm
    exact next.symm
  · change other.slot < bank.slot + 1
    obtain ⟨-, rfl⟩ | earlier := found signature other stored
    · omega
    · exact Nat.lt_succ_of_lt (chain.below signature other earlier)
  · obtain ⟨rfl, rfl⟩ | earlier := found first one atFirst
    · obtain ⟨rfl, -⟩ | earlier' := found second other atSecond
      · rfl
      · exact absurd (chain.below second other earlier') (by simp [getSlot]; omega)
    · obtain ⟨rfl, rfl⟩ | earlier' := found second other atSecond
      · exact absurd (chain.below first one earlier) (by simp [getSlot]; omega)
      · exact chain.distinct first second one other earlier earlier' same

/-- The chain of a bank whose genesis hash is the one of new banks. -/
structure OnChain (sdk : Sdk) (genesisHash : Hash) (bank : PgBank) : Prop where
  chain : ChainState sdk bank
  genesisHash : bank.genesisHash = genesisHash
  clock : bank.sysvarCache.clock = some 0

theorem new_onChain (sdk : Sdk) (keypair : Keypair) :
    OnChain sdk (createBlockhash sdk "playnet".toUTF8.toList) (new sdk keypair none) where
  chain := {
    blockHeight := rfl
    latestBlockhash := rfl
    below := fun signature data stored => by
      cases (Finmap.lookup_empty signature).symm.trans stored
    distinct := fun first second data other stored => by
      cases (Finmap.lookup_empty first).symm.trans stored }
  genesisHash := rfl
  clock := rfl

/-- A reload forgets the records and keeps the rest of the chain. -/
theorem OnChain.reload {sdk : Sdk} {genesisHash : Hash} (onChain : OnChain sdk genesisHash bank)
    (keypair : Keypair) : OnChain sdk genesisHash (new sdk keypair (some bank.getSaveData)) where
  chain := {
    blockHeight := onChain.chain.blockHeight
    latestBlockhash := onChain.chain.latestBlockhash
    below := fun signature data stored => by
      cases (Finmap.lookup_empty signature).symm.trans stored
    distinct := fun first second data other stored => by
      cases (Finmap.lookup_empty first).symm.trans stored }
  genesisHash := onChain.genesisHash
  clock := rfl

theorem OnChain.processTx {genesisHash : Hash} (onChain : OnChain runtime.sdk genesisHash bank)
    (tx : SanitizedTransaction) :
    OnChain runtime.sdk genesisHash (bank.processTx runtime tx).2 := by
  obtain ⟨-, accounts, processed⟩ | ⟨-, simulation, -, -, processed⟩ :=
    processTx_advances runtime tx onChain.clock
  · rw [processed]
    exact ⟨onChain.chain.of_accounts accounts, onChain.genesisHash, onChain.clock⟩
  · rw [processed]
    have chain : ChainState runtime.sdk (bank.committed simulation) :=
      onChain.chain.of_accounts _
    exact ⟨chain.recorded tx rfl, onChain.genesisHash, onChain.clock⟩

/-- One call keeps the chain, whatever it answers. -/
theorem OnChain.step {genesisHash : Hash} (onChain : OnChain runtime.sdk genesisHash bank)
    (call : BankCall) : OnChain runtime.sdk genesisHash (bank.step runtime call) := by
  obtain ⟨tx, -, stepped⟩ | ⟨-, stepped | ⟨keypair, stepped⟩⟩ := step_eq runtime bank call
  · rw [stepped]
    exact onChain.processTx tx
  · rw [stepped]
    exact onChain
  · rw [stepped]
    exact onChain.reload keypair

/-! ## The genesis hash that is reported -/

/-- The call starts no slot, or the next blockhash is the latest one again. -/
def KeepsBlockhash (runtime : ProgramRuntime) (bank : PgBank) (call : BankCall) : Prop :=
  nextBlockhash runtime.sdk bank.latestBlockhash = bank.latestBlockhash ∨
    ∀ tx, submitted runtime.sdk bank call = some tx → ¬ startsSlot runtime bank tx

/-- What the bank and the RPC report as the genesis hash. -/
def ReportsGenesisHash (genesisHash : Hash) (bank : PgBank) : Prop :=
  bank.getGenesisHash = genesisHash ∧ PgRpc.getGenesisHash bank = genesisHash

theorem latestBlockhash_step {genesisHash : Hash} (onChain : OnChain runtime.sdk genesisHash bank)
    (call : BankCall) :
    (bank.step runtime call).latestBlockhash = bank.latestBlockhash ↔
      KeepsBlockhash runtime bank call := by
  obtain ⟨tx, submits, stepped⟩ | ⟨submits, stepped⟩ := step_eq runtime bank call
  · rw [stepped]
    obtain ⟨stays, accounts, processed⟩ | ⟨starts, simulation, -, -, processed⟩ :=
      processTx_advances runtime tx onChain.clock
    · rw [processed]
      refine ⟨fun _ => .inr fun other again => ?_, fun _ => rfl⟩
      rw [submits] at again
      cases again
      exact stays
    · rw [processed]
      refine ⟨.inl, fun keeps => keeps.resolve_right fun never => ?_⟩
      exact never tx submits starts
  · have same : (bank.step runtime call).latestBlockhash = bank.latestBlockhash := by
      obtain stepped | ⟨keypair, stepped⟩ := stepped
      · rw [stepped]
      · rw [stepped]
        rfl
    exact ⟨fun _ => .inr fun tx again => by simp [submits] at again, fun _ => same⟩

/-- Slot, block height, latest blockhash and records are in step throughout every
run of a new bank. The genesis hash that is reported stays the same throughout
exactly the runs whose calls all keep the latest blockhash. -/
theorem chain_throughout (runtime : ProgramRuntime) (keypair : Keypair) (calls : List BankCall) :
    (machine runtime).Throughout
      (OnChain runtime.sdk (createBlockhash runtime.sdk "playnet".toUTF8.toList))
      (new runtime.sdk keypair none) calls ∧
    ((machine runtime).Throughout
        (ReportsGenesisHash (new runtime.sdk keypair none).getGenesisHash)
        (new runtime.sdk keypair none) calls ↔
      (machine runtime).Meets (KeepsBlockhash runtime) (new runtime.sdk keypair none) calls) := by
  have onChain := new_onChain runtime.sdk keypair
  have kept {bank next : PgBank} {call : BankCall}
      (onChain : OnChain runtime.sdk (createBlockhash runtime.sdk "playnet".toUTF8.toList) bank)
      (stepped : (machine runtime).next bank call = some next) :
      OnChain runtime.sdk (createBlockhash runtime.sdk "playnet".toUTF8.toList) next := by
    obtain rfl := Option.some.inj stepped
    exact onChain.step call
  refine ⟨Machine.throughout_of_preserved _ kept calls onChain,
    Machine.throughout_iff_meets _ (fun bank call => ⟨_, rfl⟩) kept ?_ calls onChain ⟨rfl, rfl⟩⟩
  intro bank call next onChain reports stepped
  obtain rfl := Option.some.inj stepped
  rw [← latestBlockhash_step onChain call]
  have before : bank.latestBlockhash = _ := reports.1
  rw [before]
  exact ⟨fun same => same.1, fun same => ⟨same, same⟩⟩

/-- After one transfer, another hash is reported. -/
theorem genesisHash_not_constant : ¬ ∀ (runtime : ProgramRuntime) (keypair : Keypair)
    (calls : List BankCall), (machine runtime).Throughout
      (ReportsGenesisHash (new runtime.sdk keypair none).getGenesisHash)
      (new runtime.sdk keypair none) calls := by
  intro constant
  have paid := (constant transferRuntime ⟨sampleKey 1, []⟩ [.processTx oneLamport]).of_run
    (show _ = some paidBank from rfl)
  have changed : paidBank.getGenesisHash ≠ newBank.getGenesisHash := by decide +kernel
  exact changed paid.1

end PgBank
end Solpg.Playnet.Runtime
