import Solpg.Playnet.Atomicity

/-!
# Replayed transactions

The records of a bank are its only protection against a replay: nothing checks
the blockhash of a transaction. They are kept in memory, so a reload drops them,
and upgradeable-loader Write instructions are not recorded. Within these limits
a signature is accepted once.
-/

namespace Solpg.Playnet.Runtime
namespace PgBank

open Solpg.Std

variable {runtime : ProgramRuntime} {bank : PgBank} {tx : SanitizedTransaction}
  {signature : Signature}

/-- The call does not create the bank anew. -/
def keepsRecords (_bank : PgBank) : BankCall → Bool
  | .reload _ => false
  | _ => true

/-- A rejected transaction changes nothing but accounts. -/
structure Rejected (runtime : ProgramRuntime) (bank : PgBank) (tx : SanitizedTransaction) :
    Prop where
  notAccepted : ∀ signature, (bank.processTx runtime tx).1 ≠ .returned (.ok signature)
  txs : (bank.processTx runtime tx).2.txs = bank.txs
  slot : (bank.processTx runtime tx).2.slot = bank.slot
  blockHeight : (bank.processTx runtime tx).2.blockHeight = bank.blockHeight
  latestBlockhash : (bank.processTx runtime tx).2.latestBlockhash = bank.latestBlockhash

/-! ## Records -/

/-- A transaction adds at most its own record. -/
theorem mem_txs_processTx (recorded : signature ∈ bank.txs) :
    signature ∈ (bank.processTx runtime tx).2.txs := by
  obtain ⟨-, processed⟩ | ⟨simulation, error, -, -, processed⟩ | ⟨simulation, -, -, processed⟩ :=
    processTx_cases bank runtime tx
  · rw [processed]
    exact recorded
  · rw [processed]
    exact recorded
  · rw [processed]
    obtain ⟨-, saves⟩ | ⟨-, -, saves⟩ | ⟨-, -, ⟨-, saves⟩ | ⟨data, saves⟩⟩ :=
      saveTx_cases (bank.committed simulation) runtime tx simulation 0
    · rw [saves]
      exact recorded
    · rw [saves]
      exact recorded
    · rw [saves]
      exact recorded
    · rw [saves]
      exact Finmap.mem_insert.mpr (.inr recorded)

/-- An airdrop is a transaction, unless none can be made. -/
theorem airdrop_cases (bank : PgBank) (runtime : ProgramRuntime) (target : Pubkey)
    (lamports : Nat) :
    bank.airdrop runtime target lamports = (.returned (.error .sanitizeFailure), bank) ∨
    ∃ tx, SanitizedTransaction.message tx = bank.airdropMessage runtime.sdk target lamports ∧
      bank.airdrop runtime target lamports = bank.processTx runtime tx := by
  simp only [airdrop, SanitizedTransaction.tryCreate]
  by_cases valid : (bank.airdropMessage runtime.sdk target lamports).Sanitized ∧
      [runtime.sdk.signMessage bank.airdropKp
        (bank.airdropMessage runtime.sdk target lamports)].length =
          (bank.airdropMessage runtime.sdk target lamports).header.numRequiredSignatures
  · exact .inr ⟨⟨_, _, valid.1, valid.2⟩, rfl, by rw [dif_pos valid]⟩
  · exact .inl (by rw [dif_neg valid])

theorem mem_txs_step {call : BankCall} (recorded : signature ∈ bank.txs)
    (keeps : bank.keepsRecords call = true) : signature ∈ (bank.step runtime call).txs := by
  cases call with
  | processTx tx => exact mem_txs_processTx recorded
  | airdrop target lamports =>
      obtain failed | ⟨tx, -, processed⟩ := airdrop_cases bank runtime target lamports
      · simp only [step, failed]
        exact recorded
      · simp only [step, processed]
        exact mem_txs_processTx recorded
  | reload keypair => cases keeps

/-- Records stay until the next reload. -/
theorem mem_txs_run {later : PgBank} {calls : List BankCall} (recorded : signature ∈ bank.txs)
    (ran : ((machine runtime).restrict keepsRecords).run bank calls = some later) :
    signature ∈ later.txs := by
  refine Machine.run_preserves (fun bank => signature ∈ bank.txs) ?_ recorded ran
  intro state call next member stepped
  obtain ⟨keeps, same⟩ := Machine.restrict_next_eq_some.mp stepped
  obtain rfl : state.step runtime call = next := Option.some.inj same
  exact mem_txs_step member keeps

/-! ## Acceptance -/

/-- Whatever is accepted, and is not exempt, is recorded. -/
theorem mem_txs_of_accepted (saved : bpfUpgradeableWriteIxExists tx.message = false)
    (accepted : (bank.processTx runtime tx).1 = .returned (.ok signature)) :
    signature = tx.signature ∧ tx.signature ∈ (bank.processTx runtime tx).2.txs := by
  obtain ⟨-, processed⟩ | ⟨simulation, error, -, -, processed⟩ | ⟨simulation, -, -, processed⟩ :=
    processTx_cases bank runtime tx
  · rw [processed] at accepted
    cases accepted
  · rw [processed] at accepted
    cases accepted
  · rw [processed] at accepted ⊢
    obtain ⟨writes, -⟩ | ⟨-, -, saves⟩ | ⟨-, -, ⟨-, saves⟩ | ⟨data, saves⟩⟩ :=
      saveTx_cases (bank.committed simulation) runtime tx simulation 0
    · rw [saved] at writes
      cases writes
    · rw [saves] at accepted
      cases accepted
    · rw [saves] at accepted
      cases accepted
    · rw [saves] at accepted ⊢
      cases accepted
      exact ⟨rfl, Finmap.mem_insert.mpr (.inl rfl)⟩

/-- A recorded signature is rejected. -/
theorem rejected_of_recorded (recorded : tx.signature ∈ bank.txs)
    (saved : bpfUpgradeableWriteIxExists tx.message = false) : Rejected runtime bank tx := by
  obtain ⟨-, processed⟩ | ⟨simulation, error, -, -, processed⟩ |
    ⟨simulation, simulated, succeeds, -⟩ := processTx_cases bank runtime tx
  · exact ⟨by simp [processed], by rw [processed], by rw [processed], by rw [processed],
      by rw [processed]⟩
  · exact ⟨by simp [processed], by rw [processed], by rw [processed], by rw [processed],
      by rw [processed]⟩
  · have processed := processTx_of_replay recorded saved simulated succeeds
    exact ⟨by simp [processed], by rw [processed]; rfl, by rw [processed]; rfl,
      by rw [processed]; rfl, by rw [processed]; rfl⟩

/-- An airdrop calls the system program only. -/
theorem airdropMessage_not_exempt (sdk : Sdk) (target : Pubkey) (lamports : Nat) :
    bpfUpgradeableWriteIxExists (bank.airdropMessage sdk target lamports) = false := by
  have different : systemProgram ≠ bpfLoaderUpgradeable := by decide
  rw [bpfUpgradeableWriteIxExists, List.any_eq_false]
  intro instruction member
  rw [airdropMessage, transferMessage_program _ _ _ _ _ instruction member]
  simp [different]

/-- In a stretch without a reload, an accepted signature is not accepted again. -/
theorem processTx_accepted_once {later : PgBank} {again : SanitizedTransaction} (bank : PgBank)
    (calls : List BankCall)
    (accepted : (bank.processTx runtime tx).1 = .returned (.ok signature))
    (saved : bpfUpgradeableWriteIxExists tx.message = false)
    (ran : ((machine runtime).restrict keepsRecords).run (bank.processTx runtime tx).2 calls =
      some later)
    (sameSignature : again.signature = tx.signature)
    (againSaved : bpfUpgradeableWriteIxExists again.message = false) :
    Rejected runtime later again ∧
      ∀ target lamports, (later.airdrop runtime target lamports).1 ≠
        .returned (.ok tx.signature) := by
  obtain ⟨-, recorded⟩ := mem_txs_of_accepted saved accepted
  have stays : tx.signature ∈ later.txs := mem_txs_run recorded ran
  refine ⟨rejected_of_recorded (sameSignature ▸ stays) againSaved, fun target lamports => ?_⟩
  intro airdropped
  obtain failed | ⟨other, isAirdrop, processed⟩ :=
    airdrop_cases later runtime target lamports
  · rw [failed] at airdropped
    cases airdropped
  · rw [processed] at airdropped
    have otherSaved : bpfUpgradeableWriteIxExists other.message = false := by
      rw [isAirdrop]
      exact airdropMessage_not_exempt runtime.sdk target lamports
    obtain ⟨sameAgain, -⟩ := mem_txs_of_accepted otherSaved airdropped
    exact (rejected_of_recorded (sameAgain ▸ stays) otherSaved).notAccepted _ airdropped

/-- The transfer is rejected after an airdrop to somebody else. -/
theorem oneLamport_accepted_once :
    Rejected transferRuntime (paidBank.airdrop transferRuntime (sampleKey 3) 5).2 oneLamport ∧
      ∀ target lamports,
        ((paidBank.airdrop transferRuntime (sampleKey 3) 5).2.airdrop transferRuntime target
          lamports).1 ≠ .returned (.ok oneLamport.signature) :=
  processTx_accepted_once newBank [.airdrop (sampleKey 3) 5] rfl rfl rfl rfl rfl

/-! ## Signatures that are accepted again -/

/-- A loader that executes a Write without bytes, which changes nothing. -/
def writeRuntime : ProgramRuntime :=
  { transferRuntime with
    processBpfLoaderInstruction := fun _ _ _ context => .ok context
    keepsKeys := fun same => by rw [Except.ok.inj same]
    balanced := fun same _ _ _ => by rw [Except.ok.inj same] }

/-- The airdrop account is the authority of a buffer. -/
def bufferBank : PgBank :=
  new transferSdk ⟨sampleKey 1, []⟩ (some (newBank.setAccount (sampleKey 5)
    { Account.new 1 0 bpfLoaderUpgradeable with
      data := [1, 0, 0, 0, 1] ++ (sampleKey 1).bytes.toList }).getSaveData)

/-- One lamport from the airdrop account, and a Write of no bytes to the buffer. -/
def transferAndWrite : SanitizedTransaction where
  message := {
    header := ⟨1, 0, 2⟩
    accountKeys := [sampleKey 1, sampleKey 2, sampleKey 5, systemProgram, bpfLoaderUpgradeable]
    recentBlockhash := newBank.latestBlockhash
    instructions := [⟨3, [0, 1], transferSdk.serialize (.transfer 1)⟩,
      ⟨4, [2, 0], 1 :: List.replicate 15 0⟩] }
  signatures := [⟨Vector.replicate 64 1⟩]
  sanitized := by decide
  signed := length_oneSignature

/-- After a reload, the transfer is accepted and pays again. Together with a Write,
it is accepted again and pays again even without a reload. -/
theorem not_always_once :
    (¬ ∀ (runtime : ProgramRuntime) (bank later : PgBank) (tx : SanitizedTransaction)
      (calls : List BankCall), (machine runtime).Reachable bank →
      bpfUpgradeableWriteIxExists tx.message = false →
      (bank.processTx runtime tx).1 = .returned (.ok tx.signature) →
      (machine runtime).run (bank.processTx runtime tx).2 calls = some later →
        (later.processTx runtime tx).1 ≠ .returned (.ok tx.signature) ∨
        (later.processTx runtime tx).2.accounts = later.accounts) ∧
    ¬ ∀ (runtime : ProgramRuntime) (bank later : PgBank) (tx : SanitizedTransaction)
      (calls : List BankCall), (machine runtime).Reachable bank →
      (bank.processTx runtime tx).1 = .returned (.ok tx.signature) →
      ((machine runtime).restrict keepsRecords).run (bank.processTx runtime tx).2 calls =
        some later →
        (later.processTx runtime tx).1 ≠ .returned (.ok tx.signature) ∨
        (later.processTx runtime tx).2.accounts = later.accounts := by
  have paid (bank : PgBank) (other : PgBank) (before after : Nat) (different : before ≠ after)
      (stored : (bank.accounts.lookup (sampleKey 2)).map Account.lamports = some before)
      (left : (other.accounts.lookup (sampleKey 2)).map Account.lamports = some after) :
      other.accounts ≠ bank.accounts := by
    intro same
    rw [same, stored] at left
    exact different (Option.some.inj left)
  constructor
  · intro once
    have reachable : (machine transferRuntime).Reachable newBank :=
      ⟨newBank, [], ⟨⟨sampleKey 1, []⟩, none, rfl⟩, rfl⟩
    obtain rejected | same := once transferRuntime newBank _ oneLamport [.reload ⟨sampleKey 1, []⟩]
      reachable rfl rfl rfl
    · exact rejected rfl
    · exact paid _ _ 1 2 (by decide) rfl rfl same
  · intro once
    have reachable : (machine writeRuntime).Reachable bufferBank :=
      ⟨bufferBank, [], ⟨⟨sampleKey 1, []⟩, _, rfl⟩, rfl⟩
    obtain rejected | same := once writeRuntime bufferBank _ transferAndWrite [] reachable rfl rfl
    · exact rejected rfl
    · exact paid _ _ 1 2 (by decide) rfl rfl same

end PgBank
end Solpg.Playnet.Runtime
