import Solpg.Playnet.Runtime.Bank

/-!
# Failed transactions

`process_tx` commits the accounts of a transaction before `save_tx` rejects a
signature that is recorded already. An error leaves the bank as it was exactly
when that does not happen, or when the commit changes nothing.
-/

namespace Solpg.Playnet.Runtime
namespace PgBank

open Solpg.Std

variable (runtime : ProgramRuntime) (bank : PgBank) (tx : SanitizedTransaction)

/-- The state that a failed transaction must not change. -/
structure SameState (bank after : PgBank) : Prop where
  accounts : after.accounts = bank.accounts
  txs : after.txs = bank.txs
  slot : after.slot = bank.slot
  blockHeight : after.blockHeight = bank.blockHeight
  latestBlockhash : after.latestBlockhash = bank.latestBlockhash

/-- Whatever error the transaction ends with, the bank is as it was. -/
def AtomicOnError : Prop :=
  ∀ error, (bank.processTx runtime tx).1 = .returned (.error error) →
    SameState bank (bank.processTx runtime tx).2

/-- The signature is recorded, nothing exempts the transaction from the record,
and executing it again changes accounts. -/
def ReplayChangesAccounts : Prop :=
  tx.signature ∈ bank.txs ∧ bpfUpgradeableWriteIxExists tx.message = false ∧
    ∃ simulation, bank.simulateTx runtime tx = .returned simulation ∧
      simulation.result = .ok () ∧
      FiniteMap.insertAll bank.accounts simulation.postAccounts ≠ bank.accounts

variable {runtime bank tx}

theorem SameState.refl (bank : PgBank) : SameState bank bank := ⟨rfl, rfl, rfl, rfl, rfl⟩

/-- A replay that succeeds again is answered with an error, after the commit. -/
theorem processTx_of_replay {simulation : SimulateTransactionResult}
    (recorded : tx.signature ∈ bank.txs)
    (saved : bpfUpgradeableWriteIxExists tx.message = false)
    (simulated : bank.simulateTx runtime tx = .returned simulation)
    (succeeds : simulation.result = .ok ()) :
    bank.processTx runtime tx =
      (.returned (.error .alreadyProcessed), bank.committed simulation) := by
  obtain ⟨panics, -⟩ | ⟨other, error, again, failed, -⟩ | ⟨other, again, -, processed⟩ :=
    processTx_cases bank runtime tx
  · rw [panics] at simulated
    cases simulated
  · rw [simulated] at again
    cases again
    rw [succeeds] at failed
    cases failed
  · rw [simulated] at again
    cases again
    rw [processed]
    obtain ⟨writes, -⟩ | ⟨-, -, saves⟩ | ⟨-, absent, -⟩ :=
      saveTx_cases (bank.committed simulation) runtime tx simulation 0
    · rw [saved] at writes
      cases writes
    · exact saves
    · exact absurd recorded absent

/-- An error leaves the bank as it was unless an executed replay changes accounts. -/
theorem processTx_atomic_iff (runtime : ProgramRuntime) (bank : PgBank)
    (tx : SanitizedTransaction) :
    AtomicOnError runtime bank tx ↔ ¬ ReplayChangesAccounts runtime bank tx := by
  constructor
  · rintro atomic ⟨recorded, saved, simulation, simulated, succeeds, changes⟩
    have processed := processTx_of_replay recorded saved simulated succeeds
    have same := atomic .alreadyProcessed (by rw [processed])
    rw [processed] at same
    exact changes same.accounts
  · intro unchanged error failed
    obtain ⟨-, processed⟩ | ⟨simulation, other, -, -, processed⟩ |
      ⟨simulation, simulated, succeeds, processed⟩ := processTx_cases bank runtime tx
    · rw [processed]
      exact .refl bank
    · rw [processed]
      exact .refl bank
    · rw [processed] at failed ⊢
      obtain ⟨-, saves⟩ | ⟨saved, recorded, saves⟩ | ⟨-, -, ⟨-, saves⟩ | ⟨data, saves⟩⟩ :=
        saveTx_cases (bank.committed simulation) runtime tx simulation 0
      · rw [saves] at failed
        cases failed
      · -- The commit of a replay changes nothing, by assumption.
        rw [saves]
        have same : (bank.committed simulation).accounts = bank.accounts := by
          by_contra changes
          exact unchanged ⟨recorded, saved, simulation, simulated, succeeds, changes⟩
        exact ⟨same, rfl, rfl, rfl, rfl⟩
      · rw [saves] at failed
        cases failed
      · rw [saves] at failed
        cases failed

/-! ## A replayed transfer -/

/-- No checks around instructions, and no other programs. -/
def transferRuntime : ProgramRuntime where
  sdk := transferSdk
  policy _ := ⟨fun _ _ => none, fun _ _ => none, fun _ _ => none, fun _ => none⟩
  push _ _ _ := none
  pop _ _ _ _ := none
  processBpfLoaderInstruction _ _ _ _ := .error (.program 0)
  keepsKeys failed := by simp at failed
  balanced failed := by simp at failed
  report _ := ⟨[], 0, (systemProgram, [])⟩

def newBank : PgBank := new transferSdk ⟨sampleKey 1, []⟩ none

theorem length_oneSignature : ([⟨Vector.replicate 64 1⟩] : List Signature).length = 1 := rfl

/-- One lamport from the airdrop account. -/
def oneLamport : SanitizedTransaction where
  message := transferMessage transferSdk (sampleKey 1) (sampleKey 2) 1 newBank.latestBlockhash
  signatures := [⟨Vector.replicate 64 1⟩]
  sanitized := by decide
  signed := length_oneSignature

/-- The bank after the transfer. -/
def paidBank : PgBank := (newBank.processTx transferRuntime oneLamport).2

theorem paidBank_reachable : (machine transferRuntime).Reachable paidBank :=
  ⟨newBank, [.processTx oneLamport], ⟨⟨sampleKey 1, []⟩, none, rfl⟩, rfl⟩

/-- The second submission of the transfer is rejected, and pays again. -/
theorem not_always_atomic : ¬ ∀ (runtime : ProgramRuntime) (bank : PgBank)
    (tx : SanitizedTransaction), (machine runtime).Reachable bank →
      AtomicOnError runtime bank tx := by
  intro atomic
  have rejected : (paidBank.processTx transferRuntime oneLamport).1 =
      .returned (.error .alreadyProcessed) := rfl
  have same := (atomic transferRuntime paidBank oneLamport paidBank_reachable _ rejected).accounts
  have before : (paidBank.accounts.lookup (sampleKey 2)).map Account.lamports = some 1 := rfl
  have after : ((paidBank.processTx transferRuntime oneLamport).2.accounts.lookup
      (sampleKey 2)).map Account.lamports = some 2 := rfl
  rw [same, before] at after
  cases after

end PgBank
end Solpg.Playnet.Runtime
