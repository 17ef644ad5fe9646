import Solpg.Playnet.ChainState
import Solpg.Playnet.Reload

/-!
# Accounts without lamports

`get_account` and `get_account_default` promise that an account with 0 lamports
is not there. Nothing filters them, so it holds as long as none is stored:
exactly in the runs whose transactions leave lamports in every account that they
mention.
-/

namespace Solpg.Playnet.Runtime
namespace PgBank

open Solpg.Std

/-- An account that is stored with 0 lamports is answered like one that is not. -/
def HidesDrained (bank : PgBank) : Prop :=
  ∀ key account, bank.accounts.lookup key = some account → account.lamports = 0 →
    bank.getAccount key = none ∧ bank.getAccountDefault key = Account.default

/-- The accounts that a simulation leaves all have lamports. A key that is listed
twice counts with its last account. -/
def LeavesLamports (simulation : SimulateTransactionResult) : Prop :=
  FiniteMap.Holds (fun _ account => account.lamports ≠ 0)
    (FiniteMap.insertAll ∅ simulation.postAccounts)

/-- The transaction that is submitted fails, or leaves lamports in every account
that it mentions. -/
def DrainsNothing (runtime : ProgramRuntime) (bank : PgBank) (call : BankCall) : Prop :=
  ∀ tx simulation, submitted runtime.sdk bank call = some tx →
    bank.simulateTx runtime tx = .returned simulation → simulation.result = .ok () →
      LeavesLamports simulation

/-- All stored accounts have lamports. -/
def Funded (bank : PgBank) : Prop :=
  FiniteMap.Holds (fun _ account => account.lamports ≠ 0) bank.accounts

variable {runtime : ProgramRuntime} {bank : PgBank} {tx : SanitizedTransaction}

/-- The getters answer whatever is stored. -/
theorem hidesDrained_iff (bank : PgBank) : HidesDrained bank ↔ Funded bank := by
  constructor
  · intro hides key account stored drained
    have hidden := (hides key account stored drained).1
    rw [getAccount, stored] at hidden
    cases hidden
  · intro funded key account stored drained
    exact absurd drained (funded key account stored)

/-- Saving a transaction changes no accounts. -/
theorem saveTx_accounts (bank : PgBank) (runtime : ProgramRuntime) (tx : SanitizedTransaction)
    (result : SimulateTransactionResult) (fee : Nat) :
    (bank.saveTx runtime tx result fee).2.accounts = bank.accounts := by
  obtain ⟨-, saves⟩ | ⟨-, -, saves⟩ | ⟨-, -, ⟨-, saves⟩ | ⟨data, saves⟩⟩ :=
    saveTx_cases bank runtime tx result fee
  · rw [saves]
  · rw [saves]
  · rw [saves]
  · rw [saves]
    rfl

/-- The accounts of a successful simulation are committed, whatever is saved. -/
theorem processTx_accounts (bank : PgBank) (runtime : ProgramRuntime) (tx : SanitizedTransaction) :
    ((∀ simulation, bank.simulateTx runtime tx = .returned simulation →
        simulation.result ≠ .ok ()) ∧ (bank.processTx runtime tx).2 = bank) ∨
    ∃ simulation, bank.simulateTx runtime tx = .returned simulation ∧
      simulation.result = .ok () ∧ (bank.processTx runtime tx).2.accounts =
        FiniteMap.insertAll bank.accounts simulation.postAccounts := by
  obtain ⟨panics, processed⟩ | ⟨simulation, error, simulated, failed, processed⟩ |
    ⟨simulation, simulated, succeeds, processed⟩ := processTx_cases bank runtime tx
  · refine .inl ⟨fun simulation again => ?_, by rw [processed]⟩
    rw [panics] at again
    cases again
  · refine .inl ⟨fun other again succeeds => ?_, by rw [processed]⟩
    rw [simulated] at again
    cases again
    rw [failed] at succeeds
    cases succeeds
  · exact .inr ⟨simulation, simulated, succeeds, by rw [processed, saveTx_accounts]; rfl⟩

/-- A bank is created with accounts that have lamports. -/
theorem new_funded (sdk : Sdk) (keypair : Keypair) {saved : Option SaveData}
    (funded : Funded (restored sdk keypair saved)) : Funded (new sdk keypair saved) := by
  rw [Funded, new_accounts]
  refine funded.insertAll fun entry member => ?_
  simp only [nativeAccounts, List.cons_append, List.nil_append, List.mem_cons, List.not_mem_nil,
    or_false] at member
  obtain rfl | rfl | rfl | rfl | rfl | rfl := member <;>
    simp [nativeAccount, sysvarAccount, airdropAccount, Account.new, lamportsPerSol]

/-- Of a bank whose accounts all have lamports, exactly the calls that drain
nothing leave such a bank. -/
theorem funded_step (funded : Funded bank) (call : BankCall) :
    Funded (bank.step runtime call) ↔ DrainsNothing runtime bank call := by
  obtain ⟨tx, submits, stepped⟩ | ⟨submits, stepped⟩ := step_eq runtime bank call
  · rw [stepped]
    obtain ⟨fails, same⟩ | ⟨simulation, simulated, succeeds, accounts⟩ :=
      processTx_accounts bank runtime tx
    · rw [same]
      refine ⟨fun _ other simulation again simulated succeeds => ?_, fun _ => funded⟩
      rw [submits] at again
      cases again
      exact absurd succeeds (fails simulation simulated)
    · rw [Funded, accounts, FiniteMap.holds_insertAll_iff funded]
      constructor
      · intro leaves other simulation' again simulated' _
        rw [submits] at again
        cases again
        rw [simulated] at simulated'
        cases simulated'
        exact leaves
      · intro drains
        exact drains tx simulation submits simulated succeeds
  · have nothing : DrainsNothing runtime bank call := by
      intro tx simulation again
      rw [submits] at again
      cases again
    refine ⟨fun _ => nothing, fun _ => ?_⟩
    obtain stepped | ⟨keypair, stepped⟩ := stepped
    · rw [stepped]
      exact funded
    · rw [stepped]
      exact new_funded runtime.sdk keypair funded

/-- Accounts without lamports are hidden throughout exactly the runs of a new bank
whose calls drain nothing. -/
theorem hidesDrained_throughout_iff (runtime : ProgramRuntime) (keypair : Keypair)
    (calls : List BankCall) :
    (machine runtime).Throughout HidesDrained (new runtime.sdk keypair none) calls ↔
      (machine runtime).Meets (DrainsNothing runtime) (new runtime.sdk keypair none) calls := by
  refine Machine.throughout_iff_meets (fun _ => True) (fun bank call => ⟨_, rfl⟩)
    (fun _ _ => trivial) ?_ calls trivial ?_
  · intro bank call next _ hides stepped
    obtain rfl := Option.some.inj stepped
    rw [hidesDrained_iff] at hides ⊢
    exact funded_step hides call
  · rw [hidesDrained_iff]
    exact new_funded runtime.sdk keypair FiniteMap.holds_empty

/-- A transfer of nothing. -/
def nothingTransferred : SanitizedTransaction where
  message := transferMessage transferSdk (sampleKey 1) (sampleKey 2) 0 newBank.latestBlockhash
  signatures := [⟨Vector.replicate 64 1⟩]
  sanitized := by decide
  signed := length_oneSignature

/-- The account of a target that gets nothing is stored, and then answered. -/
theorem not_always_hidesDrained : ¬ ∀ (runtime : ProgramRuntime) (keypair : Keypair)
    (calls : List BankCall), (machine runtime).Throughout HidesDrained
      (new runtime.sdk keypair none) calls := by
  intro hides
  have after := (hides transferRuntime ⟨sampleKey 1, []⟩ [.processTx nothingTransferred]).of_run rfl
  have stored : (newBank.processTx transferRuntime nothingTransferred).2.accounts.lookup
      (sampleKey 2) = some Account.default := by decide +kernel
  have hidden := (after (sampleKey 2) Account.default stored rfl).1
  cases stored.symm.trans hidden

end PgBank
end Solpg.Playnet.Runtime
