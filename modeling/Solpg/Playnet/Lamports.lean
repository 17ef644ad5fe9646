import Solpg.Playnet.Replay

/-!
# Lamports

A transaction neither makes nor destroys lamports when its account keys differ
from each other: the accounts that are loaded hold what the bank holds under
their keys, execution keeps their total, and the commit replaces each once.
-/

namespace Solpg.Playnet.Runtime

open Solpg.Std
open Outcome

/-- No instruction failed because lamports overflow. -/
def NoOverflow (failure : Failure) : Prop :=
  ∀ index, failure ≠ .error (.instructionError index .arithmeticOverflow)

/-- Accounts with the same keys, of which the first hold as much together. -/
structure Keeps (count : Nat) (context after : TransactionContext) : Prop where
  keys : after.accounts.map Prod.fst = context.accounts.map Prod.fst
  total : after.total count = context.total count

section Execution

variable {runtime : ProgramRuntime} {message : Message} {sysvarCache : SysvarCache}
  {instruction : InstructionContext} {context middle after : TransactionContext} {trace : Trace}
  {count : Nat}

/-- Two steps that keep the lamports keep them together. -/
theorem Keeps.trans (first : Keeps count context middle) (second : Keeps count middle after) :
    Keeps count context after :=
  ⟨second.keys.trans first.keys, second.total.trans first.total⟩

/-! ## Execution -/

/-- The system program moves lamports within a total that does not overflow. -/
theorem processSystemInstruction_keeps {invokeContext : InvokeContext}
    (within : ∀ index, instruction.Uses index → index < count)
    (bounded : context.total count < 2 ^ 64) :
    Ensures (processSystemInstruction invokeContext instruction context) (Keeps count context)
      (· ≠ .arithmeticOverflow) := by
  refine (processSystemInstruction_spec (fun _ other => other)
    (.inr ⟨count, within, bounded⟩)).mono ?_
  rintro after ⟨variant, -, effect⟩
  exact ⟨effect.keys_eq, effect.total_eq within⟩

/-- The program account is found without arithmetic. -/
theorem rootAccount_spec (instruction : InstructionContext) (context : TransactionContext) :
    Ensures (rootAccount instruction context) (fun _ => True) (· ≠ .arithmeticOverflow) := by
  simp only [rootAccount]
  split
  · exact .ok trivial
  · exact .error (by simp)

/-- What the system program did is balanced. Of other programs only the check
after the instruction says so. -/
theorem processExecutableChain_keeps (within : ∀ index, instruction.Uses index → index < count)
    (bounded : context.total count < 2 ^ 64) :
    Ensures (processExecutableChain runtime message sysvarCache trace instruction context)
      (fun after => runtime.pop trace instruction context after = none → Keeps count context after)
      (· ≠ .arithmeticOverflow) := by
  refine (rootAccount_spec instruction context).bind fun root _ => ?_
  cases builtinOf root with
  | none => exact .error (by simp)
  | some builtin =>
      cases builtin with
      | system =>
          exact (processSystemInstruction_keeps within bounded).mono fun after keeps _ => keeps
      | bpfLoader =>
          refine (Ensures.mapError fun error => ?_).mono fun after succeeded passed => ?_
          · simp
          · exact ⟨runtime.keepsKeys succeeded, runtime.balanced succeeded passed count within⟩

/-- A check that passes does no arithmetic. -/
theorem passes_spec (check : Option RuntimeError) :
    Ensures (passes check) (fun _ => check = none) (· ≠ .arithmeticOverflow) := by
  cases check with
  | none => exact .ok rfl
  | some error => exact .error (by simp)

/-- An instruction keeps the sum of the lamports. -/
theorem processInstruction_keeps (isPrecompile : Bool)
    (within : ∀ index, instruction.Uses index → index < count)
    (bounded : context.total count < 2 ^ 64) :
    Ensures (processInstruction runtime message sysvarCache isPrecompile trace instruction context)
      (Keeps count context) (· ≠ .arithmeticOverflow) := by
  refine (passes_spec _).bind fun _ _ => ?_
  have executed : Ensures
      (execute runtime message sysvarCache isPrecompile trace instruction context)
      (fun after => runtime.pop trace instruction context after = none →
        Keeps count context after) (· ≠ .arithmeticOverflow) :=
    .split (fun _ => .ok fun _ => ⟨rfl, rfl⟩) fun _ => processExecutableChain_keeps within bounded
  refine executed.bind fun after keeps => ?_
  exact (passes_spec _).bind fun _ passed => .pure (keeps passed)

/-- The index of the instruction is written to data. -/
theorem storeInstructionIndex_keeps (count instructionIndex : Nat) :
    Ensures (storeInstructionIndex instructionIndex context) (Keeps count context) NoOverflow := by
  simp only [storeInstructionIndex]
  split
  · exact .ok ⟨rfl, rfl⟩
  · split
    · exact .error (by simp [NoOverflow])
    next key account found =>
      split
      · exact .ok ⟨TransactionContext.put_keys, TransactionContext.total_put_eq found rfl⟩
      · exact .error (by simp [NoOverflow])

/-- An instruction uses the accounts that it lists. -/
theorem mem_accounts_of_uses {compiled : CompiledInstruction} {programIndices : List Nat}
    {index : Nat} (uses : InstructionContext.Uses
      ⟨programIndices, instructionAccounts runtime message compiled, compiled.data⟩ index) :
    index ∈ compiled.accounts := by
  obtain ⟨account, member, rfl⟩ := uses
  obtain ⟨position, bound, rfl⟩ := List.mem_iff_getElem.mp member
  simp only [instructionAccounts, List.getElem_mapIdx]
  exact List.getElem_mem _

/-- The loop keeps the total, by induction on the instructions that are left. -/
theorem processInstructions_keeps (instructions : List (CompiledInstruction × List Nat))
    (listed : ∀ entry ∈ instructions, ∀ index ∈ entry.1.accounts, index < count)
    (bounded : context.total count < 2 ^ 64) (instructionIndex : Nat) :
    Ensures (processInstructions runtime message sysvarCache trace instructionIndex instructions
      context) (fun result => Keeps count context result.1) NoOverflow := by
  induction instructions generalizing trace instructionIndex context with
  | nil => exact .ok ⟨rfl, rfl⟩
  | cons entry rest ih =>
      obtain ⟨compiled, programIndices⟩ := entry
      refine (storeInstructionIndex_keeps count instructionIndex).bind fun stored keepsStored => ?_
      have within : ∀ index, InstructionContext.Uses
          ⟨programIndices, instructionAccounts runtime message compiled, compiled.data⟩ index →
            index < count :=
        fun index uses => listed _ List.mem_cons_self index (mem_accounts_of_uses uses)
      have boundedStored : stored.total count < 2 ^ 64 := keepsStored.total ▸ bounded
      refine ((processInstruction_keeps _ within boundedStored).rename ?_).bind
        fun after keepsAfter => ?_
      · intro error noOverflow index same
        cases same
        exact noOverflow rfl
      · have boundedAfter : after.total count < 2 ^ 64 := keepsAfter.total ▸ boundedStored
        refine (ih (fun other member => listed other (List.mem_cons_of_mem _ member)) boundedAfter
          (instructionIndex + 1)).mono fun result keepsRest => ?_
        exact (keepsStored.trans keepsAfter).trans keepsRest

end Execution

namespace PgBank

variable {runtime : ProgramRuntime} {sdk : Sdk} {bank : PgBank} {tx : SanitizedTransaction}
  {message : Message}

/-- The lamports of all accounts. -/
def lamports (bank : PgBank) : Nat := FiniteMap.total Account.lamports bank.accounts

/-- The lamports of an account, 0 where there is none. -/
def lamportsAt (bank : PgBank) (key : Pubkey) : Nat :=
  FiniteMap.amountAt Account.lamports bank.accounts key

/-- Loading does not replace lamports: the account of the instructions sysvar is
made up for each transaction. -/
def SparesInstructionsSysvar (bank : PgBank) (message : Message) : Prop :=
  Sysvar.instructions ∉ message.accountKeys ∨ bank.lamportsAt Sysvar.instructions = 0

/-! ## Loading -/

/-- The account that is loaded has the lamports of the bank. -/
theorem lamports_getAccountDefault (key : Pubkey) :
    (bank.getAccountDefault key).lamports = bank.lamportsAt key := by
  simp only [getAccountDefault, getAccount, lamportsAt, FiniteMap.amountAt]
  cases bank.accounts.lookup key with
  | none => rfl
  | some account => rfl

/-- The fee is taken without an overflow. -/
theorem checkFeePayer_spec (payer : Account) (fee : Nat) (loading : Loading) :
    Ensures (checkFeePayer payer fee loading) (fun _ => True) NoOverflow := by
  refine .split (fun _ => .ok trivial) fun _ => ?_
  refine (Ensures.require fun _ => by simp [NoOverflow]).bind fun _ _ => ?_
  split
  · exact .error (by simp [NoOverflow])
  · exact .error (by simp [NoOverflow])
  · exact (Ensures.require fun _ => by simp [NoOverflow]).mono fun _ _ => trivial

/-- Loading program data does not overflow. -/
theorem loadProgramdata_spec (account : Account) :
    Ensures (bank.loadProgramdata sdk account) (fun _ => True) NoOverflow := by
  simp only [loadProgramdata]
  split
  · exact .error (by simp [NoOverflow])
  · split
    · exact .error (by simp [NoOverflow])
    · exact .ok trivial

/-- Loading what an account depends on does not overflow. -/
theorem loadDependencies_spec (index : Nat) (account : Account) (loading : Loading) :
    Ensures (bank.loadDependencies sdk message index account loading) (fun _ => True)
      NoOverflow := by
  refine .split (fun _ => ?_) fun _ => ?_
  · refine (Ensures.require fun _ => by simp [NoOverflow]).bind fun _ _ => ?_
    refine .split (fun _ => ?_) fun _ => .pure trivial
    exact (loadProgramdata_spec account).bind fun _ _ => .pure trivial
  · exact (Ensures.require fun _ => by simp [NoOverflow]).bind fun _ _ => .pure trivial

/-- An account is loaded with the lamports that the bank holds for it. -/
theorem loadAccount_spec {fee index : Nat} {key : Pubkey} {loading : Loading}
    (spares : key = Sysvar.instructions → bank.lamportsAt key = 0) :
    Ensures (bank.loadAccount sdk message fee index key loading)
      (fun loaded => loaded.1.lamports = bank.lamportsAt key) NoOverflow := by
  refine .split (fun _ => .ok (lamports_getAccountDefault key)) fun _ => ?_
  refine .split (fun special => .ok (spares special).symm) fun _ => ?_
  refine (checkFeePayer_spec _ _ _).bind fun _ _ => ?_
  refine (loadDependencies_spec _ _ _).bind fun _ _ => ?_
  exact .pure (lamports_getAccountDefault key)

/-- The accounts of a message are loaded under its keys, by induction on the keys. -/
theorem loadAccounts_spec {fee : Nat} (keys : List Pubkey)
    (spares : ∀ key ∈ keys, key = Sysvar.instructions → bank.lamportsAt key = 0) (index : Nat)
    (loading : Loading) :
    Ensures (bank.loadAccounts sdk message fee index keys loading)
      (fun loaded => loaded.1.map Prod.fst = keys ∧
        loaded.1.map (fun entry => entry.2.lamports) = keys.map bank.lamportsAt)
      NoOverflow := by
  induction keys generalizing index loading with
  | nil => exact .ok ⟨rfl, rfl⟩
  | cons key rest ih =>
      refine (loadAccount_spec (spares key List.mem_cons_self)).bind ?_
      rintro ⟨account, next⟩ (held : account.lamports = bank.lamportsAt key)
      refine (ih (fun other member => spares other (List.mem_cons_of_mem key member)) _ _).bind ?_
      rintro ⟨accounts, last⟩ ⟨sameKeys, sameLamports⟩
      exact .pure ⟨by simp [sameKeys], by simp [sameLamports, held]⟩

/-- Programs are appended to the accounts. -/
theorem loadProgram_spec (programId : Pubkey) (accounts : List (Pubkey × Account))
    (indices : List Nat) :
    Ensures (bank.loadProgram sdk programId accounts indices)
      (fun loaded => accounts <+: loaded.2.1) NoOverflow := by
  simp only [loadProgram]
  split
  · exact .error (by simp [NoOverflow])
  · split
    · exact .error (by simp [NoOverflow])
    · refine (Ensures.require fun _ => by simp [NoOverflow]).bind fun _ _ => ?_
      refine .split (fun _ => ?_) fun _ => .pure (List.prefix_append _ _)
      refine (loadProgramdata_spec _).bind fun programdata _ => .pure ?_
      rw [List.append_assoc]
      exact List.prefix_append _ _

/-- The chain of loaders is appended to the accounts. -/
theorem loadChain_spec (depth : Nat) (programId : Pubkey) (accounts : List (Pubkey × Account))
    (indices : List Nat) :
    Ensures (bank.loadChain sdk depth programId accounts indices)
      (fun loaded => accounts <+: loaded.1) NoOverflow := by
  induction depth generalizing programId accounts indices with
  | zero =>
      exact .split (fun _ => .ok (List.prefix_refl _)) fun _ => .error (by simp [NoOverflow])
  | succ depth ih =>
      refine .split (fun _ => .ok (List.prefix_refl _)) fun _ => ?_
      refine (loadProgram_spec programId accounts indices).bind ?_
      rintro ⟨program, more, moreIndices⟩ extended
      exact (ih program.owner more moreIndices).mono fun loaded further => extended.trans further

/-- Executable accounts are appended to the accounts. -/
theorem loadExecutableAccounts_spec (accounts : List (Pubkey × Account)) (index : Nat) :
    Ensures (bank.loadExecutableAccounts sdk accounts index)
      (fun loaded => accounts <+: loaded.1) NoOverflow := by
  simp only [loadExecutableAccounts]
  split
  · exact .error (by simp [NoOverflow])
  · exact loadChain_spec _ _ _ _

/-- The programs of all instructions are appended to the accounts. -/
theorem loadPrograms_spec (instructions : List CompiledInstruction)
    (accounts : List (Pubkey × Account)) :
    Ensures (bank.loadPrograms sdk instructions accounts)
      (fun loaded => accounts <+: loaded.1) NoOverflow := by
  induction instructions generalizing accounts with
  | nil => exact .ok (List.prefix_refl accounts)
  | cons instruction rest ih =>
      refine (loadExecutableAccounts_spec accounts _).bind ?_
      rintro ⟨more, indices⟩ extended
      refine (ih more).bind ?_
      rintro ⟨final, others⟩ further
      exact .pure (extended.trans further)

/-- The accounts of a message come first, and hold what the bank holds. -/
structure LoadedFrom (bank : PgBank) (message : Message) (accounts : List (Pubkey × Account)) :
    Prop where
  keys : (accounts.take message.accountKeys.length).map Prod.fst = message.accountKeys
  lamports : (TransactionContext.mk accounts).total message.accountKeys.length =
    (message.accountKeys.map bank.lamportsAt).sum

/-- The first accounts decide whether they are loaded from the bank. -/
theorem LoadedFrom.of_front {front accounts : List (Pubkey × Account)}
    (keys : front.map Prod.fst = message.accountKeys)
    (lamports : front.map (fun entry => entry.2.lamports) =
      message.accountKeys.map bank.lamportsAt)
    (extended : front <+: accounts) : LoadedFrom bank message accounts := by
  have length : front.length = message.accountKeys.length := by
    rw [← keys, List.length_map]
  have taken : accounts.take message.accountKeys.length = front := by
    obtain ⟨more, rfl⟩ := extended
    exact List.take_left' length
  exact ⟨by rw [taken, keys], by rw [TransactionContext.total, taken, lamports]⟩

/-- The accounts of a transaction are loaded with the lamports of the bank. -/
theorem loadTx_spec (spares : bank.SparesInstructionsSysvar tx.message) :
    Ensures (bank.loadTx sdk tx) (fun loaded => LoadedFrom bank tx.message loaded.accounts)
      NoOverflow := by
  have special : ∀ key ∈ tx.message.accountKeys, key = Sysvar.instructions →
      bank.lamportsAt key = 0 := by
    rintro key member rfl
    exact spares.resolve_left (not_not_intro member)
  refine (Ensures.require fun _ => by simp [NoOverflow]).bind fun _ _ => ?_
  refine (loadAccounts_spec tx.message.accountKeys special 0 _).bind ?_
  rintro ⟨front, loading⟩ ⟨keys, lamports⟩
  refine .split (fun _ => ?_) fun _ => .error (by simp [NoOverflow])
  refine (loadPrograms_spec tx.message.instructions _).bind ?_
  rintro ⟨accounts, indices⟩ extended
  exact .pure (.of_front keys lamports ((List.prefix_append _ _).trans extended))

/-! ## Processing -/

/-- What a simulation answers: an error that is no overflow, or accounts that hold
what the bank holds for the keys of the message. -/
def Sound (bank : PgBank) (message : Message) (simulation : SimulateTransactionResult) : Prop :=
  Ensures simulation.result
    (fun _ => simulation.postAccounts.map Prod.fst = message.accountKeys ∧
      (simulation.postAccounts.map fun entry => entry.2.lamports).sum =
        (message.accountKeys.map bank.lamportsAt).sum)
    fun error => ∀ index, error ≠ .instructionError index .arithmeticOverflow

/-- Execution keeps the sum of the lamports. -/
theorem executeLoadedTx_spec {loaded : LoadedTransaction} {count : Nat}
    (listed : ∀ instruction ∈ tx.message.instructions, ∀ index ∈ instruction.accounts,
      index < count)
    (bounded : (TransactionContext.mk loaded.accounts).total count < 2 ^ 64) :
    Ensures (bank.executeLoadedTx runtime tx loaded)
      (fun executed => Keeps count ⟨loaded.accounts⟩ ⟨executed.1⟩) NoOverflow := by
  refine (Ensures.require fun _ => by simp [NoOverflow]).bind fun _ _ => ?_
  refine (processInstructions_keeps _ ?_ bounded 0).bind ?_
  · rintro ⟨instruction, indices⟩ member
    exact listed instruction (List.of_mem_zip member).1
  · rintro ⟨context, trace⟩ keeps
    exact .pure keeps

/-- Loaded and executed, a transaction keeps the sum but for the fee. -/
theorem loadAndExecuteTx_spec (bounded : bank.lamports < 2 ^ 64)
    (distinct : tx.message.accountKeys.Nodup)
    (spares : bank.SparesInstructionsSysvar tx.message) :
    Ensures (bank.loadAndExecuteTx runtime tx) (Sound bank tx.message) NoOverflow := by
  have held : (tx.message.accountKeys.map bank.lamportsAt).sum ≤ bank.lamports :=
    FiniteMap.sum_amountAt_le_total distinct
  refine (loadTx_spec spares).bind fun loaded from_ => ?_
  have boundedLoaded : (TransactionContext.mk loaded.accounts).total
      tx.message.accountKeys.length < 2 ^ 64 := by
    rw [from_.lamports]
    omega
  refine (executeLoadedTx_spec tx.sanitized.accounts boundedLoaded).bind ?_
  rintro ⟨accounts, report⟩ keeps
  refine .pure (Ensures.ok ⟨?_, keeps.total.trans from_.lamports⟩)
  rw [List.map_take, keeps.keys, ← List.map_take]
  exact from_.keys

/-- A simulation keeps the sum but for the fee. -/
theorem simulateTx_sound {simulation : SimulateTransactionResult}
    (bounded : bank.lamports < 2 ^ 64) (distinct : tx.message.accountKeys.Nodup)
    (spares : bank.SparesInstructionsSysvar tx.message)
    (simulated : bank.simulateTx runtime tx = .returned simulation) :
    Sound bank tx.message simulation := by
  have executes : Ensures (bank.loadAndExecuteTx runtime tx) _ _ :=
    loadAndExecuteTx_spec bounded distinct spares
  simp only [simulateTx] at simulated
  split at simulated
  next found =>
    cases simulated
    exact executes.of_ok found
  next error failed =>
    cases simulated
    exact fun index same => executes.of_error failed index (congrArg Failure.error same)
  next => cases simulated

/-- Committing accounts that hold what the bank held changes no total. -/
theorem lamports_committed {simulation : SimulateTransactionResult}
    (distinct : tx.message.accountKeys.Nodup)
    (keys : simulation.postAccounts.map Prod.fst = tx.message.accountKeys)
    (held : (simulation.postAccounts.map fun entry => entry.2.lamports).sum =
      (tx.message.accountKeys.map bank.lamportsAt).sum) :
    (bank.committed simulation).lamports = bank.lamports := by
  have replaced : (bank.committed simulation).lamports +
      ((simulation.postAccounts.map Prod.fst).map bank.lamportsAt).sum =
        bank.lamports + (simulation.postAccounts.map fun entry => entry.2.lamports).sum :=
    FiniteMap.total_insertAll (keys ▸ distinct)
  rw [keys, held] at replaced
  exact Nat.add_right_cancel replaced

/-- The lamports of the bank after a call are those before, and no sum overflowed. -/
structure Conserves (bank : PgBank) (call : Call (Except TransactionError Signature) × PgBank) :
    Prop where
  lamports : call.2.lamports = bank.lamports
  noOverflow : ∀ index, call.1 ≠
    .returned (.error (.instructionError index .arithmeticOverflow))

/-- Saving a transaction changes no accounts, and fails only for a recorded one. -/
theorem saveTx_conserves {simulation : SimulateTransactionResult} {fee : Nat}
    (same : (bank.committed simulation).lamports = bank.lamports) :
    Conserves bank ((bank.committed simulation).saveTx runtime tx simulation fee) := by
  obtain ⟨-, saves⟩ | ⟨-, -, saves⟩ | ⟨-, -, ⟨-, saves⟩ | ⟨data, saves⟩⟩ :=
    saveTx_cases (bank.committed simulation) runtime tx simulation fee
  all_goals
    rw [saves]
    exact ⟨same, by simp⟩

/-- A transaction destroys its fee and creates nothing. -/
theorem processTx_conserves (runtime : ProgramRuntime) (bounded : bank.lamports < 2 ^ 64)
    (distinct : tx.message.accountKeys.Nodup)
    (spares : bank.SparesInstructionsSysvar tx.message) :
    Conserves bank (bank.processTx runtime tx) := by
  obtain ⟨-, processed⟩ | ⟨simulation, error, simulated, failed, processed⟩ |
    ⟨simulation, simulated, succeeds, processed⟩ := processTx_cases bank runtime tx
  · rw [processed]
    exact ⟨rfl, by simp⟩
  · rw [processed]
    have sound := simulateTx_sound bounded distinct spares simulated
    refine ⟨rfl, fun index same => ?_⟩
    cases same
    exact sound.of_error failed index rfl
  · rw [processed]
    obtain ⟨keys, held⟩ := (simulateTx_sound bounded distinct spares simulated).of_ok succeeds
    exact saveTx_conserves (lamports_committed distinct keys held)

/-- Lamports are conserved by every transaction whose account keys differ from each
other, and by every airdrop, whether it is accepted or not. -/
theorem lamports_conserved (runtime : ProgramRuntime) (bank : PgBank)
    (bounded : bank.lamports < 2 ^ 64) :
    (∀ tx : SanitizedTransaction, tx.message.accountKeys.Nodup →
      bank.SparesInstructionsSysvar tx.message → Conserves bank (bank.processTx runtime tx)) ∧
    ∀ target lamports,
      bank.SparesInstructionsSysvar (bank.airdropMessage runtime.sdk target lamports) →
        Conserves bank (bank.airdrop runtime target lamports) := by
  refine ⟨fun tx distinct spares => processTx_conserves runtime bounded distinct spares, ?_⟩
  intro target lamports spares
  obtain failed | ⟨tx, isAirdrop, processed⟩ :=
    airdrop_cases bank runtime target lamports
  · rw [failed]
    exact ⟨rfl, by simp⟩
  · rw [processed]
    refine processTx_conserves runtime bounded ?_ (isAirdrop ▸ spares)
    rw [isAirdrop]
    exact transferKeys_nodup _ _

/-- The lamports of a new bank. -/
theorem newBank_lamports : newBank.lamports = 1000000000000005 := by decide +kernel

/-- A transfer and an airdrop conserve the lamports of a new bank. -/
theorem newBank_lamports_conserved :
    Conserves newBank (newBank.processTx transferRuntime oneLamport) ∧
      Conserves newBank (newBank.airdrop transferRuntime (sampleKey 2) 5) := by
  have bounded : newBank.lamports < 2 ^ 64 := by rw [newBank_lamports]; decide
  obtain ⟨transactions, airdrops⟩ := lamports_conserved transferRuntime newBank bounded
  exact ⟨transactions oneLamport (by decide) (.inr rfl), airdrops (sampleKey 2) 5 (.inr rfl)⟩

/-! ## Lamports that appear and disappear -/

/-- A transfer of one lamport, with another account among the keys. -/
def transferWith (other : Pubkey) : Message where
  header := ⟨1, 0, 2⟩
  accountKeys := [sampleKey 1, sampleKey 2, other, systemProgram]
  recentBlockhash := newBank.latestBlockhash
  instructions := [⟨3, [0, 1], transferSdk.serialize (.transfer 1)⟩]

/-- The payer is listed twice, so its old balance is committed last. -/
def payerTwice : SanitizedTransaction where
  message := transferWith (sampleKey 1)
  signatures := [⟨Vector.replicate 64 1⟩]
  sanitized := by decide
  signed := length_oneSignature

/-- A transfer that names the instructions sysvar. -/
def withSysvar : SanitizedTransaction where
  message := transferWith Sysvar.instructions
  signatures := [⟨Vector.replicate 64 1⟩]
  sanitized := by decide
  signed := length_oneSignature

/-- Seven lamports are stored for the instructions sysvar. -/
def sysvarBank : PgBank := newBank.setAccount Sysvar.instructions (Account.new 7 0 Sysvar.id)

/-- Both conditions are needed: an account that is listed twice makes lamports, and
the account of the instructions sysvar loses what the bank stores for it. -/
theorem not_always_conserved :
    (¬ ∀ (runtime : ProgramRuntime) (bank : PgBank) (tx : SanitizedTransaction),
      bank.lamports < 2 ^ 64 →
      (∀ instruction ∈ tx.message.instructions,
        tx.message.accountKeys[instruction.programIdIndex]? = some systemProgram) →
      bank.SparesInstructionsSysvar tx.message → (bank.processTx runtime tx).2.lamports =
        bank.lamports) ∧
    ¬ ∀ (runtime : ProgramRuntime) (bank : PgBank) (tx : SanitizedTransaction),
      bank.lamports < 2 ^ 64 →
      (∀ instruction ∈ tx.message.instructions,
        tx.message.accountKeys[instruction.programIdIndex]? = some systemProgram) →
      tx.message.accountKeys.Nodup → (bank.processTx runtime tx).2.lamports =
        bank.lamports := by
  constructor
  · intro conserved
    have made : (newBank.processTx transferRuntime payerTwice).2.lamports ≠ newBank.lamports := by
      decide +kernel
    exact made (conserved transferRuntime newBank payerTwice (by decide +kernel) (by decide)
      (.inr rfl))
  · intro conserved
    have lost : (sysvarBank.processTx transferRuntime withSysvar).2.lamports ≠
        sysvarBank.lamports := by
      decide +kernel
    exact lost (conserved transferRuntime sysvarBank withSysvar (by decide +kernel) (by decide)
      (by decide))

end PgBank
end Solpg.Playnet.Runtime
