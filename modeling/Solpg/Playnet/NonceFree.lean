import Solpg.Playnet.BlankNonce
import Solpg.Playnet.Drained
import Mathlib.Logic.Relation

/-!
# No initialized nonce account

`validate_fee_payer` has no answer for a fee payer that is an initialized nonce.
The sysvar cache has no recent blockhashes, so the system instructions that
initialize a nonce fail, and all others leave data that is none. Other programs
cannot write to accounts of the system program. So no such account ever comes
into being.
-/

namespace Solpg.Playnet.Runtime

open Solpg.Std
open Outcome

/-! ## What the runtime checks -/

/-- Accounts of other programs still belong to these. -/
def OwnersKept (context after : TransactionContext) : Prop :=
  ∀ {index : Nat} {key : Pubkey} {before account : Account},
    context.accounts[index]? = some (key, before) →
      after.accounts[index]? = some (key, account) → before.owner ≠ systemProgram →
        account.owner = before.owner

/-- What a program other than the system program may do to an account: it cannot
write to one of the system program, and cannot give one away before it is zeroed. -/
structure ByOther (before after : Account) : Prop where
  kept : before.owner = systemProgram → after.owner = systemProgram → after.data = before.data
  zeroed : before.owner ≠ systemProgram → after.owner = systemProgram →
    ∃ count, after.data = List.replicate count 0

/-- A program modifies accounts, or invokes the system program. -/
inductive ProgramStep (invokeContext : InvokeContext) (context after : TransactionContext) : Prop
    where
  | modify (changes : Changes ByOther context after)
  | invokeSystem (instruction : InstructionContext)
      (processed : processSystemInstruction invokeContext instruction context = .ok after)
      (kept : OwnersKept context after)

/-- What the code relies on in the runtime. -/
structure RuntimeRules (runtime : ProgramRuntime) : Prop where
  /-- The system program gives away only its own accounts. -/
  ownersKept : ∀ {trace instruction context after root},
    rootAccount instruction context = .ok root → builtinOf root = some .system →
      runtime.pop trace instruction context after = none → OwnersKept context after
  /-- The loaders, and what they execute. -/
  programSteps : ∀ {trace invokeContext instruction context after},
    runtime.processBpfLoaderInstruction trace invokeContext instruction context = .ok after →
      runtime.pop trace instruction context after = none →
        Relation.ReflTransGen (ProgramStep invokeContext) context after
  /-- The data of the instructions sysvar starts with the number of instructions and
  the offset of the first one, and ends with the current index. -/
  instructionsData : ∀ message : Message, message.instructions ≠ [] → ∃ rest, 2 ≤ rest.length ∧
    runtime.sdk.constructInstructionsData message =
      Codec.littleEndianBytes 2 message.instructions.length ++
        (Codec.littleEndianBytes 2 (2 + 2 * message.instructions.length) ++ rest)
  noInstructionsData : ∀ message : Message, message.instructions = [] →
    (runtime.sdk.constructInstructionsData message).length = 4

/-! ## Execution -/

/-- An account that is no initialized nonce. -/
def Plain (account : Account) : Prop := account.owner = systemProgram → Robust account.data

/-- No account of the list is a nonce account. -/
def AllPlain (accounts : List (Pubkey × Account)) : Prop := ∀ entry ∈ accounts, Plain entry.2

section Execution

variable {runtime : ProgramRuntime} {message : Message} {sysvarCache : SysvarCache}
  {invokeContext : InvokeContext} {instruction : InstructionContext}
  {context after : TransactionContext} {trace : Trace}

/-- Changes that keep accounts plain keep all of them plain. -/
theorem AllPlain.of_changes {R : Account → Account → Prop}
    (keeps : ∀ {before account}, R before account → Plain before → Plain account)
    (plain : AllPlain context.accounts) (changes : Changes R context after) :
    AllPlain after.accounts := by
  rintro ⟨key, account⟩ member
  obtain ⟨index, found⟩ := List.mem_iff_getElem?.mp member
  obtain ⟨before, foundBefore, related⟩ := changes.origin found
  exact keeps related (plain _ (List.mem_of_getElem? foundBefore))

/-- What another program does to an account keeps it plain. -/
theorem ByOther.plain {before account : Account} (changed : ByOther before account)
    (plain : Plain before) : Plain account := by
  intro owned
  by_cases ownedBefore : before.owner = systemProgram
  · rw [changed.kept ownedBefore owned]
    exact plain ownedBefore
  · obtain ⟨count, zeroes⟩ := changed.zeroed ownedBefore owned
    rw [zeroes]
    exact robust_zeroes count

/-- A system instruction harms no account, and takes none from another program. -/
theorem allPlain_of_harmless (plain : AllPlain context.accounts)
    (changes : Changes Harmless context after) (kept : OwnersKept context after) :
    AllPlain after.accounts := by
  rintro ⟨key, account⟩ member owned
  obtain ⟨index, found⟩ := List.mem_iff_getElem?.mp member
  obtain ⟨before, foundBefore, harmless⟩ := changes.origin found
  have ownedBefore : before.owner = systemProgram := by
    by_contra other
    exact other ((kept foundBefore found other).symm.trans owned)
  exact harmless (plain _ (List.mem_of_getElem? foundBefore) ownedBefore)

/-- By cases on who modifies the accounts. -/
theorem ProgramStep.allPlain (uncached : invokeContext.sysvarCache.recentBlockhashes = none)
    (step : ProgramStep invokeContext context after) (plain : AllPlain context.accounts) :
    AllPlain after.accounts := by
  cases step with
  | modify changes => exact plain.of_changes ByOther.plain changes
  | invokeSystem instruction processed kept =>
      have changes : Changes Harmless context after :=
        (processSystemInstruction_harmless uncached).of_ok processed
      exact allPlain_of_harmless plain changes kept

/-- The steps of programs keep all accounts plain. -/
theorem allPlain_of_programSteps (uncached : invokeContext.sysvarCache.recentBlockhashes = none)
    (steps : Relation.ReflTransGen (ProgramStep invokeContext) context after)
    (plain : AllPlain context.accounts) : AllPlain after.accounts := by
  induction steps with
  | refl => exact plain
  | tail _ step ih => exact step.allPlain uncached ih

/-- What passes the checks, whichever program the instruction is for. -/
theorem execute_plain (rules : RuntimeRules runtime)
    (uncached : sysvarCache.recentBlockhashes = none) (isPrecompile : Bool)
    (plain : AllPlain context.accounts) :
    Ensures (execute runtime message sysvarCache isPrecompile trace instruction context)
      (fun after => runtime.pop trace instruction context after = none → AllPlain after.accounts)
      fun _ => True := by
  refine .split (fun _ => .ok fun _ => plain) fun _ => ?_
  simp only [processExecutableChain]
  cases isRoot : rootAccount instruction context with
  | error error => exact .error trivial
  | ok root =>
      rw [Outcome.ok_bind]
      cases builtin : builtinOf root with
      | none => exact .error trivial
      | some program =>
          cases program with
          | system =>
              refine (processSystemInstruction_harmless uncached).mono fun after changes passed => ?_
              exact allPlain_of_harmless plain changes (rules.ownersKept isRoot builtin passed)
          | bpfLoader =>
              refine (Ensures.mapError fun _ => trivial).mono fun after processed passed => ?_
              exact allPlain_of_programSteps uncached (rules.programSteps processed passed) plain

/-- A check that passes says nothing. -/
theorem passes_none (check : Option RuntimeError) :
    Ensures (passes check) (fun _ => check = none) fun _ => True := by
  cases check with
  | none => exact .ok rfl
  | some error => exact .error trivial

/-- An instruction keeps all accounts plain while there are no recent blockhashes. -/
theorem processInstruction_plain (rules : RuntimeRules runtime)
    (uncached : sysvarCache.recentBlockhashes = none) (isPrecompile : Bool)
    (plain : AllPlain context.accounts) :
    Ensures (processInstruction runtime message sysvarCache isPrecompile trace instruction context)
      (fun after => AllPlain after.accounts) fun _ => True := by
  refine (Ensures.any _).bind fun _ _ => ?_
  refine (execute_plain rules uncached isPrecompile plain).bind fun after kept => ?_
  exact (passes_none _).bind fun _ passed => .pure (kept passed)

/-- The runtime stores the current index in the last two bytes. -/
theorem storeInstructionIndex_plain (instructionIndex : Nat) (plain : AllPlain context.accounts) :
    Ensures (storeInstructionIndex instructionIndex context)
      (fun after => AllPlain after.accounts) fun _ => True := by
  simp only [storeInstructionIndex]
  split
  · exact .ok plain
  · split
    · exact .error trivial
    next key account found =>
      split
      next data stored =>
        have changes : Changes (fun before account => Plain before → Plain account) context
            (context.put _ { account with data }) :=
          .put (fun _ => id) found fun before owned => (before owned).storeCurrentIndex stored
        exact .ok (AllPlain.of_changes (fun keeps => keeps) plain changes)
      next => exact .error trivial

/-- The loop over the instructions, by induction on those that are left. -/
theorem processInstructions_plain (rules : RuntimeRules runtime)
    (uncached : sysvarCache.recentBlockhashes = none)
    (instructions : List (CompiledInstruction × List Nat)) (instructionIndex : Nat)
    (plain : AllPlain context.accounts) :
    Ensures (processInstructions runtime message sysvarCache trace instructionIndex instructions
      context) (fun result => AllPlain result.1.accounts) fun _ => True := by
  induction instructions generalizing trace instructionIndex context with
  | nil => exact .ok plain
  | cons entry rest ih =>
      refine (storeInstructionIndex_plain instructionIndex plain).bind fun stored storedPlain => ?_
      refine ((processInstruction_plain rules uncached _ storedPlain).rename
        fun _ _ => trivial).bind fun after afterPlain => ?_
      exact ih (instructionIndex + 1) afterPlain

end Execution

namespace PgBank

variable {runtime : ProgramRuntime} {sdk : Sdk} {bank : PgBank} {tx : SanitizedTransaction}
  {message : Message}

/-- All accounts are plain, and no recent blockhashes are cached. -/
structure PlainBank (bank : PgBank) : Prop where
  accounts : FiniteMap.Holds (fun _ => Plain) bank.accounts
  uncached : bank.sysvarCache.recentBlockhashes = none

/-! ## Loading -/

/-- An account without data is plain. -/
theorem plain_of_empty {account : Account} (empty : account.data = []) : Plain account := by
  intro _
  rw [empty]
  exact robust_zeroes 0

/-- An account of another owner is plain. -/
theorem plain_of_owner {account : Account} (other : account.owner ≠ systemProgram) :
    Plain account :=
  fun owned => absurd owned other

/-- Every account read from a plain bank is plain. -/
theorem PlainBank.getAccountDefault (plain : PlainBank bank) (key : Pubkey) :
    Plain (bank.getAccountDefault key) := by
  simp only [PgBank.getAccountDefault, getAccount]
  cases found : bank.accounts.lookup key with
  | none => exact plain_of_empty rfl
  | some account => exact plain.accounts key account found

/-- The data of the instructions sysvar is no nonce, whatever the message. -/
theorem plain_constructInstructionsAccount (rules : RuntimeRules runtime) (message : Message) :
    Plain (constructInstructionsAccount runtime.sdk message false) := by
  intro _
  change Robust (runtime.sdk.constructInstructionsData message)
  by_cases none : message.instructions = []
  · exact robust_of_short (by rw [rules.noInstructionsData message none]; decide)
  · obtain ⟨rest, long, layout⟩ := rules.instructionsData message none
    rw [layout]
    refine robust_of_tag (by simp; omega) ?_
    have positive : 0 < message.instructions.length := List.length_pos_iff.mpr none
    simp [Codec.littleEndianBytes, Codec.ofLittleEndianBytes]
    omega

/-- An account that is plain is no nonce. -/
theorem kind_ne_nonce {account : Account} (plain : Plain account) :
    getSystemAccountKind account ≠ some .nonce := by
  intro nonce
  simp only [getSystemAccountKind] at nonce
  split at nonce
  next owned =>
    split at nonce
    · cases nonce
    · split at nonce
      · cases decoded : Versions.codec.deserialize account.data with
        | none => simp [decoded] at nonce
        | some versions =>
            have uninitialized := (plain owned).blank versions decoded
            simp [decoded, uninitialized] at nonce
      · cases nonce
  next => cases nonce

/-- No plain account makes the bank panic. -/
theorem checkFeePayer_plain {payer : Account} (plain : Plain payer) (fee : Nat)
    (loading : Loading) :
    Ensures (checkFeePayer payer fee loading) (fun _ => True) (· ≠ .panicked) := by
  refine .split (fun _ => .ok trivial) fun _ => ?_
  refine (Ensures.require fun _ => by simp).bind fun _ _ => ?_
  have kind := kind_ne_nonce plain
  split
  · exact .error (by simp)
  next nonce => exact absurd nonce kind
  · exact (Ensures.require fun _ => by simp).mono fun _ _ => trivial

/-- One plain account is all plain. -/
theorem allPlain_singleton {entry : Pubkey × Account} (plain : Plain entry.2) :
    AllPlain [entry] := by
  intro other member
  rw [List.mem_singleton.mp member]
  exact plain

/-- Two plain lists are plain together. -/
theorem AllPlain.append {first second : List (Pubkey × Account)} (before : AllPlain first)
    (after : AllPlain second) : AllPlain (first ++ second) := by
  intro entry member
  obtain early | late := List.mem_append.mp member
  · exact before entry early
  · exact after entry late

/-- A loaded program account is plain. -/
theorem loadProgramdata_plain (plain : PlainBank bank) (account : Account) :
    Ensures (bank.loadProgramdata sdk account) (fun loaded => Plain loaded.2) (· ≠ .panicked) := by
  simp only [loadProgramdata]
  split
  · exact .error (by simp)
  next address _ =>
    split
    · exact .error (by simp)
    next found => exact .ok (plain.accounts address _ found)

/-- The loaded dependencies are plain. -/
theorem loadDependencies_plain (plain : PlainBank bank) (account : Account) (index : Nat)
    {loading : Loading} (before : AllPlain loading.accountDeps) :
    Ensures (bank.loadDependencies sdk message index account loading)
      (fun loaded => AllPlain loaded.accountDeps) (· ≠ .panicked) := by
  refine .split (fun _ => ?_) fun _ => ?_
  · refine (Ensures.require fun _ => by simp).bind fun _ _ => ?_
    refine .split (fun _ => ?_) fun _ => .pure before
    exact (loadProgramdata_plain plain account).bind fun programdata isPlain =>
      .pure (AllPlain.append before (allPlain_singleton isPlain))
  · exact (Ensures.require fun _ => by simp).bind fun _ _ => .pure before

/-- A loaded account is plain. -/
theorem loadAccount_plain (rules : RuntimeRules runtime) (plain : PlainBank bank)
    (fee index : Nat) (key : Pubkey) {loading : Loading} (before : AllPlain loading.accountDeps) :
    Ensures (bank.loadAccount runtime.sdk message fee index key loading)
      (fun loaded => Plain loaded.1 ∧ AllPlain loaded.2.accountDeps) (· ≠ .panicked) := by
  refine .split (fun _ => .ok ⟨plain.getAccountDefault key, before⟩) fun _ => ?_
  refine .split (fun _ => .ok ⟨plain_constructInstructionsAccount rules message, before⟩) fun _ => ?_
  refine (checkFeePayer_plain (plain.getAccountDefault key) fee loading).bind fun _ _ => ?_
  have dependencies : Ensures (bank.loadDependencies runtime.sdk message index
      (bank.getAccountDefault key) { loading with validatedFeePayer := true })
      (fun loaded => AllPlain loaded.accountDeps) (· ≠ .panicked) :=
    loadDependencies_plain plain _ index before
  exact dependencies.bind fun loaded deps => .pure ⟨plain.getAccountDefault key, deps⟩

/-- The accounts of a message are plain, by induction on its keys. -/
theorem loadAccounts_plain (rules : RuntimeRules runtime) (plain : PlainBank bank) (fee : Nat)
    (keys : List Pubkey) (index : Nat) {loading : Loading}
    (before : AllPlain loading.accountDeps) :
    Ensures (bank.loadAccounts runtime.sdk message fee index keys loading)
      (fun loaded => AllPlain loaded.1 ∧ AllPlain loaded.2.accountDeps) (· ≠ .panicked) := by
  induction keys generalizing index loading with
  | nil => exact .ok ⟨by simp [AllPlain], before⟩
  | cons key rest ih =>
      refine (loadAccount_plain rules plain fee index key before).bind ?_
      rintro ⟨account, next⟩ ⟨first, deps⟩
      refine (ih (index + 1) deps).bind ?_
      rintro ⟨accounts, last⟩ ⟨others, lastDeps⟩
      exact .pure ⟨AllPlain.append (allPlain_singleton first) others, lastDeps⟩

/-- The index of a program that was appended, cut to 16 bits, is that of an account. -/
theorem asIndexOfAccount_lt (accounts : List (Pubkey × Account)) (entry : Pubkey × Account) :
    asIndexOfAccount accounts.length < (accounts ++ [entry]).length := by
  have cut := Nat.mod_le accounts.length (2 ^ 16)
  rw [asIndexOfAccount, List.length_append, List.length_singleton]
  omega

/-- Loading a program keeps all accounts plain. -/
theorem loadProgram_plain (plain : PlainBank bank) (programId : Pubkey)
    {accounts : List (Pubkey × Account)} (before : AllPlain accounts) (indices : List Nat) :
    Ensures (bank.loadProgram sdk programId accounts indices)
      (fun loaded => AllPlain loaded.2.1) (· ≠ .panicked) := by
  simp only [loadProgram]
  split
  · exact .error (by simp)
  next programAccount found =>
    have appended : AllPlain (accounts ++ [(programId, programAccount)]) :=
      AllPlain.append before (allPlain_singleton (plain.accounts programId programAccount found))
    split
    next missing =>
      rw [List.getElem?_eq_getElem (asIndexOfAccount_lt accounts _)] at missing
      cases missing
    · refine (Ensures.require fun _ => by simp).bind fun _ _ => ?_
      refine .split (fun _ => ?_) fun _ => .pure appended
      exact (loadProgramdata_plain plain _).bind fun programdata isPlain =>
        .pure (AllPlain.append appended (allPlain_singleton isPlain))

/-- Loading a chain of owners keeps all accounts plain. -/
theorem loadChain_plain (plain : PlainBank bank) (depth : Nat) (programId : Pubkey)
    {accounts : List (Pubkey × Account)} (before : AllPlain accounts) (indices : List Nat) :
    Ensures (bank.loadChain sdk depth programId accounts indices)
      (fun loaded => AllPlain loaded.1) (· ≠ .panicked) := by
  induction depth generalizing programId accounts indices with
  | zero => exact .split (fun _ => .ok before) fun _ => .error (by simp)
  | succ depth ih =>
      refine .split (fun _ => .ok before) fun _ => ?_
      refine (loadProgram_plain plain programId before indices).bind ?_
      rintro ⟨program, more, moreIndices⟩ extended
      exact ih program.owner extended moreIndices

/-- Loading the programs keeps all accounts plain. -/
theorem loadPrograms_plain (plain : PlainBank bank) (instructions : List CompiledInstruction)
    {accounts : List (Pubkey × Account)} (before : AllPlain accounts) :
    Ensures (bank.loadPrograms sdk instructions accounts) (fun loaded => AllPlain loaded.1)
      (· ≠ .panicked) := by
  induction instructions generalizing accounts with
  | nil => exact .ok before
  | cons instruction rest ih =>
      have chain : Ensures
          (bank.loadExecutableAccounts sdk accounts instruction.programIdIndex)
          (fun loaded => AllPlain loaded.1) (· ≠ .panicked) := by
        simp only [loadExecutableAccounts]
        split
        · exact .error (by simp)
        · exact loadChain_plain plain 5 _ before []
      refine chain.bind ?_
      rintro ⟨more, indices⟩ extended
      refine (ih extended).bind ?_
      rintro ⟨final, others⟩ all
      exact .pure all

/-- Loading does not panic, and loads plain accounts. -/
theorem loadTx_plain (rules : RuntimeRules runtime) (plain : PlainBank bank)
    (tx : SanitizedTransaction) :
    Ensures (bank.loadTx runtime.sdk tx) (fun loaded => AllPlain loaded.accounts)
      (· ≠ .panicked) := by
  refine (Ensures.require fun _ => by simp).bind fun _ _ => ?_
  have noDeps : AllPlain (Loading.accountDeps ⟨false, []⟩) := by simp [AllPlain]
  refine (loadAccounts_plain rules plain 0 tx.message.accountKeys 0 noDeps).bind ?_
  rintro ⟨front, loading⟩ ⟨before, deps⟩
  refine .split (fun _ => ?_) fun _ => .error (by simp)
  refine (loadPrograms_plain plain tx.message.instructions (AllPlain.append before deps)).bind ?_
  rintro ⟨accounts, indices⟩ extended
  exact .pure extended

/-! ## Processing -/

/-- The accounts after an execution are plain. -/
theorem loadAndExecuteTx_plain (rules : RuntimeRules runtime) (plain : PlainBank bank)
    (tx : SanitizedTransaction) :
    Ensures (bank.loadAndExecuteTx runtime tx) (fun simulation => AllPlain simulation.postAccounts)
      fun _ => True := by
  refine (loadTx_plain rules plain tx).anyError.bind fun loaded loadedPlain => ?_
  have executed : Ensures (bank.executeLoadedTx runtime tx loaded)
      (fun result => AllPlain result.1) fun _ => True := by
    refine (Ensures.any _).bind fun _ _ => ?_
    refine (processInstructions_plain rules plain.uncached _ 0 loadedPlain).bind ?_
    rintro ⟨context, trace⟩ contextPlain
    exact .pure contextPlain
  refine executed.bind ?_
  rintro ⟨accounts, report⟩ accountsPlain
  exact .pure fun entry member => accountsPlain entry (List.mem_of_mem_take member)

/-- The accounts after a simulation are plain. -/
theorem simulateTx_plain (rules : RuntimeRules runtime) (plain : PlainBank bank)
    {simulation : SimulateTransactionResult}
    (simulated : bank.simulateTx runtime tx = .returned simulation) :
    AllPlain simulation.postAccounts := by
  simp only [simulateTx] at simulated
  cases executed : bank.loadAndExecuteTx runtime tx with
  | ok result =>
      rw [executed] at simulated
      cases simulated
      exact (loadAndExecuteTx_plain rules plain tx).of_ok executed
  | error failure =>
      rw [executed] at simulated
      cases failure with
      | error error =>
          cases simulated
          intro entry member
          cases member
      | panicked => cases simulated

/-- No call changes the sysvar cache. -/
theorem processTx_sysvarCache (bank : PgBank) (runtime : ProgramRuntime)
    (tx : SanitizedTransaction) :
    (bank.processTx runtime tx).2.sysvarCache = bank.sysvarCache := by
  obtain ⟨-, processed⟩ | ⟨_, _, -, -, processed⟩ | ⟨simulation, -, -, processed⟩ :=
    processTx_cases bank runtime tx
  · rw [processed]
  · rw [processed]
  · rw [processed]
    obtain ⟨-, saves⟩ | ⟨-, -, saves⟩ | ⟨-, -, ⟨-, saves⟩ | ⟨data, saves⟩⟩ :=
      saveTx_cases (bank.committed simulation) runtime tx simulation 0 <;> rw [saves] <;> rfl

/-- A processed transaction leaves the bank plain. -/
theorem processTx_plain (rules : RuntimeRules runtime) (plain : PlainBank bank)
    (tx : SanitizedTransaction) : PlainBank (bank.processTx runtime tx).2 where
  accounts := by
    obtain ⟨-, same⟩ | ⟨simulation, simulated, -, accounts⟩ := processTx_accounts bank runtime tx
    · rw [same]
      exact plain.accounts
    · rw [accounts]
      exact plain.accounts.insertAll (simulateTx_plain rules plain simulated)
  uncached := by
    rw [processTx_sysvarCache]
    exact plain.uncached

/-- The accounts that are created are no nonces. -/
theorem new_plain (sdk : Sdk) (keypair : Keypair) {saved : Option SaveData}
    (plain : FiniteMap.Holds (fun _ => Plain) (restored sdk keypair saved).accounts) :
    PlainBank (new sdk keypair saved) where
  accounts := by
    rw [new_accounts]
    refine plain.insertAll fun entry member => ?_
    obtain native | airdrop := List.mem_append.mp member
    · refine plain_of_owner ?_
      simp only [nativeAccounts, List.mem_cons, List.not_mem_nil, or_false] at native
      obtain rfl | rfl | rfl | rfl | rfl := native <;>
        simp only [nativeAccount, sysvarAccount, Account.new] <;> decide
    · rw [List.mem_singleton.mp airdrop]
      exact plain_of_empty rfl
  uncached := by cases saved <;> rfl

/-- Every call leaves the bank plain. -/
theorem step_plain (rules : RuntimeRules runtime) (plain : PlainBank bank) (call : BankCall) :
    PlainBank (bank.step runtime call) := by
  obtain ⟨tx, -, stepped⟩ | ⟨-, stepped | ⟨keypair, stepped⟩⟩ := step_eq runtime bank call
  · rw [stepped]
    exact processTx_plain rules plain tx
  · rw [stepped]
    exact plain
  · rw [stepped]
    exact new_plain runtime.sdk keypair plain.accounts

/-! ## Fee payers -/

/-- No account is classified as a nonce, and loading a transaction never reaches
the arm that is not implemented. -/
structure NonceFree (sdk : Sdk) (bank : PgBank) : Prop where
  accounts : ∀ key, getSystemAccountKind (bank.getAccountDefault key) ≠ some .nonce
  payers : ∀ tx, bank.loadTx sdk tx ≠ .error .panicked

/-- A plain bank holds no nonce account. -/
theorem nonceFree_of_plain (rules : RuntimeRules runtime) (plain : PlainBank bank) :
    NonceFree runtime.sdk bank where
  accounts key := kind_ne_nonce (plain.getAccountDefault key)
  payers tx panics := (loadTx_plain rules plain tx).of_error panics rfl

/-- Whatever is called on a new bank, no initialized nonce account is created. -/
theorem nonceFree_throughout (runtime : ProgramRuntime) (rules : RuntimeRules runtime)
    (keypair : Keypair) (calls : List BankCall) :
    (machine runtime).Throughout (NonceFree runtime.sdk) (new runtime.sdk keypair none) calls := by
  have plain : (machine runtime).Throughout PlainBank (new runtime.sdk keypair none) calls := by
    refine Machine.throughout_of_preserved PlainBank ?_ calls
      (new_plain runtime.sdk keypair FiniteMap.holds_empty)
    intro bank call next plain stepped
    obtain rfl := Option.some.inj stepped
    exact step_plain rules plain call
  exact plain.mono fun bank => nonceFree_of_plain rules

/-! ## A runtime that keeps the rules -/

/-- The layout of the instructions sysvar, without the instructions themselves. -/
def instructionsLayout (message : Message) : List UInt8 :=
  if message.instructions = [] then [0, 0, 0, 0]
  else Codec.littleEndianBytes 2 message.instructions.length ++
    (Codec.littleEndianBytes 2 (2 + 2 * message.instructions.length) ++ [0, 0])

/-- After an instruction, only accounts of the system program may have other owners. -/
def checkOwners (context after : TransactionContext) : Option RuntimeError :=
  if (context.accounts.zip after.accounts).all fun entry =>
      entry.1.2.owner == systemProgram || entry.2.2.owner == entry.1.2.owner then none
  else some (.access .modifiedProgramId)

/-- A runtime that checks the owners of accounts. -/
def checkingRuntime : ProgramRuntime :=
  { transferRuntime with
    sdk := { transferSdk with constructInstructionsData := instructionsLayout }
    pop := fun _ _ context after => checkOwners context after
    balanced := fun failed => by simp [transferRuntime] at failed }

/-- A passed check keeps the owners. -/
theorem ownersKept_of_checkOwners {context after : TransactionContext}
    (passed : checkOwners context after = none) : OwnersKept context after := by
  intro index key before account foundBefore foundAfter other
  simp only [checkOwners, ite_eq_left_iff, reduceCtorEq, imp_false, not_not] at passed
  have paired : (context.accounts.zip after.accounts)[index]? =
      some ((key, before), (key, account)) := by
    rw [List.getElem?_zip_eq_some]
    exact ⟨foundBefore, foundAfter⟩
  have checked := List.all_eq_true.mp passed _ (List.mem_of_getElem? paired)
  simpa [other] using checked

/-- The checking runtime obeys the rules. -/
theorem checkingRuntime_rules : RuntimeRules checkingRuntime where
  ownersKept _ _ passed := ownersKept_of_checkOwners passed
  programSteps processed := by cases processed
  instructionsData message nonempty := ⟨[0, 0], le_rfl, if_neg nonempty⟩
  noInstructionsData message empty := by
    change (instructionsLayout message).length = 4
    rw [instructionsLayout, if_pos empty]
    rfl

/-- A transfer, an airdrop and a reload. -/
theorem nonceFree_after_transfer :
    (machine checkingRuntime).Throughout (NonceFree checkingRuntime.sdk)
      (new checkingRuntime.sdk ⟨sampleKey 1, []⟩ none)
      [.processTx oneLamport, .airdrop (sampleKey 3) 5, .reload ⟨sampleKey 1, []⟩] :=
  nonceFree_throughout checkingRuntime checkingRuntime_rules ⟨sampleKey 1, []⟩ _

end PgBank

end Solpg.Playnet.Runtime
