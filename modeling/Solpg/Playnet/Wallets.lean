import Solpg.Playnet.ChainState
import Solpg.Playnet.NonceFree
import Solpg.Playnet.ProgramLoading
import Solpg.Playnet.Reload

/-!
# Wallets over whole runs

A wallet is an account of the system program, and its data is settled: either it
is no nonce, or a nonce of the current version that is initialized. Whoever does
not sign for it cannot take from it: a transaction is loaded from the bank, each
of its instructions spares the wallet, and what is committed is what the
instructions leave. So along every run whose transactions are signed by others,
transactions that list keys more than once and reloads included, a wallet never
loses, and a nonce is never advanced.
-/

namespace Solpg.Playnet.Runtime

open Solpg.Std
open Outcome

/-- An account of the system program with this data that holds at least this much. -/
structure Wallet (amount : Nat) (data : List UInt8) (account : Account) : Prop where
  owner : account.owner = systemProgram
  data : account.data = data
  funded : amount ≤ account.lamports

/-- Data that nobody may initialize or upgrade: what reads as a nonce is one of
the current version that is initialized. -/
def Settled (data : List UInt8) : Prop :=
  ∀ versions, Versions.codec.deserialize data = some versions →
    ∃ nonce, versions = .current (.initialized nonce)

/-- Who signs for an account: its key, a base that the key derives from, or the
authority of the nonce that is its data. -/
inductive Controls (sdk : Sdk) (key : Pubkey) (data : List UInt8) : Pubkey → Prop
  | itself : Controls sdk key data key
  | base {signer : Pubkey} (seed : String) (owner : Pubkey)
      (derived : sdk.createWithSeed signer seed owner = .ok key) : Controls sdk key data signer
  | nonceAuthority {versions : Versions} {nonce : NonceData}
      (stored : Versions.codec.deserialize data = some versions)
      (initialized : versions.state = .initialized nonce) : Controls sdk key data nonce.authority

/-- Wherever the key is listed, it has the wallet. -/
def HoldsWallet (key : Pubkey) (amount : Nat) (data : List UInt8) (accounts : List (Pubkey × Account)) : Prop :=
  ∀ entry ∈ accounts, entry.1 = key → Wallet amount data entry.2

/-- Accounts with the same keys, in which the wallet is still held. -/
structure Spares (key : Pubkey) (amount : Nat) (data : List UInt8) (context after : TransactionContext) : Prop where
  keys : after.accounts.map Prod.fst = context.accounts.map Prod.fst
  holds : HoldsWallet key amount data context.accounts → HoldsWallet key amount data after.accounts

/-! ## What the runtime checks -/

/-- What a program other than the system program may do to an account of that
one: give it lamports. -/
structure Receives (before after : Account) : Prop where
  owner : after.owner = before.owner
  data : after.data = before.data
  lamports : before.lamports ≤ after.lamports

/-- A program modifies accounts, or invokes the system program with the signers
that it was called with and the keys that programs derive. -/
inductive SignedStep (derived : Pubkey → Prop) (invokeContext : InvokeContext)
    (instruction : InstructionContext) (context after : TransactionContext) : Prop where
  | modify (changes : Changes
      (fun before account => before.owner = systemProgram → Receives before account) context after)
  | invokeSystem (callee : InstructionContext)
      (processed : processSystemInstruction invokeContext callee context = .ok after)
      (privileges : ∀ key, callee.IsSigner context key →
        instruction.IsSigner context key ∨ derived key)

/-- What the code relies on in the runtime: the loaders, and what they execute. -/
def SignedSteps (runtime : ProgramRuntime) (derived : Pubkey → Prop) : Prop :=
  ∀ {trace invokeContext instruction context after},
    invokeContext.sdk = runtime.sdk →
      runtime.processBpfLoaderInstruction trace invokeContext instruction context = .ok after →
        runtime.pop trace instruction context after = none →
          Relation.ReflTransGen (SignedStep derived invokeContext instruction) context after

section Execution

variable {runtime : ProgramRuntime} {message : Message} {sysvarCache : SysvarCache}
  {invokeContext : InvokeContext} {instruction : InstructionContext}
  {context middle after : TransactionContext} {trace : Trace} {key : Pubkey} {amount : Nat}
  {data : List UInt8} {derived : Pubkey → Prop}

/-- No change spares every account. -/
theorem Spares.refl (context : TransactionContext) : Spares key amount data context context :=
  ⟨rfl, id⟩

/-- Two changes that spare an account spare it together. -/
theorem Spares.trans (first : Spares key amount data context middle)
    (second : Spares key amount data middle after) : Spares key amount data context after :=
  ⟨second.keys.trans first.keys, second.holds ∘ first.holds⟩

/-- Changes that leave a wallet a wallet. -/
theorem Spares.of_changes {R : Account → Account → Prop}
    (keeps : ∀ {before account}, R before account → Wallet amount data before → Wallet amount data account)
    (changes : Changes R context after) : Spares key amount data context after := by
  constructor
  · apply List.ext_getElem?
    intro index
    rw [List.getElem?_map, List.getElem?_map]
    cases found : context.accounts[index]? with
    | none =>
        rw [List.getElem?_eq_none_iff] at found
        rw [List.getElem?_eq_none (changes.length.trans_le found)]
    | some entry =>
        obtain ⟨account, stays, -⟩ := changes.account found
        rw [stays]
        rfl
  · rintro held ⟨other, account⟩ member (rfl : other = key)
    obtain ⟨index, found⟩ := List.mem_iff_getElem?.mp member
    obtain ⟨before, foundBefore, related⟩ := changes.origin found
    exact keeps related (held _ (List.mem_of_getElem? foundBefore) rfl)

/-! ## The system program -/

/-- A nonce is upgraded where it is not settled. -/
theorem upgradeNonceAccount_changes {signers : List Pubkey} :
    Ensures (processVariant invokeContext instruction context signers .upgradeNonceAccount)
      (Changes (fun before account => Settled before.data → account = before) context)
      fun _ => True := by
  refine (Ensures.any _).bind fun _ _ => ?_
  refine (InstructionContext.tryBorrow_spec (fun _ _ => trivial) 0).bind ?_
  rintro borrowed ⟨of, -⟩
  refine (Ensures.any _).bind fun _ _ => (Ensures.any _).bind fun _ _ => ?_
  refine (getState_spec fun _ _ => trivial).bind fun versions decoded => ?_
  cases upgrades : versions.upgrade invokeContext.sdk with
  | none => exact .error trivial
  | some upgraded =>
      refine (BorrowedAccount.setState_spec (fun _ _ => trivial) _).bind ?_
      rintro _ ⟨data, rfl⟩
      refine .pure ?_
      rw [TransactionContext.drop_withAccount of]
      refine .put (fun _ _ => rfl) of fun settled => ?_
      obtain ⟨nonce, rfl⟩ := settled versions decoded
      cases upgrades

/-- Settled data changes only with a signature. -/
theorem data_kept {variant : SystemInstruction} {index : Nat} {before account : Account}
    (decoded : invokeContext.sdk.deserialize instruction.instructionData = some variant)
    (succeeded : processSystemInstruction invokeContext instruction context = .ok after)
    (exempt : Exempt variant before) (settled : Settled before.data)
    (found : context.accounts[index]? = some (key, before))
    (stays : after.accounts[index]? = some (key, account)) : account.data = before.data := by
  cases exempt with
  | initialization authorized fresh =>
      obtain ⟨versions, stored, uninitialized⟩ := fresh
      obtain ⟨nonce, rfl⟩ := settled versions stored
      cases uninitialized
  | upgrade =>
      have spec : Ensures (processSystemInstruction invokeContext instruction context)
          (Changes (fun before account => Settled before.data → account = before) context)
          fun _ => True := by
        refine (limitedDeserialize_spec fun _ _ => trivial).bind fun other same => ?_
        obtain rfl := Option.some.inj (decoded.symm.trans same)
        exact (Ensures.any _).bind fun _ _ => upgradeNonceAccount_changes
      obtain ⟨kept, again, unchanged⟩ := (spec.of_ok succeeded).account found
      rw [stays] at again
      cases again
      rw [unchanged settled]

/-- Nobody who signs an instruction of the system program has a say over the key. -/
def Unsigned (sdk : Sdk) (key : Pubkey) (data : List UInt8) (instruction : InstructionContext)
    (context : TransactionContext) : Prop :=
  ∀ signer, instruction.IsSigner context signer → ¬ Controls sdk key data signer

/-- Without a signature, a system instruction takes nothing from a wallet. -/
theorem processSystemInstruction_spares (settled : Settled data)
    (unsigned : Unsigned invokeContext.sdk key data instruction context)
    (succeeded : processSystemInstruction invokeContext instruction context = .ok after) :
    Spares key amount data context after := by
  have spec := @processSystemInstruction_spec invokeContext instruction context (fun _ => True)
    (fun _ _ => trivial) (.inl trivial)
  obtain ⟨variant, decoded, effect⟩ := spec.of_ok succeeded
  refine ⟨effect.keys_eq, ?_⟩
  rintro held ⟨own, account⟩ member isKey
  change own = key at isKey
  subst isKey
  obtain ⟨index, found⟩ := List.mem_iff_getElem?.mp member
  have keys := congrArg (·[index]?) effect.keys_eq
  simp only [List.getElem?_map, found, Option.map_some] at keys
  obtain ⟨⟨other, before⟩, foundBefore, sameKey⟩ := Option.map_eq_some_iff.mp keys.symm
  change other = own at sameKey
  subst sameKey
  have wallet := held _ (List.mem_of_getElem? foundBefore) rfl
  have unauthorized : ¬ Authorized invokeContext.sdk instruction context other before := by
    intro authorized
    cases authorized with
    | itself signs => exact unsigned _ signs .itself
    | base base seed owner derives signs => exact unsigned base signs (.base seed owner derives)
    | nonceAuthority authority stored signs =>
        obtain ⟨versions, nonce, isStored, initialized, rfl⟩ := stored
        rw [wallet.data] at isStored
        exact unsigned _ signs (.nonceAuthority isStored initialized)
  obtain ⟨_, again, lamports, owner, changes⟩ := effect.guarded index _ before foundBefore
  rw [found] at again
  cases again
  constructor
  · by_contra changed
    refine unauthorized (owner (fun same => changed ?_) _ before foundBefore)
    exact same.trans wallet.owner
  · by_cases same : account.data = before.data
    · exact same.trans wallet.data
    · obtain authorized | exempt := changes same _ before foundBefore
      · exact absurd authorized unauthorized
      · have still : Settled before.data := wallet.data ▸ settled
        exact absurd (data_kept decoded succeeded exempt still foundBefore found) same
  · by_contra less
    have funded : amount ≤ before.lamports := wallet.funded
    exact unauthorized (lamports (Nat.lt_of_lt_of_le (not_le.mp less) funded) _ before foundBefore)

/-! ## An instruction -/

/-- Whether an account has signed depends on the keys alone. -/
theorem Unsigned.of_keys {sdk : Sdk}
    (unsigned : Unsigned sdk key data instruction context)
    (keys : after.accounts.map Prod.fst = context.accounts.map Prod.fst) :
    Unsigned sdk key data instruction after :=
  fun signer signs => unsigned signer (signs.of_keys keys)

/-- A program spares a wallet that it does not sign for, step by step. -/
theorem spares_of_steps (settled : Settled data)
    (foreign : ∀ signer, derived signer → ¬ Controls invokeContext.sdk key data signer)
    (unsigned : Unsigned invokeContext.sdk key data instruction context)
    (steps : Relation.ReflTransGen (SignedStep derived invokeContext instruction) context after) :
    Spares key amount data context after := by
  induction steps with
  | refl => exact .refl context
  | tail _ step ih =>
      refine ih.trans ?_
      cases step with
      | modify changes =>
          refine .of_changes (fun {before account} receives wallet => ?_) changes
          obtain ⟨owner, same, lamports⟩ := receives wallet.owner
          exact ⟨owner.trans wallet.owner, same.trans wallet.data, wallet.funded.trans lamports⟩
      | invokeSystem callee processed privileges =>
          refine processSystemInstruction_spares settled (fun signer signs => ?_) processed
          obtain own | derives := privileges signer signs
          · exact unsigned.of_keys ih.keys signer own
          · exact foreign signer derives

/-- The signers of a message come first among its keys. -/
def signersOf (message : Message) : List Pubkey :=
  message.accountKeys.take message.header.numRequiredSignatures

/-- An instruction of a message is signed by signers of the message. -/
theorem unsigned_of_message {sdk : Sdk} {compiled : CompiledInstruction}
    {programIndices : List Nat}
    (front : message.accountKeys <+: context.accounts.map Prod.fst)
    (listed : ∀ index ∈ compiled.accounts, index < message.accountKeys.length)
    (others : ∀ signer ∈ signersOf message, ¬ Controls sdk key data signer) :
    Unsigned sdk key data
      ⟨programIndices, instructionAccounts runtime message compiled, compiled.data⟩ context := by
  rintro signer ⟨account, member, flag, found⟩
  obtain ⟨position, bound, rfl⟩ := List.mem_iff_getElem.mp member
  simp only [instructionAccounts, List.getElem_mapIdx, Message.isSigner, decide_eq_true_eq] at flag found
  rw [instructionAccounts, List.length_mapIdx] at bound
  have inside := listed _ (List.getElem_mem bound)
  refine others signer (List.mem_of_getElem? (i := compiled.accounts[position]) ?_)
  rw [signersOf, List.getElem?_take_of_lt flag]
  have stands : (context.accounts.map Prod.fst)[compiled.accounts[position]]? = some signer := by
    simp only [TransactionContext.getKeyOfAccountAtIndex] at found
    rw [List.getElem?_map]
    cases at_ : context.accounts[compiled.accounts[position]]? with
    | none => simp [at_] at found
    | some entry => simpa [at_] using found
  obtain ⟨more, extended⟩ := front
  rw [← extended, List.getElem?_append_left inside] at stands
  exact stands

/-- An instruction spares an account that has not signed. -/
theorem execute_spares (amount : Nat) (settled : Settled data) (rules : SignedSteps runtime derived)
    (foreign : ∀ signer, derived signer → ¬ Controls runtime.sdk key data signer)
    (unsigned : Unsigned runtime.sdk key data instruction context) (isPrecompile : Bool) :
    Ensures (execute runtime message sysvarCache isPrecompile trace instruction context)
      (fun after => runtime.pop trace instruction context after = none →
        Spares key amount data context after) fun _ => True := by
  refine .split (fun _ => .ok fun _ => .refl context) fun _ => ?_
  simp only [processExecutableChain]
  cases rootAccount instruction context with
  | error error => exact .error trivial
  | ok root =>
      rw [Outcome.ok_bind]
      cases builtinOf root with
      | none => exact .error trivial
      | some program =>
          cases program with
          | system =>
              cases processed : processSystemInstruction
                  (Runtime.invokeContext runtime message sysvarCache instruction) instruction
                  context with
              | error error => exact .error trivial
              | ok after =>
                  exact .ok fun _ => processSystemInstruction_spares settled unsigned processed
          | bpfLoader =>
              refine (Ensures.mapError fun _ => trivial).mono fun after processed passed => ?_
              exact spares_of_steps settled foreign unsigned (rules rfl processed passed)

/-- The index of an instruction is stored in its sysvar only. -/
theorem storeInstructionIndex_spares (amount : Nat) (data : List UInt8)
    (notSysvar : key ≠ Sysvar.instructions) (instructionIndex : Nat) :
    Ensures (storeInstructionIndex instructionIndex context) (Spares key amount data context)
      fun _ => True := by
  simp only [storeInstructionIndex]
  split
  · exact .ok (.refl context)
  next accountIndex at_ =>
    split
    · exact .error trivial
    next other account found =>
      split
      · refine .ok ⟨TransactionContext.put_keys, ?_⟩
        have special : other = Sysvar.instructions := by
          have matched := List.findIdx?_eq_some_iff_getElem.mp at_
          obtain ⟨bound, isKey, -⟩ := matched
          rw [List.getElem?_eq_getElem bound] at found
          rw [Option.some.inj found] at isKey
          exact beq_iff_eq.mp isKey
        rintro held ⟨listed, entry⟩ member (rfl : listed = key)
        obtain ⟨index, foundAfter⟩ := List.mem_iff_getElem?.mp member
        rw [TransactionContext.put_getElem? found] at foundAfter
        split at foundAfter
        · cases foundAfter
          exact absurd special notSysvar
        · exact held _ (List.mem_of_getElem? foundAfter) rfl
      · exact .error trivial

/-- The loop over the instructions, by induction on those that are left. -/
theorem processInstructions_spares (amount : Nat) (settled : Settled data)
    (rules : SignedSteps runtime derived)
    (foreign : ∀ signer, derived signer → ¬ Controls runtime.sdk key data signer)
    (others : ∀ signer ∈ signersOf message, ¬ Controls runtime.sdk key data signer)
    (notSysvar : key ≠ Sysvar.instructions)
    (instructions : List (CompiledInstruction × List Nat))
    (listed : ∀ entry ∈ instructions, ∀ index ∈ entry.1.accounts,
      index < message.accountKeys.length)
    (front : message.accountKeys <+: context.accounts.map Prod.fst) (instructionIndex : Nat) :
    Ensures (processInstructions runtime message sysvarCache trace instructionIndex instructions
      context) (fun result => Spares key amount data context result.1) fun _ => True := by
  induction instructions generalizing trace instructionIndex context with
  | nil => exact .ok (.refl context)
  | cons entry rest ih =>
      obtain ⟨compiled, programIndices⟩ := entry
      refine (storeInstructionIndex_spares amount data notSysvar instructionIndex).bind
        fun stored spares => ?_
      have frontStored : message.accountKeys <+: stored.accounts.map Prod.fst :=
        spares.keys ▸ front
      have unsigned : Unsigned runtime.sdk key data
          ⟨programIndices, instructionAccounts runtime message compiled, compiled.data⟩ stored :=
        unsigned_of_message frontStored (listed _ List.mem_cons_self) others
      have processed : Ensures (processInstruction runtime message sysvarCache
          ((message.accountKeys[compiled.programIdIndex]?).any runtime.sdk.isPrecompile) trace
          ⟨programIndices, instructionAccounts runtime message compiled, compiled.data⟩ stored)
          (Spares key amount data stored) fun _ => True := by
        refine (Ensures.any _).bind fun _ _ => ?_
        refine (execute_spares amount settled rules foreign unsigned _).bind fun after kept => ?_
        exact (passes_none _).bind fun _ passed => .pure (kept passed)
      refine (processed.rename fun _ _ => trivial).bind fun after kept => ?_
      refine (ih (fun other member => listed other (List.mem_cons_of_mem _ member))
        (kept.keys ▸ frontStored) (instructionIndex + 1)).mono fun result rest => ?_
      exact (spares.trans kept).trans rest

end Execution

namespace PgBank

variable {runtime : ProgramRuntime} {sdk : Sdk} {bank : PgBank} {tx : SanitizedTransaction}
  {message : Message} {key : Pubkey} {amount : Nat} {data : List UInt8}
  {derived : Pubkey → Prop}

/-! ## Loading -/

/-- The accounts are those of the bank, but for the instructions sysvar. -/
def Stored (bank : PgBank) (accounts : List (Pubkey × Account)) : Prop :=
  ∀ entry ∈ accounts, entry.1 ≠ Sysvar.instructions → entry.2 = bank.getAccountDefault entry.1

/-- Accounts of the bank, together. -/
theorem Stored.append {first second : List (Pubkey × Account)} (before : bank.Stored first)
    (after : bank.Stored second) : bank.Stored (first ++ second) := by
  intro entry member
  obtain early | late := List.mem_append.mp member
  · exact before entry early
  · exact after entry late

/-- An account that is found is of the bank. -/
theorem stored_singleton {account : Account} (found : bank.getAccount key = some account) :
    bank.Stored [(key, account)] := by
  rintro entry member -
  rw [List.mem_singleton.mp member, getAccountDefault, found]
  rfl

/-- What an account depends on is of the bank. -/
theorem loadDependencies_keeps {index : Nat} {account : Account} {loading : Loading}
    (before : bank.Stored loading.accountDeps) :
    Ensures (bank.loadDependencies sdk message index account loading)
      (fun after => bank.Stored after.accountDeps) fun _ => True := by
  refine .split (fun _ => ?_) fun _ => ?_
  · refine (Ensures.any _).bind fun _ _ => ?_
    refine .split (fun _ => ?_) fun _ => .pure before
    refine loadProgramdata_stored.bind ?_
    rintro programdata ⟨-, found⟩
    exact .pure (before.append (stored_singleton found))
  · exact (Ensures.any _).bind fun _ _ => .pure before

/-- The accounts of a message are loaded under its keys, by induction on these. -/
theorem loadAccounts_stored (fee : Nat) (keys : List Pubkey) (index : Nat) {loading : Loading}
    (before : bank.Stored loading.accountDeps) :
    Ensures (bank.loadAccounts sdk message fee index keys loading)
      (fun loaded => loaded.1.map Prod.fst = keys ∧ bank.Stored loaded.1 ∧
        bank.Stored loaded.2.accountDeps) fun _ => True := by
  induction keys generalizing index loading with
  | nil => exact .ok ⟨rfl, List.forall_mem_nil _, before⟩
  | cons key rest ih =>
      have first : Ensures (bank.loadAccount sdk message fee index key loading)
          (fun loaded => (key ≠ Sysvar.instructions → loaded.1 = bank.getAccountDefault key) ∧
            bank.Stored loaded.2.accountDeps) fun _ => True := by
        refine .split (fun _ => .ok ⟨fun _ => rfl, before⟩) fun _ => ?_
        refine .split (fun special => .ok ⟨fun other => absurd special other, before⟩) fun _ => ?_
        refine (Ensures.any _).bind fun _ _ => ?_
        have dependencies : Ensures (bank.loadDependencies sdk message index
            (bank.getAccountDefault key) { loading with validatedFeePayer := true })
            (fun after => bank.Stored after.accountDeps) fun _ => True :=
          loadDependencies_keeps before
        exact dependencies.bind fun loaded deps => .pure ⟨fun _ => rfl, deps⟩
      refine first.bind ?_
      rintro ⟨account, next⟩ ⟨stored, deps⟩
      refine (ih (index + 1) deps).bind ?_
      rintro ⟨accounts, last⟩ ⟨keys, others, lastDeps⟩
      refine .pure ⟨congrArg (key :: ·) keys, fun entry member => ?_, lastDeps⟩
      obtain rfl | later := List.mem_cons.mp member
      · exact stored
      · exact others entry later

/-- The loaders are of the bank. -/
theorem loadChain_stored (depth : Nat) (programId : Pubkey) {accounts : List (Pubkey × Account)}
    (before : bank.Stored accounts) (indices : List Nat) :
    Ensures (bank.loadChain sdk depth programId accounts indices)
      (fun loaded => bank.Stored loaded.1) fun _ => True := by
  induction depth generalizing programId accounts indices with
  | zero => exact .split (fun _ => .ok before) fun _ => .error trivial
  | succ depth ih =>
      refine .split (fun _ => .ok before) fun _ => ?_
      have program : Ensures (bank.loadProgram sdk programId accounts indices)
          (fun loaded => bank.Stored loaded.2.1) fun _ => True := by
        simp only [loadProgram]
        split
        · exact .error trivial
        next account found =>
          have appended := before.append (stored_singleton found)
          split
          · exact .error trivial
          · refine (Ensures.any _).bind fun _ _ => ?_
            refine .split (fun _ => ?_) fun _ => .pure appended
            refine loadProgramdata_stored.bind ?_
            rintro programdata ⟨-, stored⟩
            exact .pure (appended.append (stored_singleton stored))
      refine program.bind ?_
      rintro ⟨program, more, moreIndices⟩ stored
      exact ih program.owner stored moreIndices

/-- The programs are of the bank. -/
theorem loadPrograms_stored (instructions : List CompiledInstruction)
    {accounts : List (Pubkey × Account)} (before : bank.Stored accounts) :
    Ensures (bank.loadPrograms sdk instructions accounts)
      (fun loaded => bank.Stored loaded.1) fun _ => True := by
  induction instructions generalizing accounts with
  | nil => exact .ok before
  | cons instruction rest ih =>
      have chain : Ensures (bank.loadExecutableAccounts sdk accounts instruction.programIdIndex)
          (fun loaded => bank.Stored loaded.1) fun _ => True := by
        simp only [loadExecutableAccounts]
        split
        · exact .error trivial
        · exact loadChain_stored 5 _ before []
      refine chain.bind ?_
      rintro ⟨more, indices⟩ stored
      refine (ih stored).bind ?_
      rintro ⟨final, others⟩ finalStored
      exact .pure finalStored

/-- What is loaded starts with the keys of the message, and is stored in the bank. -/
structure LoadedStored (bank : PgBank) (message : Message) (accounts : List (Pubkey × Account)) :
    Prop where
  front : message.accountKeys <+: accounts.map Prod.fst
  stored : bank.Stored accounts

/-- The accounts of a transaction are of the bank. -/
theorem loadTx_stored :
    Ensures (bank.loadTx sdk tx) (fun loaded => LoadedStored bank tx.message loaded.accounts)
      fun _ => True := by
  refine (Ensures.any _).bind fun _ _ => ?_
  have none : bank.Stored [] := List.forall_mem_nil _
  refine (loadAccounts_stored 0 tx.message.accountKeys 0 none).bind ?_
  rintro ⟨front, loading⟩ ⟨keys, stored, deps⟩
  refine .split (fun _ => ?_) fun _ => .error trivial
  cases loads : bank.loadPrograms sdk tx.message.instructions (front ++ loading.accountDeps) with
  | error error => exact .error trivial
  | ok loaded =>
      obtain ⟨accounts, indices⟩ := loaded
      refine .ok ⟨?_, (loadPrograms_stored _ (stored.append deps)).of_ok loads⟩
      have extended : front ++ loading.accountDeps <+: accounts := (loadPrograms_spec _ _).of_ok loads
      rw [← keys]
      exact ((List.prefix_append _ _).trans extended).map Prod.fst

/-! ## Processing -/

/-- A simulation that succeeds leaves the wallet wherever its key is listed. -/
theorem simulateTx_wallet {simulation : SimulateTransactionResult} (settled : Settled data)
    (rules : SignedSteps runtime derived)
    (foreign : ∀ signer, derived signer → ¬ Controls runtime.sdk key data signer)
    (notSysvar : key ≠ Sysvar.instructions)
    (others : ∀ signer ∈ signersOf tx.message, ¬ Controls runtime.sdk key data signer)
    (wallet : Wallet amount data (bank.getAccountDefault key))
    (simulated : bank.simulateTx runtime tx = .returned simulation)
    (succeeds : simulation.result = .ok ()) :
    HoldsWallet key amount data simulation.postAccounts := by
  have executes : Ensures (bank.loadAndExecuteTx runtime tx)
      (fun simulation => HoldsWallet key amount data simulation.postAccounts) fun _ => True := by
    refine loadTx_stored.bind fun loaded loadedStored => ?_
    have held : HoldsWallet key amount data loaded.accounts := by
      rintro entry member rfl
      rw [loadedStored.stored entry member notSysvar]
      exact wallet
    have executed : Ensures (bank.executeLoadedTx runtime tx loaded)
        (fun result => HoldsWallet key amount data result.1) fun _ => True := by
      refine (Ensures.any _).bind fun _ _ => ?_
      refine (processInstructions_spares amount settled rules foreign others notSysvar _ ?_
        loadedStored.front 0).bind ?_
      · rintro ⟨compiled, indices⟩ member index uses
        exact tx.sanitized.accounts compiled (List.of_mem_zip member).1 index uses
      · rintro ⟨context, trace⟩ spares
        exact .pure (spares.holds held)
    refine executed.bind ?_
    rintro ⟨accounts, report⟩ kept
    exact .pure fun entry member => kept entry (List.mem_of_mem_take member)
  simp only [simulateTx] at simulated
  split at simulated
  next found =>
    cases simulated
    exact executes.of_ok found
  next error failed =>
    cases simulated
    cases succeeds
  next => cases simulated

/-- The wallet of a key, which is not the key that airdrops are paid from. -/
structure KeepsWallet (key : Pubkey) (amount : Nat) (data : List UInt8) (bank : PgBank) : Prop where
  wallet : Wallet amount data (bank.getAccountDefault key)
  notAirdrop : key ≠ bank.airdropKp.pubkey

/-- A transaction keeps the airdrop keypair. -/
theorem processTx_airdropKp (bank : PgBank) (runtime : ProgramRuntime)
    (tx : SanitizedTransaction) :
    (bank.processTx runtime tx).2.airdropKp = bank.airdropKp := by
  obtain ⟨-, processed⟩ | ⟨_, _, -, -, processed⟩ | ⟨simulation, -, -, processed⟩ :=
    processTx_cases bank runtime tx
  · rw [processed]
  · rw [processed]
  · rw [processed]
    obtain ⟨-, saves⟩ | ⟨-, -, saves⟩ | ⟨-, -, ⟨-, saves⟩ | ⟨data, saves⟩⟩ :=
      saveTx_cases (bank.committed simulation) runtime tx simulation 0 <;> rw [saves] <;> rfl

/-- A transaction that others sign, whether it is accepted or not. -/
theorem KeepsWallet.processTx (keeps : KeepsWallet key amount data bank) (settled : Settled data)
    (rules : SignedSteps runtime derived)
    (foreign : ∀ signer, derived signer → ¬ Controls runtime.sdk key data signer)
    (notSysvar : key ≠ Sysvar.instructions)
    (others : ∀ signer ∈ signersOf tx.message, ¬ Controls runtime.sdk key data signer) :
    KeepsWallet key amount data (bank.processTx runtime tx).2 where
  notAirdrop := by
    rw [processTx_airdropKp]
    exact keeps.notAirdrop
  wallet := by
    obtain ⟨-, same⟩ | ⟨simulation, simulated, succeeds, accounts⟩ :=
      processTx_accounts bank runtime tx
    · rw [same]
      exact keeps.wallet
    · have held := simulateTx_wallet settled rules foreign notSysvar others keeps.wallet simulated
        succeeds
      rw [getAccountDefault, getAccount, accounts, FiniteMap.lookup_insertAll]
      cases found : (FiniteMap.insertAll ∅ simulation.postAccounts).lookup key with
      | none => exact keeps.wallet
      | some account => exact held _ (FiniteMap.mem_of_lookup_insertAll found) rfl

/-- A reload creates only the accounts of the playnet itself. -/
theorem KeepsWallet.reload (keeps : KeepsWallet key amount data bank) (notNative : key ∉ nativeKeys)
    (keypair : Keypair) : KeepsWallet key amount data (new sdk keypair (some bank.getSaveData)) where
  notAirdrop := keeps.notAirdrop
  wallet := by
    have same : (new sdk keypair (some bank.getSaveData)).getAccount key = bank.getAccount key :=
      lookup_new_other notNative keeps.notAirdrop
    rw [getAccountDefault, same]
    exact keeps.wallet

/-- No signer of what the call submits has a say over the key. -/
def SignedByOthers (sdk : Sdk) (key : Pubkey) (data : List UInt8) (bank : PgBank) (call : BankCall) : Prop :=
  ∀ tx, submitted sdk bank call = some tx → ∀ signer ∈ signersOf tx.message,
    ¬ Controls sdk key data signer

/-- Along every run whose transactions are signed by others, a wallet keeps its
owner and its data, and never holds less. -/
theorem wallet_throughout (runtime : ProgramRuntime) (derived : Pubkey → Prop)
    (rules : SignedSteps runtime derived) (settled : Settled data)
    (foreign : ∀ signer, derived signer → ¬ Controls runtime.sdk key data signer)
    (notNative : key ∉ nativeKeys) (notSysvar : key ≠ Sysvar.instructions)
    (notAirdrop : key ≠ bank.airdropKp.pubkey)
    (wallet : Wallet amount data (bank.getAccountDefault key)) (calls : List BankCall)
    (others : (machine runtime).Meets (SignedByOthers runtime.sdk key data) bank calls) :
    (machine runtime).Throughout (fun later => Wallet amount data (later.getAccountDefault key)) bank
      calls := by
  have kept : (machine runtime).Throughout (KeepsWallet key amount data) bank calls := by
    refine Machine.throughout_of_meets (KeepsWallet key amount data) ?_ ⟨wallet, notAirdrop⟩ others
    intro bank call next keeps byOthers stepped
    obtain rfl := Option.some.inj stepped
    obtain ⟨tx, submits, stepped⟩ | ⟨-, stepped | ⟨keypair, stepped⟩⟩ := step_eq runtime bank call
    · rw [stepped]
      exact keeps.processTx settled rules foreign notSysvar (byOthers tx submits)
    · rw [stepped]
      exact keeps
    · rw [stepped]
      exact keeps.reload notNative keypair
  exact kept.mono fun later keeps => keeps.wallet

/-! ## A run -/

/-- A transfer is signed by its payer. -/
theorem signersOf_transferMessage (sdk : Sdk) (payer target : Pubkey) (lamports : Nat)
    (blockhash : Hash) : signersOf (transferMessage sdk payer target lamports blockhash) = [payer] := by
  have first : ∃ others, transferKeys payer target = payer :: others := by
    simp only [transferKeys, withProgram]
    split <;> split <;> exact ⟨_, rfl⟩
  obtain ⟨others, listed⟩ := first
  simp only [signersOf, transferMessage]
  rw [listed]
  rfl

/-- An airdrop is signed by the account that pays it. -/
theorem signedByOthers_airdrop (target : Pubkey) (lamports : Nat)
    (other : ¬ Controls sdk key data bank.airdropKp.pubkey) :
    SignedByOthers sdk key data bank (.airdrop target lamports) := by
  intro tx submits signer member
  simp only [submitted, SanitizedTransaction.tryCreate] at submits
  have isAirdrop : tx.message = bank.airdropMessage sdk target lamports := by
    split at submits
    · cases submits
      rfl
    · cases submits
  rw [isAirdrop, airdropMessage, signersOf_transferMessage] at member
  exact List.mem_singleton.mp member ▸ other

/-- A reload is not signed. -/
theorem signedByOthers_reload (keypair : Keypair) : SignedByOthers sdk key data bank (.reload keypair) := by
  intro tx submits
  cases submits

/-- A nonce that the fifth key may advance. -/
def sampleNonce : NonceData := ⟨sampleKey 5, newBank.latestBlockhash, 0⟩

/-- The data of an initialized nonce. -/
def nonceBytes : List UInt8 := Versions.codec.write (.new (.initialized sampleNonce))

/-- It is read back. -/
theorem deserialize_nonceBytes :
    Versions.codec.deserialize nonceBytes = some (.new (.initialized sampleNonce)) := by
  have written := Codec.deserialize_write Versions.codec (.new (.initialized sampleNonce)) []
  rwa [List.append_nil] at written

/-- It is settled. -/
theorem settled_nonceBytes : Settled nonceBytes := by
  intro versions stored
  rw [deserialize_nonceBytes] at stored
  cases stored
  exact ⟨sampleNonce, rfl⟩

/-- The bank in which the fourth key has that nonce. -/
def nonceBank : PgBank :=
  paidBank.setAccount (sampleKey 4) ⟨10, nonceBytes, systemProgram, false, 0⟩

/-- Only the key and its authority have a say over a nonce when no seeds are known. -/
theorem not_controls {signer : Pubkey} (other : signer ≠ key) (noAuthority : signer ≠ sampleKey 5) :
    ¬ Controls transferSdk key nonceBytes signer := by
  intro controls
  cases controls with
  | itself => exact other rfl
  | base seed owner derives => cases derives
  | nonceAuthority stored initialized =>
      rw [deserialize_nonceBytes] at stored
      cases stored
      cases initialized
      exact noAuthority rfl

/-- A nonce account keeps its nonce and its lamports through a payment of
another key, an airdrop and a reload. -/
theorem nonce_wallet_throughout :
    (machine transferRuntime).Throughout
      (fun later => Wallet 10 nonceBytes (later.getAccountDefault (sampleKey 4))) nonceBank
      [.processTx oneLamport, .airdrop (sampleKey 3) 5, .reload ⟨sampleKey 1, []⟩] := by
  have notNative : sampleKey 4 ∉ nativeKeys := by decide
  have notSysvar : sampleKey 4 ≠ Sysvar.instructions := by decide
  have notAirdrop : sampleKey 4 ≠ nonceBank.airdropKp.pubkey := by decide
  have wallet : Wallet 10 nonceBytes (nonceBank.getAccountDefault (sampleKey 4)) :=
    ⟨rfl, rfl, le_rfl⟩
  refine wallet_throughout transferRuntime (fun _ => False) (fun _ processed => by cases processed)
    settled_nonceBytes (fun _ never => never.elim) notNative notSysvar notAirdrop wallet _ ?_
  refine ⟨?_, fun paid stepped => ⟨?_, fun funded _ => ⟨?_, fun _ _ => trivial⟩⟩⟩
  · intro tx submits signer member
    cases submits
    rw [oneLamport, signersOf_transferMessage] at member
    exact not_controls (List.mem_singleton.mp member ▸ by decide)
      (List.mem_singleton.mp member ▸ by decide)
  · obtain rfl := Option.some.inj stepped
    refine signedByOthers_airdrop _ _ (not_controls ?_ ?_) <;> rw [step, processTx_airdropKp] <;> decide
  · exact signedByOthers_reload _

end PgBank
end Solpg.Playnet.Runtime
