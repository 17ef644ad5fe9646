import Solpg.Playnet.Atomicity

/-!
# The program chains of a transaction

For each instruction `load_tx_accounts` appends the program, the loader that owns
it and so on to the accounts, and collects their indices from the last loader to
the program. The chain of a program is a relation of its own here: which accounts
it goes through says nothing of how they are found.
-/

namespace Solpg.Playnet

open Solpg.Std
open Outcome

/-! ## Packets -/

/-- The largest transaction that a client sends. -/
def packetDataSize : Nat := 1232

/-- The bytes that the length of a vector takes. -/
def shortVecSize (length : Nat) : Nat :=
  if length < 2 ^ 7 then 1 else if length < 2 ^ 14 then 2 else 3

def CompiledInstruction.wireSize (instruction : CompiledInstruction) : Nat :=
  1 + (shortVecSize instruction.accounts.length + instruction.accounts.length) +
    (shortVecSize instruction.data.length + instruction.data.length)

def Message.wireSize (message : Message) : Nat :=
  3 + (shortVecSize message.accountKeys.length + 32 * message.accountKeys.length) + 32 +
    (shortVecSize message.instructions.length +
      (message.instructions.map CompiledInstruction.wireSize).sum)

/-- The bytes of a transaction as it is sent. -/
def SanitizedTransaction.wireSize (tx : SanitizedTransaction) : Nat :=
  shortVecSize tx.signatures.length + 64 * tx.signatures.length + tx.message.wireSize

theorem shortVecSize_pos (length : Nat) : 1 ≤ shortVecSize length := by
  rw [shortVecSize]
  split
  · omega
  · split <;> omega

theorem CompiledInstruction.three_le_wireSize (instruction : CompiledInstruction) :
    3 ≤ instruction.wireSize := by
  have accounts := shortVecSize_pos instruction.accounts.length
  have data := shortVecSize_pos instruction.data.length
  rw [wireSize]
  omega

/-- The keys and the instructions of a packet fit into the indices of accounts. -/
theorem SanitizedTransaction.indices_fit {tx : SanitizedTransaction}
    (fits : tx.wireSize ≤ packetDataSize) :
    2 * tx.message.accountKeys.length + 10 * tx.message.instructions.length ≤ 2 ^ 16 := by
  have instructions : 3 * tx.message.instructions.length ≤
      (tx.message.instructions.map CompiledInstruction.wireSize).sum := by
    induction tx.message.instructions with
    | nil => simp
    | cons instruction rest ih =>
        have size := instruction.three_le_wireSize
        rw [List.map_cons, List.sum_cons, List.length_cons]
        omega
  rw [wireSize, Message.wireSize, packetDataSize] at fits
  omega

namespace Runtime.PgBank

variable (bank : PgBank) (sdk : Sdk)

/-! ## Chains -/

/-- The account that is loaded for a key of the message. -/
def messageAccount (message : Message) (index : Nat) (key : Pubkey) : Account :=
  if message.isNonLoaderKey index ∧ key = Sysvar.instructions then
    constructInstructionsAccount sdk message false
  else bank.getAccountDefault key

/-- The indices of a program chain among the accounts, the program last. Each program
is executable, it is followed back to its owner until that is the native loader, and
its program data stands right before it if the owner is the upgradeable loader. -/
inductive ProgramChain (accounts : List (Pubkey × Account)) : Pubkey → List Nat → Prop
  | native : ProgramChain accounts nativeLoader []
  | program {programId : Pubkey} {program : Account} {index : Nat} {owners : List Nat}
      (notNative : programId ≠ nativeLoader) (stored : bank.getAccount programId = some program)
      (executable : program.executable = true) (plain : program.owner ≠ bpfLoaderUpgradeable)
      (loaded : accounts[index]? = some (programId, program))
      (chain : ProgramChain accounts program.owner owners) :
      ProgramChain accounts programId (owners ++ [index])
  | upgradeable {programId programdataAddress : Pubkey} {program programdata : Account}
      {index programdataIndex : Nat} {owners : List Nat}
      (notNative : programId ≠ nativeLoader) (stored : bank.getAccount programId = some program)
      (executable : program.executable = true) (owner : program.owner = bpfLoaderUpgradeable)
      (address : sdk.programdataAddress program.data = some programdataAddress)
      (storedData : bank.getAccount programdataAddress = some programdata)
      (loadedData : accounts[programdataIndex]? = some (programdataAddress, programdata))
      (loaded : accounts[index]? = some (programId, program))
      (chain : ProgramChain accounts program.owner owners) :
      ProgramChain accounts programId (owners ++ [programdataIndex, index])

variable {bank sdk}

/-- Accounts that are appended later change no chain. -/
theorem ProgramChain.mono {accounts more : List (Pubkey × Account)} {programId : Pubkey}
    {indices : List Nat} (chain : ProgramChain bank sdk accounts programId indices)
    (extended : accounts <+: more) : ProgramChain bank sdk more programId indices := by
  have kept : ∀ {index : Nat} {entry : Pubkey × Account},
      accounts[index]? = some entry → more[index]? = some entry := by
    intro index entry found
    obtain ⟨later, rfl⟩ := extended
    have inside := (List.getElem?_eq_some_iff.mp found).1
    rw [List.getElem?_append_left inside, found]
  induction chain with
  | native => exact .native
  | program notNative stored executable plain loaded _ ih =>
      exact .program notNative stored executable plain (kept loaded) ih
  | upgradeable notNative stored executable owner address storedData loadedData loaded _ ih =>
      exact .upgradeable notNative stored executable owner address storedData (kept loadedData)
        (kept loaded) ih

theorem ProgramChain.inside {accounts : List (Pubkey × Account)} {programId : Pubkey}
    {indices : List Nat} (chain : ProgramChain bank sdk accounts programId indices) :
    ∀ index ∈ indices, index < accounts.length := by
  have inRange : ∀ {index : Nat} {entry : Pubkey × Account},
      accounts[index]? = some entry → index < accounts.length :=
    fun found => (List.getElem?_eq_some_iff.mp found).1
  induction chain with
  | native => simp
  | program notNative stored executable plain loaded _ ih =>
      intro index member
      rcases List.mem_append.mp member with earlier | last
      · exact ih index earlier
      · exact List.mem_singleton.mp last ▸ inRange loaded
  | upgradeable notNative stored executable owner address storedData loadedData loaded _ ih =>
      intro index member
      rcases List.mem_append.mp member with earlier | last
      · exact ih index earlier
      · rcases List.mem_pair.mp last with rfl | rfl
        · exact inRange loadedData
        · exact inRange loaded

/-- The chain of a program ends with the program. -/
theorem ProgramChain.getLast {accounts : List (Pubkey × Account)} {programId : Pubkey}
    {indices : List Nat} (chain : ProgramChain bank sdk accounts programId indices)
    (notNative : programId ≠ nativeLoader) :
    ∃ index program, indices.getLast? = some index ∧
      accounts[index]? = some (programId, program) := by
  cases chain with
  | native => exact absurd rfl notNative
  | program _ _ _ _ loaded _ => exact ⟨_, _, by simp, loaded⟩
  | upgradeable _ _ _ _ _ _ _ loaded _ => exact ⟨_, _, by simp, loaded⟩

theorem ProgramChain.eq_nil {accounts : List (Pubkey × Account)} {indices : List Nat}
    (chain : ProgramChain bank sdk accounts nativeLoader indices) : indices = [] := by
  generalize native : nativeLoader = programId at chain
  cases chain with
  | native => rfl
  | program notNative => exact absurd native.symm notNative
  | upgradeable notNative => exact absurd native.symm notNative

/-! ## Loading -/

variable {message : Message} {accounts : List (Pubkey × Account)}

theorem loadDependencies_length (index : Nat) (account : Account) (loading : Loading) :
    Ensures (bank.loadDependencies sdk message index account loading)
      (fun after => after.accountDeps.length ≤ loading.accountDeps.length + 1) fun _ => True := by
  refine .split (fun _ => ?_) fun _ => ?_
  · refine (Ensures.any _).bind fun _ _ => ?_
    refine .split (fun _ => ?_) fun _ => .pure (by omega)
    exact (Ensures.any _).bind fun programdata _ => .pure (by simp)
  · exact (Ensures.any _).bind fun _ _ => .pure (by omega)

theorem loadAccount_length {fee index : Nat} {key : Pubkey} {loading : Loading} :
    Ensures (bank.loadAccount sdk message fee index key loading)
      (fun loaded => loaded.1 = bank.messageAccount sdk message index key ∧
        loaded.2.accountDeps.length ≤ loading.accountDeps.length + 1) fun _ => True := by
  simp only [loadAccount, messageAccount]
  by_cases nonLoader : message.isNonLoaderKey index = true
  · by_cases special : key = Sysvar.instructions
    · simp only [nonLoader, special, Bool.not_true, Bool.false_eq_true, if_false, if_true, and_self]
      exact .ok ⟨rfl, Nat.le_add_right _ _⟩
    · simp only [nonLoader, special, Bool.not_true, Bool.false_eq_true, if_false, and_false]
      refine (Ensures.any _).bind fun _ _ => ?_
      exact (loadDependencies_length _ _ _).bind fun after grown => .pure ⟨rfl, grown⟩
  · simp only [nonLoader, Bool.not_false, if_true]
    exact .ok ⟨by simp, Nat.le_add_right _ _⟩

/-- The accounts of the message are loaded in its order, each with at most one more. -/
theorem loadAccounts_front {fee : Nat} (keys : List Pubkey) (index : Nat) (loading : Loading) :
    Ensures (bank.loadAccounts sdk message fee index keys loading)
      (fun loaded => loaded.1 = (keys.zipIdx index).map (fun entry =>
          (entry.1, bank.messageAccount sdk message entry.2 entry.1)) ∧
        loaded.2.accountDeps.length ≤ loading.accountDeps.length + keys.length)
      fun _ => True := by
  induction keys generalizing index loading with
  | nil => exact .ok ⟨rfl, by simp⟩
  | cons key rest ih =>
      refine loadAccount_length.bind ?_
      rintro ⟨account, next⟩ ⟨rfl, grown⟩
      refine (ih (index + 1) next).bind ?_
      rintro ⟨others, last⟩ ⟨rfl, more⟩
      refine .pure ⟨rfl, ?_⟩
      simp only [List.length_cons] at more grown ⊢
      omega

theorem loadProgramdata_stored {account : Account} :
    Ensures (bank.loadProgramdata sdk account) (fun programdata =>
      sdk.programdataAddress account.data = some programdata.1 ∧
        bank.getAccount programdata.1 = some programdata.2) fun _ => True := by
  simp only [loadProgramdata]
  split
  · exact .error trivial
  next address =>
    split
    · exact .error trivial
    next stored => exact .ok ⟨address, stored⟩

/-- What one round of the loop appends, as long as the indices of accounts suffice. -/
theorem loadProgram_chain {programId : Pubkey} {indices : List Nat}
    (notNative : programId ≠ nativeLoader) (fits : accounts.length + 2 ≤ 2 ^ 16) :
    Ensures (bank.loadProgram sdk programId accounts indices)
      (fun loaded => accounts <+: loaded.2.1 ∧ loaded.2.1.length ≤ accounts.length + 2 ∧
        ∃ own, loaded.2.2 = own ++ indices ∧ ∀ final owners, loaded.2.1 <+: final →
          ProgramChain bank sdk final loaded.1.owner owners →
            ProgramChain bank sdk final programId (owners ++ own)) fun _ => True := by
  simp only [loadProgram]
  split
  · exact .error trivial
  next programAccount stored =>
    have here : asIndexOfAccount accounts.length = accounts.length :=
      Nat.mod_eq_of_lt (by omega)
    have next : asIndexOfAccount (accounts.length + 1) = accounts.length + 1 :=
      Nat.mod_eq_of_lt (by omega)
    rw [here]
    simp only [List.getElem?_concat_length]
    refine (Ensures.require fun _ => trivial).bind fun _ executable => ?_
    have found : ∀ {final more : List (Pubkey × Account)},
        accounts ++ (programId, programAccount) :: more <+: final →
          final[accounts.length]? = some (programId, programAccount) := by
      rintro final more ⟨later, rfl⟩
      simp
    refine .split (fun owner => ?_) fun plain => .pure ?_
    · refine loadProgramdata_stored.bind ?_
      rintro ⟨programdataAddress, programdata⟩ ⟨address, storedData⟩
      rw [List.length_append, List.length_singleton, next]
      refine .pure ⟨by simp, by simp, [accounts.length + 1, accounts.length], rfl, ?_⟩
      intro final owners extended chain
      rw [List.append_assoc] at extended
      refine .upgradeable notNative stored executable owner address storedData ?_ (found extended)
        chain
      obtain ⟨later, rfl⟩ := extended
      simp
    · refine ⟨by simp, by simp, [accounts.length], rfl, ?_⟩
      intro final owners extended chain
      exact .program notNative stored executable plain (found extended) chain

/-- The loop follows the owners, by induction on the rounds that are left. -/
theorem loadChain_chain (depth : Nat) {programId : Pubkey} {indices : List Nat}
    (fits : accounts.length + 2 * depth ≤ 2 ^ 16) :
    Ensures (bank.loadChain sdk depth programId accounts indices)
      (fun loaded => accounts <+: loaded.1 ∧ loaded.1.length ≤ accounts.length + 2 * depth ∧
        ∃ chain, loaded.2 = chain ++ indices ∧ ProgramChain bank sdk loaded.1 programId chain)
      fun _ => True := by
  induction depth generalizing programId accounts indices with
  | zero =>
      refine .split (fun native => ?_) fun _ => .error trivial
      subst native
      exact .ok ⟨List.prefix_refl _, Nat.le_add_right _ _, [], rfl, .native⟩
  | succ depth ih =>
      refine .split (fun native => ?_) fun notNative => ?_
      · subst native
        exact .ok ⟨List.prefix_refl _, Nat.le_add_right _ _, [], rfl, .native⟩
      · refine (loadProgram_chain notNative (by omega)).bind ?_
        rintro ⟨program, more, moreIndices⟩ ⟨extended, grown, own, rfl, chainOf⟩
        dsimp only at extended grown chainOf ⊢
        refine (ih (by omega)).mono ?_
        rintro ⟨final, _⟩ ⟨further, length, owners, rfl, chain⟩
        dsimp only at further length chain ⊢
        refine ⟨extended.trans further, by omega, owners ++ own, by simp, ?_⟩
        exact chainOf final owners further chain

/-- The chains of the instructions, which share the accounts. -/
theorem loadPrograms_chains (instructions : List CompiledInstruction)
    (fits : accounts.length + 10 * instructions.length ≤ 2 ^ 16) :
    Ensures (bank.loadPrograms sdk instructions accounts)
      (fun loaded => accounts <+: loaded.1 ∧
        loaded.1.length ≤ accounts.length + 10 * instructions.length ∧
        List.Forall₂ (fun instruction indices => ∀ programId account,
          accounts[CompiledInstruction.programIdIndex instruction]? = some (programId, account) →
            ProgramChain bank sdk loaded.1 programId indices) instructions loaded.2)
      fun _ => True := by
  induction instructions generalizing accounts with
  | nil => exact .ok ⟨List.prefix_refl _, Nat.le_add_right _ _, .nil⟩
  | cons instruction rest ih =>
      rw [List.length_cons] at fits
      have first : Ensures (bank.loadExecutableAccounts sdk accounts instruction.programIdIndex)
          (fun loaded => accounts <+: loaded.1 ∧ loaded.1.length ≤ accounts.length + 10 ∧
            ∀ programId account, accounts[instruction.programIdIndex]? = some (programId, account) →
              ProgramChain bank sdk loaded.1 programId loaded.2) fun _ => True := by
        simp only [loadExecutableAccounts]
        split
        · exact .error trivial
        next programId account found =>
          refine (loadChain_chain 5 (by omega)).mono ?_
          rintro ⟨more, _⟩ ⟨extended, grown, chain, rfl, isChain⟩
          refine ⟨extended, grown, fun other held same => ?_⟩
          rw [found] at same
          cases same
          rw [List.append_nil]
          exact isChain
      refine first.bind ?_
      rintro ⟨more, indices⟩ ⟨extended, grown, chain⟩
      dsimp only at extended grown chain ⊢
      refine (ih (by omega)).bind ?_
      rintro ⟨final, others⟩ ⟨further, length, chains⟩
      dsimp only at further length chains ⊢
      refine .pure ⟨extended.trans further, ?_, .cons ?_ ?_⟩
      · rw [List.length_cons]
        dsimp only
        omega
      · exact fun programId account found => (chain programId account found).mono further
      · refine chains.imp fun other otherIndices isChain programId account found => ?_
        obtain ⟨later, rfl⟩ := extended
        have inside := (List.getElem?_eq_some_iff.mp found).1
        exact isChain programId account (by rw [List.getElem?_append_left inside, found])

/-! ## The loop -/

variable (bank sdk) in
/-- The `while` loop of `load_executable_accounts` with its counter, for as many looks
at its condition as there is fuel: how often its body ran, and the result. -/
def chainLoop : (fuel depth : Nat) → (programId : Pubkey) → List (Pubkey × Account) → List Nat →
    Option (Nat × Except Failure (List (Pubkey × Account) × List Nat))
  | 0, _, _, _, _ => none
  | fuel + 1, depth, programId, accounts, accountIndices =>
      if programId = nativeLoader then some (depth, .ok (accounts, accountIndices))
      else if depth ≥ 5 then some (depth, .error (.error .callChainTooDeep))
      else
        match bank.loadProgram sdk programId accounts accountIndices with
        | .error failure => some (depth + 1, .error failure)
        | .ok (program, accounts, accountIndices) =>
            chainLoop fuel (depth + 1) program.owner accounts accountIndices

/-- The loop ends after at most five rounds, whatever the owners are, with what
`loadChain` gives. -/
theorem chainLoop_ends {fuel depth left : Nat} (rounds : depth + left = 5) (enough : left < fuel)
    (programId : Pubkey) (accounts : List (Pubkey × Account)) (indices : List Nat) :
    ∃ count ≤ 5, bank.chainLoop sdk fuel depth programId accounts indices =
      some (count, bank.loadChain sdk left programId accounts indices) := by
  induction left generalizing fuel depth programId accounts indices with
  | zero =>
      obtain ⟨more, rfl⟩ := Nat.exists_eq_add_of_lt enough
      refine ⟨depth, by omega, ?_⟩
      rw [chainLoop, loadChain]
      by_cases native : programId = nativeLoader
      · rw [if_pos native, if_pos native]
      · rw [if_neg native, if_neg native, if_pos (by omega)]
  | succ left ih =>
      obtain ⟨more, rfl⟩ := Nat.exists_eq_add_of_lt enough
      rw [chainLoop, loadChain]
      by_cases native : programId = nativeLoader
      · exact ⟨depth, by omega, by rw [if_pos native, if_pos native]⟩
      · rw [if_neg native, if_neg native, if_neg (by omega)]
        cases loaded : bank.loadProgram sdk programId accounts indices with
        | error failure => exact ⟨depth + 1, by omega, rfl⟩
        | ok next =>
            obtain ⟨program, after, afterIndices⟩ := next
            exact ih (by omega) (by omega) program.owner after afterIndices

/-! ## A loaded transaction -/

/-- What loading gives: the accounts of the message first, and a chain for each
instruction. Only an instruction of the native loader has none. -/
structure ProgramsLoaded (bank : PgBank) (sdk : Sdk) (message : Message)
    (loaded : LoadedTransaction) : Prop where
  accounts : loaded.accounts.take message.accountKeys.length =
    message.accountKeys.zipIdx.map fun entry =>
      (entry.1, bank.messageAccount sdk message entry.2 entry.1)
  inside : ∀ indices ∈ loaded.programIndices, ∀ index ∈ indices, index < loaded.accounts.length
  chains : List.Forall₂ (fun instruction indices => ∃ programId,
    message.accountKeys[CompiledInstruction.programIdIndex instruction]? = some programId ∧
      ProgramChain bank sdk loaded.accounts programId indices ∧
      (programId = nativeLoader → indices = []) ∧
      (programId ≠ nativeLoader → ∃ index program, indices.getLast? = some index ∧
        loaded.accounts[index]? = some (programId, program)))
    message.instructions loaded.programIndices

/-- Within a packet, loading gives each instruction its chain without cutting an index,
and the loop over the owners ends after at most five rounds. -/
theorem loadTxAccounts_loads {tx : SanitizedTransaction} {fee : Nat} {loaded : LoadedTransaction}
    (fits : tx.wireSize ≤ packetDataSize) (succeeds : bank.loadTxAccounts sdk tx fee = .ok loaded) :
    ProgramsLoaded bank sdk tx.message loaded ∧
      ∀ fuel, 5 < fuel → ∀ programId accounts, ∃ rounds ≤ 5,
        bank.chainLoop sdk fuel 0 programId accounts [] =
          some (rounds, bank.loadChain sdk 5 programId accounts []) := by
  refine ⟨?_, fun fuel enough programId accounts => chainLoop_ends rfl enough programId accounts []⟩
  have bound := SanitizedTransaction.indices_fit fits
  have specified : Ensures (bank.loadTxAccounts sdk tx fee)
      (ProgramsLoaded bank sdk tx.message) fun _ => True := by
    refine (Ensures.any _).bind fun _ _ => ?_
    refine (loadAccounts_front tx.message.accountKeys 0 ⟨false, []⟩).bind ?_
    rintro ⟨front, loading⟩ ⟨whole, deps⟩
    dsimp only at whole deps ⊢
    have frontLength : front.length = tx.message.accountKeys.length := by simp [whole]
    refine .split (fun _ => ?_) fun _ => .error trivial
    refine (loadPrograms_chains tx.message.instructions ?_).bind ?_
    · simp only [List.length_append, List.length_nil] at deps ⊢
      omega
    rintro ⟨accounts, programIndices⟩ ⟨extended, -, chains⟩
    dsimp only at extended chains ⊢
    obtain ⟨appended, rfl⟩ := extended
    have found : ∀ instruction ∈ tx.message.instructions, ∃ programId,
        tx.message.accountKeys[instruction.programIdIndex]? = some programId ∧
          (front ++ loading.accountDeps)[instruction.programIdIndex]? = some (programId,
            bank.messageAccount sdk tx.message instruction.programIdIndex programId) := by
      intro instruction member
      have inside := (tx.sanitized.programs instruction member).1
      refine ⟨_, List.getElem?_eq_getElem inside, ?_⟩
      rw [List.getElem?_append_left (by omega), whole]
      simp [inside]
    have all := (List.forall₂_and_left _ _).mpr ⟨found, chains⟩
    refine .pure ⟨?_, ?_, all.imp ?_⟩
    · rw [List.append_assoc, ← frontLength, List.take_left, whole]
    · intro indices member index inChain
      obtain ⟨position, inside, rfl⟩ := List.mem_iff_getElem.mp member
      have there := (List.forall₂_iff_get.mp all).2 position (all.length_eq ▸ inside) inside
      obtain ⟨⟨programId, -, held⟩, chain⟩ := there
      exact (chain programId _ held).inside index inChain
    · rintro instruction indices ⟨⟨programId, key, held⟩, chain⟩
      have isChain := chain programId _ held
      refine ⟨programId, key, isChain, ?_, isChain.getLast⟩
      rintro rfl
      exact isChain.eq_nil
  exact specified.of_ok succeeds

/-- The transfer of `oneLamport`. -/
theorem loadTxAccounts_oneLamport : ∃ loaded,
    newBank.loadTxAccounts transferSdk oneLamport 0 = .ok loaded ∧
      ProgramsLoaded newBank transferSdk oneLamport.message loaded := by
  cases loads : newBank.loadTxAccounts transferSdk oneLamport 0 with
  | ok loaded => exact ⟨loaded, rfl, (loadTxAccounts_loads (by decide) loads).1⟩
  | error failure => cases loads

/-- An instruction of the native loader. -/
def nativeInstruction : SanitizedTransaction where
  message := {
    header := ⟨1, 0, 1⟩
    accountKeys := [sampleKey 1, nativeLoader]
    recentBlockhash := newBank.latestBlockhash
    instructions := [⟨1, [], []⟩] }
  signatures := [⟨Vector.replicate 64 1⟩]
  sanitized := by decide
  signed := length_oneSignature

/-- The chain of `nativeInstruction` is empty. -/
theorem not_always_ends_with_program :
    ¬∀ (bank : PgBank) (sdk : Sdk) (tx : SanitizedTransaction) (fee : Nat)
      (loaded : LoadedTransaction), tx.wireSize ≤ packetDataSize →
      bank.loadTxAccounts sdk tx fee = .ok loaded →
        ∀ indices ∈ loaded.programIndices, ∃ index, indices.getLast? = some index := by
  intro ends
  have loads : newBank.loadTxAccounts transferSdk nativeInstruction 0 =
      .ok ⟨[(sampleKey 1, newBank.getAccountDefault (sampleKey 1)),
        (nativeLoader, Account.default)], [[]]⟩ := rfl
  obtain ⟨index, last⟩ := ends newBank transferSdk nativeInstruction 0 _ (by decide) loads []
    List.mem_cons_self
  cases last

end Runtime.PgBank
end Solpg.Playnet
