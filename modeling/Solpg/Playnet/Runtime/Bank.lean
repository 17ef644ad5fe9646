import Solpg.Playnet.Runtime.MessageProcessor
import Solpg.Std.FiniteMap
import Solpg.Std.Machine

/-!
# The bank

`PgBank`: loading the accounts of a transaction, executing it, committing its
accounts and recording it. A call returns a result or panics, and in either case
leaves a bank behind.
-/

namespace Solpg.Playnet.Runtime

open Solpg.Std
open Outcome

/-- How a call ends. -/
inductive Call (α : Type) where
  | returned (value : α)
  | panicked
  deriving DecidableEq, Repr

/-! ## Data -/

/-- The fields of `ConfirmedTransactionMeta` that are not always `None`. -/
structure ConfirmedTransactionMeta where
  fee : Nat
  preBalances : List Nat
  postBalances : List Nat
  logMessages : Option (List String)
  err : Option TransactionError
  computeUnitsConsumed : Option Nat
  deriving DecidableEq

/-- What the bank stores for a transaction. -/
structure TransactionData where
  slot : Nat
  tx : SanitizedTransaction
  confirmed : Option ConfirmedTransactionMeta
  blockTime : Option Int
  deriving DecidableEq

/-- The accounts of the bank by their keys. -/
abbrev BankAccounts := Finmap fun _ : Pubkey => Account

/-- The transactions of the bank by their signatures. -/
abbrev BankTxs := Finmap fun _ : Signature => TransactionData

/-- The bank. -/
structure PgBank where
  accounts : BankAccounts
  txs : BankTxs
  slot : Nat
  blockHeight : Nat
  genesisHash : Hash
  latestBlockhash : Hash
  airdropKp : Keypair
  sysvarCache : SysvarCache

/-- The fields that are serialized. The others are skipped. -/
structure SaveData where
  accounts : BankAccounts
  slot : Nat
  blockHeight : Nat
  genesisHash : Hash
  latestBlockhash : Hash
  airdropKp : Keypair

/-- The accounts of a transaction in its order, with the programs' indices. -/
structure LoadedTransaction where
  accounts : List (Pubkey × Account)
  programIndices : List (List Nat)
  deriving DecidableEq

/-- The result of a simulation. -/
structure SimulateTransactionResult where
  result : Except TransactionError Unit
  preAccounts : List (Pubkey × Account)
  postAccounts : List (Pubkey × Account)
  logs : List String
  unitsConsumed : Nat
  returnData : Option (Pubkey × List UInt8)
  deriving DecidableEq

/-- `new_error`: a simulation that did not run. -/
def SimulateTransactionResult.newError (error : TransactionError) : SimulateTransactionResult :=
  ⟨.error error, [], [], [], 0, none⟩

/-- `as IndexOfAccount`, a cast to `u16`. -/
def asIndexOfAccount (index : Nat) : Nat := index % 2 ^ 16

/-- `LAMPORTS_PER_SOL`. -/
def lamportsPerSol : Nat := 1000000000

/-- Return data without trailing zeroes, if anything is left. -/
def truncateReturnData (returnData : Pubkey × List UInt8) : Option (Pubkey × List UInt8) :=
  match (returnData.2.reverse.dropWhile (· == 0)).reverse with
  | [] => none
  | data => some (returnData.1, data)

namespace PgBank

/-! ## Creation -/

/-- `PgBank::default`, with the keypair that is generated. -/
def default (sdk : Sdk) (keypair : Keypair) : PgBank :=
  let genesisHash := sdk.hash "playnet".toUTF8.toList
  { accounts := ∅
    txs := ∅
    slot := 0
    blockHeight := 0
    genesisHash := genesisHash
    latestBlockhash := genesisHash
    airdropKp := keypair
    sysvarCache := ⟨none, none, none⟩ }

/-- The bank of the saved data, which hold no transactions. -/
def ofSaveData (data : SaveData) : PgBank where
  accounts := data.accounts
  txs := ∅
  slot := data.slot
  blockHeight := data.blockHeight
  genesisHash := data.genesisHash
  latestBlockhash := data.latestBlockhash
  airdropKp := data.airdropKp
  sysvarCache := ⟨none, none, none⟩

variable (bank : PgBank)

/-- The value that `getSaveData` writes as JSON. -/
def getSaveData : SaveData where
  accounts := bank.accounts
  slot := bank.slot
  blockHeight := bank.blockHeight
  genesisHash := bank.genesisHash
  latestBlockhash := bank.latestBlockhash
  airdropKp := bank.airdropKp

/-- `set_account`. -/
def setAccount (key : Pubkey) (account : Account) : PgBank :=
  { bank with accounts := bank.accounts.insert key account }

/-- `add_native_program`: an executable account of one lamport. -/
def addNativeProgram (programId : Pubkey) : PgBank :=
  bank.setAccount programId { Account.new 1 0 nativeLoader with executable := true }

/-- `add_sysvar_account`: an account of one lamport with the sysvar's data. -/
def addSysvarAccount (id : Pubkey) (data : List UInt8) : PgBank :=
  bank.setAccount id { Account.new 1 0 Sysvar.id with data }

/-- `PgBank::new`. `saved` is the save data, if there is any that parses. -/
def new (sdk : Sdk) (keypair : Keypair) (saved : Option SaveData) : PgBank :=
  let bank := match saved with
    | some data => ofSaveData data
    | none => default sdk keypair
  let bank := ((bank.addNativeProgram bpfLoader).addNativeProgram
    bpfLoaderUpgradeable).addNativeProgram systemProgram
  let bank := (bank.addSysvarAccount Sysvar.clock sdk.clockData).addSysvarAccount Sysvar.rent
    sdk.rentData
  let bank := { bank with sysvarCache := ⟨some 0, some ⟨sdk.minimumBalance⟩, none⟩ }
  bank.setAccount bank.airdropKp.pubkey (Account.new (1000000 * lamportsPerSol) 0 systemProgram)

/-! ## Queries -/

/-- `get_slot`. -/
def getSlot : Nat := bank.slot

/-- `get_block_height`. -/
def getBlockHeight : Nat := bank.blockHeight

/-- `get_genesis_hash`, which returns the latest blockhash. -/
def getGenesisHash : Hash := bank.latestBlockhash

/-- `get_latest_blockhash`. -/
def getLatestBlockhash : Hash := bank.latestBlockhash

/-- `get_account`, which returns whatever is stored. -/
def getAccount (key : Pubkey) : Option Account := bank.accounts.lookup key

/-- `get_account_default`. -/
def getAccountDefault (key : Pubkey) : Account := (bank.getAccount key).getD Account.default

/-- `get_tx`. -/
def getTx (signature : Signature) : Option TransactionData := bank.txs.lookup signature

/-- `LAMPORTS_PER_SIGNATURE`. -/
def lamportsPerSignature : Nat := 0

/-- `get_fee_for_message`, with the overflow check of the product. -/
def getFeeForMessage (message : Message) : Option Nat :=
  let fee := max message.header.numRequiredSignatures 1 * lamportsPerSignature
  if fee < 2 ^ 64 then some fee else none

/-! ## Loading -/

/-- `construct_instructions_account`. -/
def constructInstructionsAccount (sdk : Sdk) (message : Message) (isOwnedBySysvar : Bool) :
    Account :=
  { Account.default with
    data := sdk.constructInstructionsData message
    owner := if isOwnedBySysvar then Sysvar.id else systemProgram }

/-- The account that pays the fee. A nonce account is not implemented. -/
def validateFeePayer (payer : Account) (fee : Nat) : Except Failure Unit := do
  require (payer.lamports ≠ 0) (.error .accountNotFound)
  match getSystemAccountKind payer with
  | none => .error (.error .invalidAccountForFee)
  | some .nonce => .error .panicked
  | some .system =>
      let minBalance := 0
      require (fee + minBalance ≤ payer.lamports) (.error .insufficientFundsForFee)

/-- What the closure over the account keys has collected. -/
structure Loading where
  validatedFeePayer : Bool
  accountDeps : List (Pubkey × Account)
  deriving DecidableEq

/-- The program data account that an upgradeable program requires. -/
def loadProgramdata (sdk : Sdk) (account : Account) : Except Failure (Pubkey × Account) :=
  match sdk.programdataAddress account.data with
  | none => .error (.error .invalidProgramForExecution)
  | some programdataAddress =>
      match bank.getAccount programdataAddress with
      | none => .error (.error .programAccountNotFound)
      | some programdataAccount => .ok (programdataAddress, programdataAccount)

/-- The first account that is loaded as one pays. -/
def checkFeePayer (payer : Account) (fee : Nat) (loading : Loading) : Except Failure Unit :=
  if loading.validatedFeePayer then .ok () else validateFeePayer payer fee

/-- What an account of the upgradeable loader, or an executable one, requires. -/
def loadDependencies (sdk : Sdk) (message : Message) (index : Nat) (account : Account)
    (loading : Loading) : Except Failure Loading :=
  if account.owner = bpfLoaderUpgradeable then do
    require (¬ (sdk.isWritable message index ∧ ¬ message.isUpgradeableLoaderPresent))
      (.error .invalidWritableAccount)
    if account.executable then
      let programdata ← bank.loadProgramdata sdk account
      return { loading with accountDeps := loading.accountDeps ++ [programdata] }
    else return loading
  else do
    require (¬ (account.executable ∧ sdk.isWritable message index))
      (.error .invalidWritableAccount)
    return loading

/-- One account of the message. -/
def loadAccount (sdk : Sdk) (message : Message) (fee index : Nat) (key : Pubkey)
    (loading : Loading) : Except Failure (Account × Loading) :=
  if !message.isNonLoaderKey index then .ok (bank.getAccountDefault key, loading)
  else if key = Sysvar.instructions then
    .ok (constructInstructionsAccount sdk message false, loading)
  else do
    let account := bank.getAccountDefault key
    checkFeePayer account fee loading
    let loading ← bank.loadDependencies sdk message index account
      { loading with validatedFeePayer := true }
    return (account, loading)

/-- The accounts of the message, in its order. -/
def loadAccounts (sdk : Sdk) (message : Message) (fee : Nat) :
    Nat → List Pubkey → Loading → Except Failure (List (Pubkey × Account) × Loading)
  | _, [], loading => .ok ([], loading)
  | index, key :: rest, loading => do
      let (account, loading) ← bank.loadAccount sdk message fee index key loading
      let (accounts, loading) ← loadAccounts sdk message fee (index + 1) rest loading
      return ((key, account) :: accounts, loading)

/-- A program of a chain, at the index that it is found by, and its program data. -/
def loadProgram (sdk : Sdk) (programId : Pubkey) (accounts : List (Pubkey × Account))
    (accountIndices : List Nat) :
    Except Failure (Account × List (Pubkey × Account) × List Nat) :=
  match bank.getAccount programId with
  | none => .error (.error .programAccountNotFound)
  | some programAccount =>
      let programAccountIndex := asIndexOfAccount accounts.length
      let accounts := accounts ++ [(programId, programAccount)]
      match accounts[programAccountIndex]? with
      | none => .error .panicked
      | some (_, program) => do
          require program.executable (.error .invalidProgramForExecution)
          let accountIndices := programAccountIndex :: accountIndices
          if program.owner = bpfLoaderUpgradeable then
            let programdata ← bank.loadProgramdata sdk program
            let programdataIndex := asIndexOfAccount accounts.length
            return (program, accounts ++ [programdata], programdataIndex :: accountIndices)
          else return (program, accounts, accountIndices)

/-- The chain of loaders above a program, at most `depth` further ones. -/
def loadChain (sdk : Sdk) : (depth : Nat) → (programId : Pubkey) → List (Pubkey × Account) →
    (accountIndices : List Nat) → Except Failure (List (Pubkey × Account) × List Nat)
  | 0, programId, accounts, accountIndices =>
      if programId = nativeLoader then .ok (accounts, accountIndices)
      else .error (.error .callChainTooDeep)
  | depth + 1, programId, accounts, accountIndices =>
      if programId = nativeLoader then .ok (accounts, accountIndices)
      else do
        let (program, accounts, accountIndices) ←
          bank.loadProgram sdk programId accounts accountIndices
        loadChain sdk depth program.owner accounts accountIndices

/-- `load_executable_accounts`, the chain of owners above one program. -/
def loadExecutableAccounts (sdk : Sdk) (accounts : List (Pubkey × Account))
    (programAccountIndex : Nat) : Except Failure (List (Pubkey × Account) × List Nat) :=
  match accounts[programAccountIndex]? with
  | none => .error (.error .programAccountNotFound)
  | some (programId, _) => bank.loadChain sdk 5 programId accounts []

/-- The program chains of the instructions, each appended to the accounts. -/
def loadPrograms (sdk : Sdk) : List CompiledInstruction → List (Pubkey × Account) →
    Except Failure (List (Pubkey × Account) × List (List Nat))
  | [], accounts => .ok (accounts, [])
  | instruction :: rest, accounts => do
      let (accounts, indices) ←
        bank.loadExecutableAccounts sdk accounts instruction.programIdIndex
      let (accounts, others) ← loadPrograms sdk rest accounts
      return (accounts, indices :: others)

/-- `load_tx_accounts`. -/
def loadTxAccounts (sdk : Sdk) (tx : SanitizedTransaction) (fee : Nat) :
    Except Failure LoadedTransaction := do
  require (¬ (tx.signatures = [] ∧ fee ≠ 0)) (.error .missingSignatureForFee)
  let message := tx.message
  let (accounts, loading) ←
    bank.loadAccounts sdk message fee 0 message.accountKeys ⟨false, []⟩
  let accounts := accounts ++ loading.accountDeps
  if loading.validatedFeePayer then
    let (accounts, programIndices) ← bank.loadPrograms sdk message.instructions accounts
    return ⟨accounts, programIndices⟩
  else .error (.error .accountNotFound)

/-- `load_tx`. -/
def loadTx (sdk : Sdk) (tx : SanitizedTransaction) : Except Failure LoadedTransaction :=
  bank.loadTxAccounts sdk tx 0

/-! ## Processing -/

variable (runtime : ProgramRuntime)

/-- The accounts after execution, and what the runtime reports. It panics without
a rent sysvar. -/
def executeLoadedTx (tx : SanitizedTransaction) (loaded : LoadedTransaction) :
    Except Failure (List (Pubkey × Account) × Report) := do
  require bank.sysvarCache.rent.isSome .panicked
  let (context, trace) ← processMessage runtime tx.message bank.sysvarCache loaded.programIndices
    ⟨loaded.accounts⟩
  return (context.accounts, runtime.report trace)

/-- The accounts of a transaction before and after it, unless it fails. -/
def loadAndExecuteTx (tx : SanitizedTransaction) : Except Failure SimulateTransactionResult := do
  let accountCount := tx.message.accountKeys.length
  let loaded ← bank.loadTx runtime.sdk tx
  let (accounts, report) ← bank.executeLoadedTx runtime tx loaded
  return {
    result := .ok ()
    preAccounts := loaded.accounts.take accountCount
    postAccounts := accounts.take accountCount
    logs := report.logMessages
    unitsConsumed := report.executedUnits
    returnData := truncateReturnData report.returnData }

/-- `simulate_tx`. -/
def simulateTx (tx : SanitizedTransaction) : Call SimulateTransactionResult :=
  match bank.loadAndExecuteTx runtime tx with
  | .ok simulation => .returned simulation
  | .error (.error error) => .returned (.newError error)
  | .error .panicked => .panicked

/-- `new_slot`. -/
def newSlot (sdk : Sdk) : PgBank :=
  { bank with
    latestBlockhash := sdk.hash bank.latestBlockhash.bytes.toList
    slot := bank.slot + 1
    blockHeight := bank.blockHeight + 1 }

end PgBank

/-- The transaction has an upgradeable-loader Write instruction. -/
def bpfUpgradeableWriteIxExists (message : Message) : Bool :=
  message.instructions.any fun instruction =>
    message.accountKeys[instruction.programIdIndex]? == some bpfLoaderUpgradeable &&
      [1].isPrefixOf instruction.data

namespace PgBank

variable (bank : PgBank) (runtime : ProgramRuntime)

/-- Record a transaction, unless it is mostly wasted space. -/
def saveTx (tx : SanitizedTransaction) (result : SimulateTransactionResult) (fee : Nat) :
    Call (Except TransactionError Signature) × PgBank :=
  let signature := tx.signature
  if bpfUpgradeableWriteIxExists tx.message then (.returned (.ok signature), bank)
  else match bank.txs.lookup signature with
    | some _ => (.returned (.error .alreadyProcessed), bank)
    | none =>
        match bank.sysvarCache.clock with
        | none => (.panicked, bank)
        | some unixTimestamp =>
            let data : TransactionData := {
              slot := bank.getSlot
              tx := tx
              confirmed := some {
                fee := fee
                preBalances := result.preAccounts.map fun entry => entry.2.lamports
                postBalances := result.postAccounts.map fun entry => entry.2.lamports
                logMessages := some result.logs
                err := match result.result with
                  | .ok () => none
                  | .error error => some error
                computeUnitsConsumed := some result.unitsConsumed }
              blockTime := some unixTimestamp }
            let bank := { bank with txs := bank.txs.insert signature data }
            (.returned (.ok signature), bank.newSlot runtime.sdk)

/-- The accounts are committed, and only then the transaction is recorded. -/
def processTx (tx : SanitizedTransaction) : Call (Except TransactionError Signature) × PgBank :=
  match bank.simulateTx runtime tx with
  | .panicked => (.panicked, bank)
  | .returned simulation =>
      match simulation.result with
      | .error error => (.returned (.error error), bank)
      | .ok () =>
          match getFeeForMessage tx.message with
          | none => (.panicked, bank)
          | some fee =>
              let committed :=
                { bank with accounts := FiniteMap.insertAll bank.accounts simulation.postAccounts }
              committed.saveTx runtime tx simulation fee

/-- The program of an instruction follows its accounts, unless it is one of them. -/
def withProgram (accounts : List Pubkey) : List Pubkey :=
  if systemProgram ∈ accounts then accounts else accounts ++ [systemProgram]

/-- The keys of a transfer, each once. -/
def transferKeys (payer target : Pubkey) : List Pubkey :=
  withProgram (if target = payer then [payer] else [payer, target])

/-- `Message::new_with_blockhash` of one transfer. -/
def transferMessage (sdk : Sdk) (payer target : Pubkey) (lamports : Nat) (blockhash : Hash) :
    Message :=
  let accountKeys := transferKeys payer target
  { header := {
      numRequiredSignatures := 1
      numReadonlySignedAccounts := 0
      numReadonlyUnsignedAccounts := if systemProgram ∈ [payer, target] then 0 else 1 }
    accountKeys := accountKeys
    recentBlockhash := blockhash
    instructions := [{
      programIdIndex := accountKeys.idxOf systemProgram
      accounts := [0, accountKeys.idxOf target]
      data := sdk.serialize (.transfer lamports) }] }

/-- The message of an airdrop: a transfer from the airdrop account. -/
def airdropMessage (sdk : Sdk) (target : Pubkey) (lamports : Nat) : Message :=
  transferMessage sdk bank.airdropKp.pubkey target lamports bank.latestBlockhash

/-- `airdrop`. -/
def airdrop (target : Pubkey) (lamports : Nat) :
    Call (Except TransactionError Signature) × PgBank :=
  let message := bank.airdropMessage runtime.sdk target lamports
  match SanitizedTransaction.tryCreate message [runtime.sdk.signMessage bank.airdropKp message] with
  | .error error => (.returned (.error error), bank)
  | .ok tx => bank.processTx runtime tx

/-! ## What the calls do -/

variable {bank : PgBank} {runtime : ProgramRuntime} {tx : SanitizedTransaction}

/-- The system program is among the keys of a transfer. -/
theorem systemProgram_mem_withProgram (accounts : List Pubkey) :
    systemProgram ∈ withProgram accounts := by
  by_cases member : systemProgram ∈ accounts <;> simp [withProgram, member]

/-- Adding the system program keeps the keys distinct. -/
theorem withProgram_nodup {accounts : List Pubkey} (distinct : accounts.Nodup) :
    (withProgram accounts).Nodup := by
  by_cases member : systemProgram ∈ accounts
  · rw [withProgram, if_pos member]
    exact distinct
  · rw [withProgram, if_neg member]
    rw [← List.concat_eq_append]
    exact List.Nodup.concat member distinct

/-- The keys of a transfer are distinct. -/
theorem transferKeys_nodup (payer target : Pubkey) : (transferKeys payer target).Nodup := by
  apply withProgram_nodup
  by_cases same : target = payer
  · simp [same]
  · simpa [same] using Ne.symm same

/-- The program of a transfer is the system program. -/
theorem transferMessage_program (sdk : Sdk) (payer target : Pubkey) (lamports : Nat)
    (blockhash : Hash) :
    ∀ instruction ∈ (transferMessage sdk payer target lamports blockhash).instructions,
      (transferMessage sdk payer target lamports blockhash).accountKeys[
        instruction.programIdIndex]? = some systemProgram := by
  intro instruction member
  obtain rfl := List.mem_singleton.mp member
  have called : systemProgram ∈ transferKeys payer target := systemProgram_mem_withProgram _
  have inside := List.idxOf_lt_length_of_mem called
  simp only [transferMessage]
  rw [List.getElem?_eq_getElem inside, List.getElem_idxOf inside]

/-- The bank with the accounts of a simulation. -/
def committed (bank : PgBank) (simulation : SimulateTransactionResult) : PgBank :=
  { bank with accounts := FiniteMap.insertAll bank.accounts simulation.postAccounts }

/-- Signatures are free of charge. -/
theorem getFeeForMessage_eq (message : Message) : getFeeForMessage message = some 0 := by
  simp [getFeeForMessage, lamportsPerSignature]

/-- A transaction whose simulation succeeds is committed and then saved. Any other
one leaves the bank as it is. -/
theorem processTx_cases (bank : PgBank) (runtime : ProgramRuntime) (tx : SanitizedTransaction) :
    (bank.simulateTx runtime tx = .panicked ∧ bank.processTx runtime tx = (.panicked, bank)) ∨
    (∃ simulation error, bank.simulateTx runtime tx = .returned simulation ∧
      simulation.result = .error error ∧
      bank.processTx runtime tx = (.returned (.error error), bank)) ∨
    (∃ simulation, bank.simulateTx runtime tx = .returned simulation ∧
      simulation.result = .ok () ∧
      bank.processTx runtime tx = (bank.committed simulation).saveTx runtime tx simulation 0) := by
  cases simulated : bank.simulateTx runtime tx with
  | panicked => exact .inl ⟨rfl, by simp only [processTx, simulated]⟩
  | returned simulation =>
      cases failed : simulation.result with
      | error error =>
          exact .inr (.inl ⟨simulation, error, rfl, failed, by
            simp only [processTx, simulated, failed]⟩)
      | ok =>
          exact .inr (.inr ⟨simulation, rfl, failed, by
            simp only [processTx, simulated, failed, getFeeForMessage_eq, committed]⟩)

/-- Saving skips a Write instruction, rejects a recorded signature, panics without
a clock, or records the signature and starts a new slot. -/
theorem saveTx_cases (bank : PgBank) (runtime : ProgramRuntime) (tx : SanitizedTransaction)
    (result : SimulateTransactionResult) (fee : Nat) :
    (bpfUpgradeableWriteIxExists tx.message = true ∧
      bank.saveTx runtime tx result fee = (.returned (.ok tx.signature), bank)) ∨
    (bpfUpgradeableWriteIxExists tx.message = false ∧ tx.signature ∈ bank.txs ∧
      bank.saveTx runtime tx result fee = (.returned (.error .alreadyProcessed), bank)) ∨
    (bpfUpgradeableWriteIxExists tx.message = false ∧ tx.signature ∉ bank.txs ∧
      ((bank.sysvarCache.clock = none ∧ bank.saveTx runtime tx result fee = (.panicked, bank)) ∨
        ∃ data, bank.saveTx runtime tx result fee = (.returned (.ok tx.signature),
          { bank with txs := bank.txs.insert tx.signature data }.newSlot runtime.sdk))) := by
  cases writes : bpfUpgradeableWriteIxExists tx.message with
  | true => exact .inl ⟨rfl, by simp [saveTx, writes]⟩
  | false =>
      cases recorded : bank.txs.lookup tx.signature with
      | some data =>
          have member : tx.signature ∈ bank.txs := Finmap.mem_iff.mpr ⟨data, recorded⟩
          exact .inr (.inl ⟨rfl, member, by simp [saveTx, writes, recorded]⟩)
      | none =>
          have absent : tx.signature ∉ bank.txs := Finmap.lookup_eq_none.mp recorded
          refine .inr (.inr ⟨rfl, absent, ?_⟩)
          cases clock : bank.sysvarCache.clock with
          | none => exact .inl ⟨rfl, by simp [saveTx, writes, recorded, clock]⟩
          | some time => exact .inr ⟨_, by simp only [saveTx, writes, recorded, clock]; rfl⟩

/-! ## Runs -/

/-- A call of the playnet. A reload creates a bank from the save data of the bank. -/
inductive BankCall where
  | processTx (tx : SanitizedTransaction)
  | airdrop (target : Pubkey) (lamports : Nat)
  | reload (keypair : Keypair)

/-- One call of the bank. -/
def step (runtime : ProgramRuntime) (bank : PgBank) : BankCall → PgBank
  | .processTx tx => (bank.processTx runtime tx).2
  | .airdrop target lamports => (bank.airdrop runtime target lamports).2
  | .reload keypair => new runtime.sdk keypair (some bank.getSaveData)

/-- The bank of a playnet, created from save data or without. -/
def machine (runtime : ProgramRuntime) : Machine PgBank BankCall where
  Initial bank := ∃ keypair saved, bank = new runtime.sdk keypair saved
  next bank call := some (bank.step runtime call)

end PgBank
end Solpg.Playnet.Runtime
