import Solpg.Playnet.Effect
import Solpg.Std.Bincode

/-!
# Nonce accounts

The states of a nonce account, their serialized form, and the four operations of
`nonce_keyed_account.rs`. Log messages are left out.
-/

namespace Solpg.Playnet.Runtime

open Solpg.Std
open Outcome

/-! ## States -/

/-- `Data` of a nonce account. -/
structure NonceData where
  authority : Pubkey
  durableNonce : Hash
  lamportsPerSignature : UInt64
  deriving DecidableEq, Repr

/-- `State` of a nonce account. -/
inductive NonceState where
  | uninitialized
  | initialized (data : NonceData)
  deriving DecidableEq, Repr

/-- `Versions` of a nonce account. -/
inductive Versions where
  | legacy (state : NonceState)
  | current (state : NonceState)
  deriving DecidableEq, Repr

namespace NonceData

/-- The bytes of the data: authority, nonce and fee. -/
def codec : Codec NonceData :=
  ((Codec.array 32).pair ((Codec.array 32).pair Codec.u64)).ofEquiv {
    toFun := fun (authority, durableNonce, fee) => ⟨⟨authority⟩, ⟨durableNonce⟩, fee⟩
    invFun := fun data =>
      (data.authority.bytes, data.durableNonce.bytes, data.lamportsPerSignature)
    left_inv := fun _ => rfl
    right_inv := fun _ => rfl }

end NonceData

namespace NonceState

/-- The bytes of the state, behind its tag. -/
def codec : Codec NonceState :=
  (Codec.unit.either NonceData.codec).ofEquiv {
    toFun := fun
      | .inl () => .uninitialized
      | .inr data => .initialized data
    invFun := fun
      | .uninitialized => .inl ()
      | .initialized data => .inr data
    left_inv := fun
      | .inl () => rfl
      | .inr _ => rfl
    right_inv := fun
      | .uninitialized => rfl
      | .initialized _ => rfl }

/-- `State::size`. -/
def size : Nat := 80

end NonceState

namespace Versions

/-- The bytes of the versions, behind their tag. -/
def codec : Codec Versions :=
  (NonceState.codec.either NonceState.codec).ofEquiv {
    toFun := fun
      | .inl state => .legacy state
      | .inr state => .current state
    invFun := fun
      | .legacy state => .inl state
      | .current state => .inr state
    left_inv := fun
      | .inl _ => rfl
      | .inr _ => rfl
    right_inv := fun
      | .legacy _ => rfl
      | .current _ => rfl }

/-- `Versions::new`. -/
def new (state : NonceState) : Versions := .current state

/-- `state()`. -/
def state : Versions → NonceState
  | .legacy state => state
  | .current state => state

/-- `AuthorizeNonceError`. -/
inductive AuthorizeNonceError where
  | missingRequiredSignature (authority : Pubkey)
  | uninitialized
  deriving DecidableEq, Repr

/-- `DurableNonce::from_blockhash`. -/
def durableNonce (sdk : Sdk) (blockhash : Hash) : Hash :=
  sdk.hash ("DURABLE_NONCE".toUTF8.toList ++ blockhash.bytes.toList)

/-- `upgrade`. -/
def upgrade (sdk : Sdk) : Versions → Option Versions
  | .legacy .uninitialized => none
  | .legacy (.initialized data) =>
      some (.current (.initialized
        { data with durableNonce := durableNonce sdk data.durableNonce }))
  | .current _ => none

/-- `authorize`. -/
def authorize (versions : Versions) (signers : List Pubkey) (authority : Pubkey) :
    Except AuthorizeNonceError Versions :=
  match versions.state with
  | .uninitialized => .error .uninitialized
  | .initialized data =>
      if data.authority ∈ signers then
        let state := .initialized { data with authority }
        match versions with
        | .legacy _ => .ok (.legacy state)
        | .current _ => .ok (.current state)
      else .error (.missingRequiredSignature data.authority)

/-- An authorized change is signed by the authority that it replaces. -/
theorem of_authorize {versions after : Versions} {signers : List Pubkey} {authority : Pubkey}
    (authorized : versions.authorize signers authority = .ok after) :
    ∃ data, versions.state = .initialized data ∧ data.authority ∈ signers ∧
      after.state = .initialized { data with authority } := by
  cases initialized : versions.state with
  | uninitialized => simp [authorize, initialized] at authorized
  | initialized data =>
      by_cases signs : data.authority ∈ signers
      · refine ⟨data, rfl, signs, ?_⟩
        cases versions <;> simp only [authorize, initialized, if_pos signs] at authorized <;>
          cases authorized <;> rfl
      · simp [authorize, initialized, signs] at authorized

end Versions

/-! ## Errors -/

/-- `SystemError`. -/
inductive SystemError where
  | accountAlreadyInUse
  | resultWithNegativeLamports
  | invalidProgramId
  | invalidAccountDataLength
  | maxSeedLengthExceeded
  | addressWithSeedMismatch
  | nonceNoRecentBlockhashes
  | nonceBlockhashNotExpired
  | nonceUnexpectedBlockhashValue
  deriving DecidableEq, Repr

/-- A system error as a custom instruction error. -/
def SystemError.toInstructionError : SystemError → InstructionError
  | accountAlreadyInUse => .custom 0
  | resultWithNegativeLamports => .custom 1
  | invalidProgramId => .custom 2
  | invalidAccountDataLength => .custom 3
  | maxSeedLengthExceeded => .custom 4
  | addressWithSeedMismatch => .custom 5
  | nonceNoRecentBlockhashes => .custom 6
  | nonceBlockhashNotExpired => .custom 7
  | nonceUnexpectedBlockhashValue => .custom 8

/-- A system error is no overflow. -/
theorem SystemError.toInstructionError_ne_overflow (error : SystemError) :
    error.toInstructionError ≠ .arithmeticOverflow := by
  cases error <;> simp [toInstructionError]

/-- `NonceError`. -/
inductive NonceError where
  | noRecentBlockhashes
  | notExpired
  | unexpectedBlockhashValue
  | badAccountState
  deriving DecidableEq, Repr

namespace NonceError

/-- The code of a nonce error. -/
def code : NonceError → Nat
  | noRecentBlockhashes => 0
  | notExpired => 1
  | unexpectedBlockhashValue => 2
  | badAccountState => 3

/-- `nonce_to_instruction_error`. -/
def toInstructionError (useSystemVariant : Bool) (error : NonceError) : InstructionError :=
  if useSystemVariant then
    match error with
    | noRecentBlockhashes => SystemError.nonceNoRecentBlockhashes.toInstructionError
    | notExpired => SystemError.nonceBlockhashNotExpired.toInstructionError
    | unexpectedBlockhashValue => SystemError.nonceUnexpectedBlockhashValue.toInstructionError
    | badAccountState => .invalidAccountData
  else .custom error.code

/-- A nonce error is no overflow. -/
theorem toInstructionError_ne_overflow (useSystemVariant : Bool) (error : NonceError) :
    error.toInstructionError useSystemVariant ≠ .arithmeticOverflow := by
  cases useSystemVariant <;> cases error <;>
    simp [toInstructionError, SystemError.toInstructionError]

end NonceError

/-- `checked_add` on `u64` of `solana_sdk::instruction`. -/
def checkedAdd (a b : Nat) : Except InstructionError Nat :=
  if a + b < 2 ^ 64 then .ok (a + b) else .error .insufficientFunds

/-! ## What an instruction runs with -/

/-- `Rent`, of which only the minimum balance is used. -/
structure Rent where
  minimumBalance : Nat → Nat

/-- The sysvars that the bank has cached. -/
structure SysvarCache where
  /-- The Unix timestamp of the clock. -/
  clock : Option Int
  rent : Option Rent
  recentBlockhashes : Option (List Hash)

/-- `InvokeContext`: what an instruction sees of the bank. -/
structure InvokeContext where
  sdk : Sdk
  policy : AccessPolicy
  blockhash : Hash
  lamportsPerSignature : UInt64
  systemTransferZeroCheck : Bool
  mergeNonceErrorIntoSystemError : Bool
  sysvarCache : SysvarCache

/-- The state of a nonce account. -/
def getState (borrowed : BorrowedAccount) : Except InstructionError Versions :=
  match Versions.codec.deserialize borrowed.account.data with
  | some versions => .ok versions
  | none => .error .invalidAccountData

variable (invokeContext : InvokeContext)

/-! ## Operations -/

/-- `advance_nonce_account`. -/
def advanceNonceAccount (account : BorrowedAccount) (signers : List Pubkey) :
    Except InstructionError BorrowedAccount := do
  let mergeNonceErrorIntoSystemError := invokeContext.mergeNonceErrorIntoSystemError
  require account.isWritable .invalidArgument
  let versions ← getState account
  match versions.state with
  | .initialized data => do
      require (data.authority ∈ signers) .missingRequiredSignature
      let nextDurableNonce := Versions.durableNonce invokeContext.sdk invokeContext.blockhash
      require (data.durableNonce ≠ nextDurableNonce)
        (NonceError.notExpired.toInstructionError mergeNonceErrorIntoSystemError)
      let newData : NonceData :=
        ⟨data.authority, nextDurableNonce, invokeContext.lamportsPerSignature⟩
      account.setState invokeContext.policy (Versions.codec.write (.new (.initialized newData)))
  | .uninitialized =>
      .error (NonceError.badAccountState.toInstructionError mergeNonceErrorIntoSystemError)

/-- The checks of a withdrawal, and who has to sign it. An account that is
emptied is uninitialized again. -/
def withdrawSigner (source : BorrowedAccount) (lamports : Nat) (rent : Rent) :
    Except InstructionError (BorrowedAccount × Pubkey) := do
  let versions ← getState source
  match versions.state with
  | .uninitialized => do
      require (lamports ≤ source.account.lamports) .insufficientFunds
      return (source, source.key)
  | .initialized data =>
      if lamports = source.account.lamports then do
        let durableNonce := Versions.durableNonce invokeContext.sdk invokeContext.blockhash
        require (data.durableNonce ≠ durableNonce)
          (NonceError.notExpired.toInstructionError invokeContext.mergeNonceErrorIntoSystemError)
        let source ← source.setState invokeContext.policy
          (Versions.codec.write (.new .uninitialized))
        return (source, data.authority)
      else do
        let minBalance := rent.minimumBalance source.account.data.length
        let amount ← checkedAdd lamports minBalance
        require (amount ≤ source.account.lamports) .insufficientFunds
        return (source, data.authority)

/-- Subtract from a borrowed account, drop it, and add to another one. -/
def moveLamports (instruction : InstructionContext) (context : TransactionContext)
    (source : BorrowedAccount) (toAccountIndex lamports : Nat) :
    Except InstructionError TransactionContext := do
  let source ← source.checkedSubLamports invokeContext.policy lamports
  let context := context.drop source
  let target ← instruction.tryBorrowInstructionAccount context toAccountIndex
  let target ← target.checkedAddLamports invokeContext.policy lamports
  return context.drop target

/-- `withdraw_nonce_account`. -/
def withdrawNonceAccount (fromAccountIndex lamports toAccountIndex : Nat) (rent : Rent)
    (signers : List Pubkey) (instruction : InstructionContext) (context : TransactionContext) :
    Except InstructionError TransactionContext := do
  let source ← instruction.tryBorrowInstructionAccount context fromAccountIndex
  require source.isWritable .invalidArgument
  let (source, signer) ← withdrawSigner invokeContext source lamports rent
  require (signer ∈ signers) .missingRequiredSignature
  moveLamports invokeContext instruction context source toAccountIndex lamports

/-- `initialize_nonce_account`. -/
def initializeNonceAccount (account : BorrowedAccount) (nonceAuthority : Pubkey) (rent : Rent) :
    Except InstructionError BorrowedAccount := do
  let mergeNonceErrorIntoSystemError := invokeContext.mergeNonceErrorIntoSystemError
  require account.isWritable .invalidArgument
  let versions ← getState account
  match versions.state with
  | .uninitialized => do
      let minBalance := rent.minimumBalance account.account.data.length
      require (minBalance ≤ account.account.lamports) .insufficientFunds
      let durableNonce := Versions.durableNonce invokeContext.sdk invokeContext.blockhash
      let data : NonceData :=
        ⟨nonceAuthority, durableNonce, invokeContext.lamportsPerSignature⟩
      account.setState invokeContext.policy (Versions.codec.write (.new (.initialized data)))
  | .initialized _ =>
      .error (NonceError.badAccountState.toInstructionError mergeNonceErrorIntoSystemError)

/-- `authorize_nonce_account`. -/
def authorizeNonceAccount (account : BorrowedAccount) (nonceAuthority : Pubkey)
    (signers : List Pubkey) : Except InstructionError BorrowedAccount := do
  let mergeNonceErrorIntoSystemError := invokeContext.mergeNonceErrorIntoSystemError
  require account.isWritable .invalidArgument
  let versions ← getState account
  match versions.authorize signers nonceAuthority with
  | .ok versions => account.setState invokeContext.policy (Versions.codec.write versions)
  | .error .uninitialized =>
      .error (NonceError.badAccountState.toInstructionError mergeNonceErrorIntoSystemError)
  | .error (.missingRequiredSignature _) => .error .missingRequiredSignature

/-! ## Authority -/

/-- The account stores this nonce authority. -/
def StoredAuthority (account : Account) (authority : Pubkey) : Prop :=
  ∃ versions data, Versions.codec.deserialize account.data = some versions ∧
    versions.state = .initialized data ∧ data.authority = authority

/-- The account holds an uninitialized nonce. -/
def UninitializedNonce (account : Account) : Prop :=
  ∃ versions, Versions.codec.deserialize account.data = some versions ∧
    versions.state = .uninitialized

/-- Whose signature permits to take from an account. -/
inductive Authorized (sdk : Sdk) (instruction : InstructionContext) (context : TransactionContext)
    (key : Pubkey) (account : Account) : Prop where
  | itself (signs : instruction.IsSigner context key)
  | base (base : Pubkey) (seed : String) (owner : Pubkey)
      (derived : sdk.createWithSeed base seed owner = .ok key)
      (signs : instruction.IsSigner context base)
  | nonceAuthority (authority : Pubkey) (stored : StoredAuthority account authority)
      (signs : instruction.IsSigner context authority)

/-- A borrowed account gets other data or another owner. -/
def Rewrites (mayLose mayChange : Prop) (borrowed after : BorrowedAccount) : Prop :=
  ∃ data owner, after = borrowed.withAccount { borrowed.account with data, owner } ∧
    (owner ≠ borrowed.account.owner → mayLose) ∧ (data ≠ borrowed.account.data → mayChange)

/-- The total that a transfer cannot exceed. -/
def Bounded (instruction : InstructionContext) (context : TransactionContext) : Prop :=
  ∃ count, (∀ index, instruction.Uses index → index < count) ∧ context.total count < 2 ^ 64

/-! ## Specifications -/

section Specification

variable {invokeContext} {instruction : InstructionContext} {context : TransactionContext}
  {borrowed : BorrowedAccount} {signers : List Pubkey} {lamports : Nat} {rent : Rent}
  {onError : InstructionError → Prop}

variable (others : ∀ error, error ≠ .arithmeticOverflow → onError error)

include others

/-- Reading the state reads the account's data. -/
theorem getState_spec :
    Ensures (getState borrowed)
      (fun versions => Versions.codec.deserialize borrowed.account.data = some versions)
      onError := by
  simp only [getState]
  split
  next versions found => exact .ok found
  next => exact .error (others _ (by simp))

/-- Writing a state leaves lamports and owner alone. -/
theorem setState_rewrites {mayLose mayChange : Prop} (may : mayChange) (state : List UInt8) :
    Ensures (borrowed.setState invokeContext.policy state)
      (Rewrites mayLose mayChange borrowed) onError := by
  refine (BorrowedAccount.setState_spec others state).mono ?_
  rintro _ ⟨data, rfl⟩
  exact ⟨data, borrowed.account.owner, rfl, by simp, fun _ => may⟩

/-- The stored authority signs an advance. -/
theorem advanceNonceAccount_spec :
    Ensures (advanceNonceAccount invokeContext borrowed signers)
      (Rewrites False (∃ authority ∈ signers, StoredAuthority borrowed.account authority) borrowed)
      onError := by
  refine (Ensures.require fun _ => others _ (by simp)).bind fun _ _ => ?_
  refine (getState_spec others).bind fun versions found => ?_
  cases initialized : versions.state with
  | uninitialized =>
      exact .error (others _ (NonceError.toInstructionError_ne_overflow _ _))
  | initialized data =>
      refine (Ensures.require fun _ => others _ (by simp)).bind fun _ signs => ?_
      refine (Ensures.require fun _ => others _ ?_).bind fun _ _ => ?_
      · exact NonceError.toInstructionError_ne_overflow _ _
      · exact setState_rewrites others
          ⟨data.authority, signs, versions, data, found, initialized, rfl⟩ _

/-- The stored authority signs a change of the authority. -/
theorem authorizeNonceAccount_spec (nonceAuthority : Pubkey) :
    Ensures (authorizeNonceAccount invokeContext borrowed nonceAuthority signers)
      (Rewrites False (∃ authority ∈ signers, StoredAuthority borrowed.account authority) borrowed)
      onError := by
  refine (Ensures.require fun _ => others _ (by simp)).bind fun _ _ => ?_
  refine (getState_spec others).bind fun versions found => ?_
  cases authorized : versions.authorize signers nonceAuthority with
  | ok after =>
      obtain ⟨data, initialized, signs, -⟩ := Versions.of_authorize authorized
      exact setState_rewrites others
        ⟨data.authority, signs, versions, data, found, initialized, rfl⟩ _
  | error error =>
      cases error with
      | uninitialized => exact .error (others _ (NonceError.toInstructionError_ne_overflow _ _))
      | missingRequiredSignature => exact .error (others _ (by simp))

/-- Only an uninitialized account is initialized. -/
theorem initializeNonceAccount_spec (nonceAuthority : Pubkey) :
    Ensures (initializeNonceAccount invokeContext borrowed nonceAuthority rent)
      (Rewrites False (UninitializedNonce borrowed.account) borrowed) onError := by
  refine (Ensures.require fun _ => others _ (by simp)).bind fun _ _ => ?_
  refine (getState_spec others).bind fun versions found => ?_
  cases initialized : versions.state with
  | uninitialized =>
      refine (Ensures.require fun _ => others _ (by simp)).bind fun _ _ => ?_
      exact setState_rewrites others ⟨versions, found, initialized⟩ _
  | initialized data =>
      exact .error (others _ (NonceError.toInstructionError_ne_overflow _ _))

/-- A withdrawal is covered by the account, and signed by the account itself or
by the authority that it stores. -/
theorem withdrawSigner_spec :
    Ensures (withdrawSigner invokeContext borrowed lamports rent)
      (fun (after, signer) => lamports ≤ borrowed.account.lamports ∧
        (signer = borrowed.key ∨ StoredAuthority borrowed.account signer) ∧
        Rewrites False (StoredAuthority borrowed.account signer) borrowed after) onError := by
  refine (getState_spec others).bind fun versions found => ?_
  have unchanged (may : Prop) : Rewrites False may borrowed borrowed :=
    ⟨borrowed.account.data, borrowed.account.owner, rfl, by simp, by simp⟩
  cases initialized : versions.state with
  | uninitialized =>
      refine (Ensures.require fun _ => others _ (by simp)).bind fun _ enough => ?_
      exact .pure ⟨enough, .inl rfl, unchanged _⟩
  | initialized data =>
      have stored : StoredAuthority borrowed.account data.authority :=
        ⟨versions, data, found, initialized, rfl⟩
      refine .split (fun all => ?_) fun _ => ?_
      · have rewritten : Ensures
            (borrowed.setState invokeContext.policy (Versions.codec.write (.new .uninitialized)))
            (Rewrites False (StoredAuthority borrowed.account data.authority) borrowed) onError :=
          setState_rewrites others stored _
        refine (Ensures.require fun _ => others _ ?_).bind fun _ _ => ?_
        · exact NonceError.toInstructionError_ne_overflow _ _
        · exact rewritten.bind fun after rewrites => .pure ⟨all.le, .inr stored, rewrites⟩
      · have sum : Ensures (checkedAdd lamports (rent.minimumBalance borrowed.account.data.length))
            (lamports ≤ ·) onError :=
          .split (fun _ => .ok (by omega)) fun _ => .error (others _ (by simp))
        refine sum.bind fun amount covers => ?_
        refine (Ensures.require fun _ => others _ (by simp)).bind fun _ enough => ?_
        exact .pure ⟨covers.trans enough, .inr stored, unchanged _⟩

/-- Lamports that the source has move, and the sum at the target does not
overflow if the total does not. -/
theorem moveLamports_spec
    {mayLose : Nat → Prop} {toAccountIndex : Nat} {middle : TransactionContext}
    (account : Account) (of : borrowed.Of context)
    (reached : context.put borrowed.indexInTransaction account = middle)
    (uses : instruction.Uses borrowed.indexInTransaction)
    (may : mayLose borrowed.indexInTransaction) (enough : lamports ≤ account.lamports)
    (overflow : onError .arithmeticOverflow ∨ Bounded instruction middle) :
    Ensures (moveLamports invokeContext instruction context (borrowed.withAccount account)
        toAccountIndex lamports)
      (Moved instruction mayLose middle) onError := by
  have atSource : middle.accounts[borrowed.indexInTransaction]? = some (borrowed.key, account) := by
    rw [← reached, TransactionContext.put_getElem? of, if_pos rfl]
  have dropped (later : Account) : context.drop (borrowed.withAccount later) =
      middle.put borrowed.indexInTransaction later := by
    rw [← reached, TransactionContext.put_put, TransactionContext.drop_withAccount of]
  refine (BorrowedAccount.checkedSub_spec others (.inr enough)).bind ?_
  rintro _ ⟨-, rfl⟩
  simp only [BorrowedAccount.withAccount_withAccount, BorrowedAccount.account_withAccount, dropped]
  refine (InstructionContext.tryBorrow_spec others toAccountIndex).bind ?_
  rintro target ⟨atTarget, receiver, receiverFound, atReceiver⟩
  have usesTarget : instruction.Uses target.indexInTransaction :=
    ⟨receiver, List.mem_of_getElem? receiverFound, atReceiver.symm⟩
  refine (BorrowedAccount.checkedAdd_spec others ?_).bind ?_
  · refine overflow.imp_right fun ⟨count, within, bounded⟩ => ?_
    -- What was subtracted is missing from the total that contains the target.
    have taken := TransactionContext.total_put
      { account with lamports := account.lamports - lamports } atSource (within _ uses)
    have inTotal := TransactionContext.le_total atTarget (within _ usesTarget)
    simp only at taken
    omega
  · rintro _ rfl
    rw [TransactionContext.drop_withAccount atTarget]
    exact .pure ⟨_, _, _, _, _, _, lamports, uses, usesTarget, may, atSource, enough, atTarget, rfl⟩

/-- A withdrawal writes to a nonce account and takes from it, both with the
signature that it needs. -/
theorem withdrawNonceAccount_spec
    {mayLose mayChange : Nat → Prop} {fromAccountIndex toAccountIndex : Nat}
    (may : ∀ source ∈ instruction.instructionAccounts, ∀ key account,
      context.accounts[source.indexInTransaction]? = some (key, account) →
      (key ∈ signers ∨ ∃ authority ∈ signers, StoredAuthority account authority) →
        mayLose source.indexInTransaction ∧ mayChange source.indexInTransaction)
    (overflow : onError .arithmeticOverflow ∨ Bounded instruction context) :
    Ensures (withdrawNonceAccount invokeContext fromAccountIndex lamports toAccountIndex rent
        signers instruction context)
      (Effect instruction mayLose mayChange context) onError := by
  refine (InstructionContext.tryBorrow_spec others fromAccountIndex).bind ?_
  rintro source ⟨of, account, found, position⟩
  refine (Ensures.require fun _ => others _ (by simp)).bind fun _ _ => ?_
  refine (withdrawSigner_spec others).bind ?_
  rintro ⟨_, signer⟩ ⟨enough, whose, data, owner, rfl, keepsOwner, mayWrite⟩
  refine (Ensures.require fun _ => others _ (by simp)).bind fun _ signs => ?_
  have member := List.mem_of_getElem? found
  have permitted : mayLose source.indexInTransaction ∧ mayChange source.indexInTransaction := by
    have found : context.accounts[account.indexInTransaction]? =
        some (source.key, source.account) := by
      rw [← position]
      exact of
    rw [position]
    refine may account member source.key source.account found ?_
    obtain rfl | stored := whose
    · exact .inl signs
    · exact .inr ⟨signer, signs, stored⟩
  have rewritten : Rewritten mayLose mayChange context
      (context.put source.indexInTransaction { source.account with data, owner }) :=
    ⟨_, _, _, data, owner, of, fun _ => permitted.1, fun _ => permitted.2, rfl⟩
  have bounded : onError .arithmeticOverflow ∨ Bounded instruction
      (context.put source.indexInTransaction { source.account with data, owner }) := by
    refine overflow.imp_right fun ⟨count, within, bound⟩ => ⟨count, within, ?_⟩
    rw [rewritten.total_eq]
    exact bound
  exact (moveLamports_spec others { source.account with data, owner } of rfl
    ⟨account, member, position.symm⟩ permitted.1 enough bounded).mono
      fun after moved => ⟨_, .inr rewritten, .inr moved⟩

end Specification

end Solpg.Playnet.Runtime
