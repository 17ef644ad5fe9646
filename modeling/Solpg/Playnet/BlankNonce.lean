import Solpg.Playnet.Runtime.MessageProcessor

/-!
# Data that is no initialized nonce

Which data decodes as an initialized nonce account, and that no system
instruction writes such data while the recent blockhashes are not cached. The
runtime itself writes to the last two bytes of the instructions sysvar, so the
property is stated up to these.
-/

namespace Solpg.Playnet.Runtime

open Solpg.Std
open Outcome

/-- The data does not decode as an initialized nonce. -/
def Blank (data : List UInt8) : Prop :=
  ∀ versions, Versions.codec.deserialize data = some versions → versions.state = .uninitialized

/-- The data is blank whatever its last two bytes are. -/
def Robust (data : List UInt8) : Prop :=
  ∀ bytes : List UInt8, bytes.length = data.length →
    bytes.take (data.length - 2) = data.take (data.length - 2) → Blank bytes

/-- Robust data is blank. -/
theorem Robust.blank {data : List UInt8} (robust : Robust data) : Blank data :=
  robust data rfl rfl

/-! ## Tags -/

/-- An initialized nonce starts with the tag of a version and the tag of its state. -/
theorem of_initialized {bytes : List UInt8} {versions : Versions} {data : NonceData}
    (decoded : Versions.codec.deserialize bytes = some versions)
    (initialized : versions.state = .initialized data) :
    8 ≤ bytes.length ∧ Codec.ofLittleEndianBytes (bytes.take 4) ≤ 1 ∧
      Codec.ofLittleEndianBytes ((bytes.drop 4).take 4) = 1 := by
  have state {others rest : List UInt8}
      (read : NonceState.codec.read others = some (.initialized data, rest)) :
      4 ≤ others.length ∧ Codec.ofLittleEndianBytes (others.take 4) = 1 := by
    obtain ⟨tag, after, tagged, ⟨_, same, -, -⟩ | ⟨_, -, rfl, -⟩⟩ :=
      Codec.of_read_either (Codec.of_read_ofEquiv read)
    · cases same
    · obtain ⟨enough, value, -⟩ := Codec.of_read_u32 tagged
      exact ⟨enough, value.symm⟩
  obtain ⟨⟨found, rest⟩, read, rfl⟩ := Option.map_eq_some_iff.mp decoded
  obtain ⟨tag, others, tagged, variant⟩ := Codec.of_read_either (Codec.of_read_ofEquiv read)
  obtain ⟨enough, value, rfl⟩ := Codec.of_read_u32 tagged
  have version : tag.toNat ≤ 1 ∧
      NonceState.codec.read (bytes.drop 4) = some (.initialized data, rest) := by
    obtain ⟨left, same, rfl, inner⟩ | ⟨right, same, rfl, inner⟩ := variant
    · cases found with
      | legacy state =>
          cases same
          exact ⟨by decide, initialized ▸ inner⟩
      | current state => cases same
    · cases found with
      | legacy state => cases same
      | current state =>
          cases same
          exact ⟨by decide, initialized ▸ inner⟩
  obtain ⟨enoughState, stateTag⟩ := state version.2
  rw [List.length_drop] at enoughState
  exact ⟨by omega, by omega, stateTag⟩

/-- Short data is blank. -/
theorem blank_of_short {bytes : List UInt8} (short : bytes.length < 8) : Blank bytes := by
  intro versions decoded
  cases initialized : versions.state with
  | uninitialized => rfl
  | initialized data =>
      obtain ⟨enough, -, -⟩ := of_initialized decoded initialized
      omega

/-- Data with another tag is blank. -/
theorem blank_of_tag {bytes : List UInt8}
    (tag : 1 < Codec.ofLittleEndianBytes (bytes.take 4)) : Blank bytes := by
  intro versions decoded
  cases initialized : versions.state with
  | uninitialized => rfl
  | initialized data =>
      obtain ⟨-, version, -⟩ := of_initialized decoded initialized
      omega

/-- The lowest byte of the tag of an initialized state is 1. -/
theorem blank_of_low {bytes : List UInt8} {low : UInt8} (at_ : bytes[4]? = some low)
    (zero : low = 0) : Blank bytes := by
  subst zero
  intro versions decoded
  cases initialized : versions.state with
  | uninitialized => rfl
  | initialized data =>
      obtain ⟨-, -, state⟩ := of_initialized decoded initialized
      have starts : bytes.drop 4 = 0 :: bytes.drop 5 := by
        obtain ⟨inside, found⟩ := List.getElem?_eq_some_iff.mp at_
        rw [List.drop_eq_getElem_cons inside, found]
      rw [starts, List.take_succ_cons, Codec.ofLittleEndianBytes] at state
      have even : (0 : UInt8).toNat = 0 := rfl
      omega

/-- Short data is robust. -/
theorem robust_of_short {data : List UInt8} (short : data.length < 8) : Robust data :=
  fun _ length _ => blank_of_short (length ▸ short)

/-- Data with another tag is robust. -/
theorem robust_of_tag {data : List UInt8} (long : 6 ≤ data.length)
    (tag : 1 < Codec.ofLittleEndianBytes (data.take 4)) : Robust data := by
  intro bytes _ front
  refine blank_of_tag ?_
  have same : bytes.take 4 = data.take 4 := by
    have first := congrArg (List.take 4) front
    rw [List.take_take, List.take_take, Nat.min_eq_left (by omega)] at first
    exact first
  rw [same]
  exact tag

/-- Zeroes are robust. -/
theorem robust_zeroes (count : Nat) : Robust (List.replicate count 0) := by
  intro bytes length front
  rw [List.length_replicate] at length front
  by_cases short : count < 8
  · exact blank_of_short (length ▸ short)
  · have at_ := congrArg (·[4]?) front
    simp only [List.getElem?_take_of_lt (show 4 < count - 2 by omega)] at at_
    rw [List.getElem?_replicate_of_lt (by omega)] at at_
    exact blank_of_low at_ rfl

/-- The runtime writes to the last two bytes. -/
theorem Robust.storeCurrentIndex {data after : List UInt8} {index : Nat} (robust : Robust data)
    (stored : storeCurrentIndex data index = some after) : Robust after := by
  simp only [Runtime.storeCurrentIndex] at stored
  split at stored
  next long =>
    cases stored
    intro bytes length front
    have kept : (data.take (data.length - 2) ++
        [UInt8.ofNat index, UInt8.ofNat (index / 256)]).length = data.length := by
      simp
      omega
    rw [kept] at length front
    rw [List.take_append_of_le_length (by simp), List.take_take, Nat.min_self] at front
    exact robust bytes length front
  next => cases stored

/-! ## System instructions -/

/-- What a system instruction may do to an account. -/
def Harmless (before after : Account) : Prop := Robust before.data → Robust after.data

/-- No change is harmless. -/
theorem Harmless.refl (account : Account) : Harmless account account := id

/-- Two harmless changes are harmless. -/
theorem Harmless.trans {first second third : Account} (before : Harmless first second)
    (after : Harmless second third) : Harmless first third := after ∘ before

/-- The same accounts, each changed within a relation. -/
structure Changes (R : Account → Account → Prop) (context after : TransactionContext) : Prop where
  length : after.accounts.length = context.accounts.length
  account : ∀ {index : Nat} {key : Pubkey} {before : Account},
    context.accounts[index]? = some (key, before) →
      ∃ account, after.accounts[index]? = some (key, account) ∧ R before account

section Changes

variable {R S : Account → Account → Prop} {instruction : InstructionContext}
  {mayLose mayChange : Nat → Prop} {context middle after : TransactionContext}

/-- No account changes. -/
theorem Changes.refl (reflexive : ∀ account, R account account) (context : TransactionContext) :
    Changes R context context :=
  ⟨rfl, fun found => ⟨_, found, reflexive _⟩⟩

/-- Two changes of accounts together. -/
theorem Changes.trans (transitive : ∀ {first second third}, R first second → R second third →
    R first third) (first : Changes R context middle) (second : Changes R middle after) :
    Changes R context after := by
  refine ⟨second.length.trans first.length, fun found => ?_⟩
  obtain ⟨between, foundBetween, before⟩ := first.account found
  obtain ⟨account, foundAfter, later⟩ := second.account foundBetween
  exact ⟨account, foundAfter, transitive before later⟩

/-- One account is replaced. -/
theorem Changes.put (reflexive : ∀ account, R account account) {index : Nat} {key : Pubkey}
    {before account : Account} (found : context.accounts[index]? = some (key, before))
    (related : R before account) : Changes R context (context.put index account) := by
  refine ⟨by simp [TransactionContext.put], fun {position other old} foundOther => ?_⟩
  rw [TransactionContext.put_getElem? found]
  by_cases same : position = index
  · subst same
    obtain ⟨rfl, rfl⟩ : other = key ∧ old = before := by simpa [found] using foundOther.symm
    exact ⟨account, by simp, related⟩
  · exact ⟨old, by simp [same, foundOther], reflexive old⟩

/-- Every account comes from one at the same place. -/
theorem Changes.origin (changes : Changes R context after) {index : Nat} {key : Pubkey}
    {account : Account} (found : after.accounts[index]? = some (key, account)) :
    ∃ before, context.accounts[index]? = some (key, before) ∧ R before account := by
  have inside : index < context.accounts.length := by
    rw [← changes.length]
    exact Table.lt_length_of_getElem? found
  obtain ⟨same, foundAfter, related⟩ :=
    changes.account (List.getElem?_eq_getElem inside)
  rw [found] at foundAfter
  cases foundAfter
  exact ⟨_, List.getElem?_eq_getElem inside, related⟩

/-- Lamports that move harm no account. -/
theorem harmless_of_moved (moved : Moved instruction mayLose context after) :
    Changes Harmless context after := by
  obtain ⟨source, target, payerKey, payer, receiverKey, receiver, lamports, -, -, -, atSource, -,
    atTarget, rfl⟩ := moved.moved
  have taken : Changes Harmless context
      (context.put source { payer with lamports := payer.lamports - lamports }) :=
    .put Harmless.refl atSource id
  exact taken.trans Harmless.trans (.put Harmless.refl atTarget id)

end Changes

section Specification

variable {invokeContext : InvokeContext} {instruction : InstructionContext}
  {context : TransactionContext} {borrowed : BorrowedAccount} {signers : List Pubkey}

/-- A borrowed account is changed without harm. -/
def Touches (borrowed after : BorrowedAccount) : Prop :=
  ∃ account, after = borrowed.withAccount account ∧ Harmless borrowed.account account

/-- Giving an account back changes it harmlessly. -/
theorem Touches.changes {after : BorrowedAccount} (touches : Touches borrowed after)
    (of : borrowed.Of context) : Changes Harmless context (context.drop after) := by
  obtain ⟨account, rfl, harmless⟩ := touches
  rw [TransactionContext.drop_withAccount of]
  exact .put Harmless.refl of harmless

/-- Assigning an owner is harmless. -/
theorem assign_harmless (address : Address) (owner : Pubkey) :
    Ensures (assign invokeContext borrowed address owner signers) (Touches borrowed)
      fun _ => True := by
  refine .split (fun _ => .ok ⟨borrowed.account, rfl, .refl _⟩) fun _ => ?_
  refine (Ensures.any _).bind fun _ _ => ?_
  refine (BorrowedAccount.setOwner_spec (fun _ _ => trivial) owner).mono ?_
  rintro _ rfl
  exact ⟨_, rfl, id⟩

/-- Allocated data is zeroed. -/
theorem allocate_harmless (address : Address) (space : Nat) :
    Ensures (allocate invokeContext borrowed address space signers) (Touches borrowed)
      fun _ => True := by
  refine (Ensures.any _).bind fun _ _ => ?_
  refine (Ensures.require fun _ => trivial).bind fun _ empty => ?_
  refine (Ensures.any _).bind fun _ _ => ?_
  refine (Ensures.any _).bind fun _ _ => .pure ⟨_, rfl, fun _ => ?_⟩
  simp only [empty.1, List.take_nil, List.nil_append, List.length_nil, Nat.sub_zero]
  exact robust_zeroes space

/-- Allocating and assigning is harmless. -/
theorem allocateAndAssign_harmless (address : Address) (space : Nat) (owner : Pubkey) :
    Ensures (allocateAndAssign invokeContext borrowed address space owner signers)
      (Touches borrowed) fun _ => True := by
  refine (allocate_harmless address space).bind ?_
  rintro _ ⟨allocated, rfl, before⟩
  refine (assign_harmless address owner).mono ?_
  rintro _ ⟨account, rfl, after⟩
  exact ⟨account, rfl, before.trans after⟩

/-- No nonce account is authorized if none is initialized. -/
theorem authorizeNonceAccount_harmless (nonceAuthority : Pubkey) :
    Ensures (authorizeNonceAccount invokeContext borrowed nonceAuthority signers)
      (Touches borrowed) fun _ => True := by
  by_cases robust : Robust borrowed.account.data
  · refine (Ensures.any _).bind fun _ _ => ?_
    refine (getState_spec fun _ _ => trivial).bind fun versions decoded => ?_
    have uninitialized := robust.blank versions decoded
    simp only [Versions.authorize, uninitialized]
    exact .error trivial
  · refine (authorizeNonceAccount_spec (fun _ _ => trivial) nonceAuthority).mono ?_
    rintro _ ⟨data, owner, rfl, -⟩
    exact ⟨_, rfl, fun blank => absurd blank robust⟩

/-- No nonce account is upgraded if none is initialized. -/
theorem upgrade_harmless {versions : Versions}
    (decoded : Versions.codec.deserialize borrowed.account.data = some versions) :
    Ensures
      (match versions.upgrade invokeContext.sdk with
        | none => .error .invalidArgument
        | some versions => do
            let account ← borrowed.setState invokeContext.policy (Versions.codec.write versions)
            return context.drop account)
      (fun after => borrowed.Of context → Changes Harmless context after) fun _ => True := by
  cases upgraded : versions.upgrade invokeContext.sdk with
  | none => exact .error trivial
  | some other =>
      refine (BorrowedAccount.setState_spec (fun _ _ => trivial) _).bind ?_
      rintro _ ⟨data, rfl⟩
      refine .pure fun of => Touches.changes ⟨_, rfl, fun robust => ?_⟩ of
      have uninitialized := robust.blank versions decoded
      cases versions with
      | legacy state =>
          obtain rfl : state = .uninitialized := uninitialized
          cases upgraded
      | current state => cases upgraded

/-- The nonce instructions that need recent blockhashes fail. -/
theorem recentBlockhashes_fails (uncached : invokeContext.sysvarCache.recentBlockhashes = none)
    (index : Nat) :
    Ensures (recentBlockhashes invokeContext instruction context index) (fun _ => False)
      fun _ => True := by
  refine (Ensures.any _).bind fun _ _ => ?_
  rw [uncached]
  exact .error trivial

/-- A transfer is harmless. -/
theorem transfer_harmless (fromAccountIndex toAccountIndex lamports : Nat) :
    Ensures (transfer invokeContext instruction context fromAccountIndex toAccountIndex lamports)
      (Changes Harmless context) fun _ => True := by
  have moved : Ensures
      (transfer invokeContext instruction context fromAccountIndex toAccountIndex lamports)
      (fun after => after = context ∨ Moved instruction (fun _ => True) context after)
      fun _ => True :=
    transfer_spec (fun _ _ => trivial) (fun _ _ _ _ _ _ => trivial) (.inl trivial)
  refine moved.mono ?_
  rintro after (rfl | moves)
  · exact .refl Harmless.refl _
  · exact harmless_of_moved moves

/-- A transfer with a seed is harmless. -/
theorem transferWithSeed_harmless (fromAccountIndex fromBaseAccountIndex toAccountIndex lamports : Nat)
    (fromSeed : String) (fromOwner : Pubkey) :
    Ensures (transferWithSeed invokeContext instruction context fromAccountIndex
        fromBaseAccountIndex fromSeed fromOwner toAccountIndex lamports)
      (Changes Harmless context) fun _ => True := by
  have moved : Ensures (transferWithSeed invokeContext instruction context fromAccountIndex
        fromBaseAccountIndex fromSeed fromOwner toAccountIndex lamports)
      (fun after => after = context ∨ Moved instruction (fun _ => True) context after)
      fun _ => True :=
    transferWithSeed_spec (fun _ _ => trivial) (fun _ _ _ _ _ _ _ => trivial) (.inl trivial)
  refine moved.mono ?_
  rintro after (rfl | moves)
  · exact .refl Harmless.refl _
  · exact harmless_of_moved moves

/-- The two instructions that create an account. -/
theorem created_harmless (withSeed : Option (Pubkey × String × Pubkey))
    (lamports space : Nat) (owner : Pubkey) :
    Ensures
      (do
        instruction.checkNumberOfInstructionAccounts 2
        let toAddress ← Address.create invokeContext (← instruction.getKey context 1) withSeed
        createAccount invokeContext instruction context 0 1 toAddress lamports space owner signers)
      (Changes Harmless context) fun _ => True := by
  refine (Ensures.any _).bind fun _ _ => ?_
  refine (Ensures.any _).bind fun key _ => ?_
  refine (Ensures.any _).bind fun toAddress _ => ?_
  refine (InstructionContext.tryBorrow_spec (fun _ _ => trivial) 1).bind ?_
  rintro target ⟨of, -⟩
  refine (Ensures.any _).bind fun _ _ => ?_
  refine (allocateAndAssign_harmless toAddress space owner).bind fun after touches => ?_
  exact (transfer_harmless 0 1 lamports).mono fun final paid =>
    (touches.changes of).trans Harmless.trans paid

/-- The four instructions that rewrite an account. -/
theorem addressed_harmless
    {op : BorrowedAccount → Address → Except InstructionError BorrowedAccount}
    (withSeed : Option (Pubkey × String × Pubkey))
    (touches : ∀ borrowed address, Ensures (op borrowed address) (Touches borrowed)
      fun _ => True) :
    Ensures
      (do
        instruction.checkNumberOfInstructionAccounts 1
        let account ← instruction.tryBorrowInstructionAccount context 0
        let address ← Address.create invokeContext (← instruction.getKey context 0) withSeed
        let account ← op account address
        return context.drop account)
      (Changes Harmless context) fun _ => True := by
  refine (Ensures.any _).bind fun _ _ => ?_
  refine (InstructionContext.tryBorrow_spec (fun _ _ => trivial) 0).bind ?_
  rintro borrowed ⟨of, -⟩
  refine (Ensures.any _).bind fun key _ => ?_
  refine (Ensures.any _).bind fun address _ => ?_
  exact (touches borrowed address).bind fun after touched => .pure (touched.changes of)

/-- Without recent blockhashes, no system instruction initializes a nonce account. -/
theorem processVariant_harmless (uncached : invokeContext.sysvarCache.recentBlockhashes = none)
    (variant : SystemInstruction) :
    Ensures (processVariant invokeContext instruction context signers variant)
      (Changes Harmless context) fun _ => True := by
  cases variant with
  | createAccount lamports space owner => exact created_harmless none lamports space owner
  | createAccountWithSeed base seed lamports space owner =>
      exact created_harmless (some (base, seed, owner)) lamports space owner
  | assign owner => exact addressed_harmless none fun _ address => assign_harmless address owner
  | allocate space =>
      exact addressed_harmless none fun _ address => allocate_harmless address space
  | allocateWithSeed base seed space owner =>
      exact addressed_harmless (some (base, seed, owner)) fun _ address =>
        allocateAndAssign_harmless address space owner
  | assignWithSeed base seed owner =>
      exact addressed_harmless (some (base, seed, owner)) fun _ address =>
        assign_harmless address owner
  | transfer lamports => exact (Ensures.any _).bind fun _ _ => transfer_harmless 0 1 lamports
  | transferWithSeed lamports fromSeed fromOwner =>
      exact (Ensures.any _).bind fun _ _ =>
        transferWithSeed_harmless 0 1 2 lamports fromSeed fromOwner
  | advanceNonceAccount =>
      refine (Ensures.any _).bind fun _ _ => (Ensures.any _).bind fun _ _ => ?_
      exact (recentBlockhashes_fails uncached 1).bind fun _ never => never.elim
  | withdrawNonceAccount lamports =>
      refine (Ensures.any _).bind fun _ _ => ?_
      exact (recentBlockhashes_fails uncached 2).bind fun _ never => never.elim
  | initializeNonceAccount authorized =>
      refine (Ensures.any _).bind fun _ _ => (Ensures.any _).bind fun _ _ => ?_
      exact (recentBlockhashes_fails uncached 1).bind fun _ never => never.elim
  | authorizeNonceAccount nonceAuthority =>
      refine (Ensures.any _).bind fun _ _ => ?_
      refine (InstructionContext.tryBorrow_spec (fun _ _ => trivial) 0).bind ?_
      rintro account ⟨of, -⟩
      exact (authorizeNonceAccount_harmless nonceAuthority).bind fun after touched =>
        .pure (touched.changes of)
  | upgradeNonceAccount =>
      refine (Ensures.any _).bind fun _ _ => ?_
      refine (InstructionContext.tryBorrow_spec (fun _ _ => trivial) 0).bind ?_
      rintro account ⟨of, -⟩
      refine (Ensures.any _).bind fun _ _ => (Ensures.any _).bind fun _ _ => ?_
      refine (getState_spec fun _ _ => trivial).bind fun versions decoded => ?_
      exact (upgrade_harmless decoded).mono fun after changes => changes of

/-- Without recent blockhashes every system instruction is harmless. -/
theorem processSystemInstruction_harmless
    (uncached : invokeContext.sysvarCache.recentBlockhashes = none) :
    Ensures (processSystemInstruction invokeContext instruction context)
      (Changes Harmless context) fun _ => True := by
  refine (Ensures.any _).bind fun variant _ => ?_
  exact (Ensures.any _).bind fun signers _ => processVariant_harmless uncached variant

end Specification

end Solpg.Playnet.Runtime
