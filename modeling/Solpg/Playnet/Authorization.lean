import Solpg.Playnet.Runtime.SystemInstructionProcessor

/-!
# Authority in the system program

What a successful system instruction takes from an account was permitted by a
signature: of the account, of the base that its address derives from, or of the
nonce authority that it stores. The two nonce instructions that anybody may
call write data and nothing else.
-/

namespace Solpg.Playnet.Runtime

open Solpg.Std
open Outcome

/-- The data that a nonce instruction writes without any signature. -/
inductive Exempt : SystemInstruction → Account → Prop where
  | initialization (authorized : Pubkey) {account : Account} (fresh : UninitializedNonce account) :
      Exempt (.initializeNonceAccount authorized) account
  | upgrade (account : Account) : Exempt .upgradeNonceAccount account

/-- Whoever signs for the account permits that it loses. -/
def MayLose (sdk : Sdk) (instruction : InstructionContext) (context : TransactionContext)
    (index : Nat) : Prop :=
  ∀ key account, context.accounts[index]? = some (key, account) →
    Authorized sdk instruction context key account

/-- The data of an account may be changed. -/
def MayChange (sdk : Sdk) (instruction : InstructionContext) (context : TransactionContext)
    (variant : SystemInstruction) (index : Nat) : Prop :=
  ∀ key account, context.accounts[index]? = some (key, account) →
    Authorized sdk instruction context key account ∨ Exempt variant account

section Specification

variable {invokeContext : InvokeContext} {instruction : InstructionContext}
  {context : TransactionContext} {borrowed : BorrowedAccount} {signers : List Pubkey}
  {lamports : Nat} {onError : InstructionError → Prop} {mayLose mayChange : Nat → Prop}

/-! ## Authority -/

/-- An authorized account may lose lamports. -/
theorem mayLose_of_authorized {sdk : Sdk} {index : Nat} {key : Pubkey} {account : Account}
    (found : context.accounts[index]? = some (key, account))
    (authorized : Authorized sdk instruction context key account) :
    MayLose sdk instruction context index := by
  intro otherKey other foundOther
  obtain ⟨rfl, rfl⟩ : key = otherKey ∧ account = other := by simpa [found] using foundOther
  exact authorized

/-- What may lose lamports may be changed. -/
theorem mayChange_of_mayLose {sdk : Sdk} {index : Nat} (variant : SystemInstruction)
    (may : MayLose sdk instruction context index) :
    MayChange sdk instruction context variant index :=
  fun key account found => .inl (may key account found)

/-- An exempt account may be changed. -/
theorem mayChange_of_exempt {sdk : Sdk} {variant : SystemInstruction} (of : borrowed.Of context)
    (exempt : Exempt variant borrowed.account) :
    MayChange sdk instruction context variant borrowed.indexInTransaction := by
  intro key account found
  obtain ⟨rfl, rfl⟩ : key = borrowed.key ∧ account = borrowed.account := by
    simpa [BorrowedAccount.Of, found] using of
  exact .inr exempt

/-- What an address stands for: a key, or a key that derives from its base. -/
def Address.Represents (sdk : Sdk) (key : Pubkey) (address : Address) : Prop :=
  match address.base with
  | none => address.address = key
  | some base => ∃ seed owner, sdk.createWithSeed base seed owner = .ok key

/-- A signing address authorizes for the account that it represents. -/
theorem Address.Represents.authorized {address : Address} {key : Pubkey} {sdk : Sdk}
    (represents : address.Represents sdk key)
    (signed : ∀ key ∈ signers, instruction.IsSigner context key)
    (signs : address.isSigner signers = true) (account : Account) :
    Authorized sdk instruction context key account := by
  obtain ⟨own, base⟩ := address
  cases base with
  | none =>
      obtain rfl : own = key := represents
      exact .itself (signed own (by simpa [Address.isSigner] using signs))
  | some base =>
      obtain ⟨seed, owner, derived⟩ := represents
      exact .base base seed owner derived (signed base (by simpa [Address.isSigner] using signs))

/-! ## Rewriting one account -/

/-- Dropping a rewritten account rewrites the context. -/
theorem Rewrites.effect {after : BorrowedAccount} {lose change : Prop}
    (rewrites : Rewrites lose change borrowed after) (of : borrowed.Of context)
    (mayLoseIt : lose → mayLose borrowed.indexInTransaction)
    (mayChangeIt : change → mayChange borrowed.indexInTransaction) :
    Rewritten mayLose mayChange context (context.drop after) := by
  obtain ⟨data, owner, rfl, ownerGuard, dataGuard⟩ := rewrites
  rw [TransactionContext.drop_withAccount of]
  exact ⟨_, _, _, data, owner, of, mayLoseIt ∘ ownerGuard, mayChangeIt ∘ dataGuard, rfl⟩

/-- Two rewrites are one. -/
theorem Rewrites.trans {lose change : Prop} {middle after : BorrowedAccount}
    (first : Rewrites lose change borrowed middle) (second : Rewrites lose change middle after) :
    Rewrites lose change borrowed after := by
  obtain ⟨data, owner, rfl, ownerGuard, dataGuard⟩ := first
  obtain ⟨data', owner', rfl, ownerGuard', dataGuard'⟩ := second
  refine ⟨data', owner', rfl, fun changed => ?_, fun changed => ?_⟩
  · by_cases early : owner = borrowed.account.owner
    · exact ownerGuard' (early ▸ changed)
    · exact ownerGuard early
  · by_cases early : data = borrowed.account.data
    · exact dataGuard' (early ▸ changed)
    · exact dataGuard early

/-- The last steps of an instruction that rewrites one account. -/
theorem rewrite_spec {op : Except InstructionError BorrowedAccount} {lose change : Prop}
    (rewrites : Ensures op (Rewrites lose change borrowed) onError) (of : borrowed.Of context)
    (mayLoseIt : lose → mayLose borrowed.indexInTransaction)
    (mayChangeIt : change → mayChange borrowed.indexInTransaction) :
    Ensures (op >>= fun after => pure (context.drop after))
      (Effect instruction mayLose mayChange context) onError := by
  refine rewrites.bind fun after rewritten => .pure ?_
  exact ⟨_, .inr (rewritten.effect of mayLoseIt mayChangeIt), .inl rfl⟩

/-- No error of a key is an overflow. -/
theorem pubkeyError_ne_overflow (error : PubkeyError) :
    pubkeyError error ≠ .arithmeticOverflow := by
  cases error <;> simp [pubkeyError]

variable (others : ∀ error, error ≠ .arithmeticOverflow → onError error)

include others

/-- An address that is created represents its key. -/
theorem Address.create_spec (key : Pubkey) (withSeed : Option (Pubkey × String × Pubkey)) :
    Ensures (Address.create invokeContext key withSeed)
      (Address.Represents invokeContext.sdk key) onError := by
  match withSeed with
  | none => exact .ok rfl
  | some (base, seed, owner) =>
      refine (Ensures.mapError fun error => others _ (pubkeyError_ne_overflow error)).bind ?_
      intro derived found
      refine (Ensures.require fun _ => others _ ?_).bind fun _ same => ?_
      · exact SystemError.toInstructionError_ne_overflow _
      · exact .pure ⟨seed, owner, same ▸ found⟩

/-- Space is allocated for a signer. -/
theorem allocate_spec (address : Address) (space : Nat) :
    Ensures (allocate invokeContext borrowed address space signers)
      (Rewrites (address.isSigner signers) (address.isSigner signers) borrowed) onError := by
  refine (Ensures.require fun _ => others _ (by simp)).bind fun _ signs => ?_
  refine (Ensures.require fun _ => others _ ?_).bind fun _ _ => ?_
  · exact SystemError.toInstructionError_ne_overflow _
  refine (Ensures.require fun _ => others _ ?_).bind fun _ _ => ?_
  · exact SystemError.toInstructionError_ne_overflow _
  refine (BorrowedAccount.setDataLength_spec others space).mono ?_
  rintro _ ⟨data, rfl⟩
  exact ⟨data, borrowed.account.owner, rfl, by simp, fun _ => signs⟩

/-- An owner is assigned to a signer. -/
theorem assign_spec (address : Address) (owner : Pubkey) :
    Ensures (assign invokeContext borrowed address owner signers)
      (Rewrites (address.isSigner signers) (address.isSigner signers) borrowed) onError := by
  refine .split (fun _ => ?_) fun _ => ?_
  · exact .ok ⟨borrowed.account.data, borrowed.account.owner, rfl, by simp, by simp⟩
  · refine (Ensures.require fun _ => others _ (by simp)).bind fun _ signs => ?_
    refine (BorrowedAccount.setOwner_spec others owner).mono ?_
    rintro _ rfl
    exact ⟨borrowed.account.data, owner, rfl, fun _ => signs, by simp⟩

/-- Both are done for a signer. -/
theorem allocateAndAssign_spec (address : Address) (space : Nat) (owner : Pubkey) :
    Ensures (allocateAndAssign invokeContext borrowed address space owner signers)
      (Rewrites (address.isSigner signers) (address.isSigner signers) borrowed) onError := by
  refine (allocate_spec others address space).bind fun middle allocated => ?_
  exact (assign_spec others address owner).mono fun after assigned => allocated.trans assigned

/-! ## Moving lamports -/

/-- A verified transfer takes from an account that may lose lamports. -/
theorem transferVerified_spec {fromAccountIndex toAccountIndex : Nat}
    (may : ∀ source key account, instruction.instructionAccounts[fromAccountIndex]? = some source →
      context.accounts[source.indexInTransaction]? = some (key, account) →
        mayLose source.indexInTransaction)
    (overflow : onError .arithmeticOverflow ∨ Bounded instruction context) :
    Ensures (transferVerified invokeContext instruction context fromAccountIndex toAccountIndex
      lamports) (Moved instruction mayLose context) onError := by
  refine (InstructionContext.tryBorrow_spec others fromAccountIndex).bind ?_
  rintro source ⟨of, account, found, position⟩
  refine (Ensures.require fun _ => others _ (by simp)).bind fun _ _ => ?_
  refine (Ensures.require fun _ => others _ ?_).bind fun _ enough => ?_
  · exact SystemError.toInstructionError_ne_overflow _
  have permitted : mayLose source.indexInTransaction := by
    rw [position]
    refine may account source.key source.account found ?_
    rw [← position]
    exact of
  exact moveLamports_spec others source.account of (TransactionContext.put_self of)
    ⟨account, List.mem_of_getElem? found, position.symm⟩ permitted enough overflow

/-- A transfer is signed by its source, unless nothing is transferred. -/
theorem transfer_spec {fromAccountIndex toAccountIndex : Nat}
    (may : ∀ source key account, instruction.instructionAccounts[fromAccountIndex]? = some source →
      context.accounts[source.indexInTransaction]? = some (key, account) →
      instruction.IsSigner context key → mayLose source.indexInTransaction)
    (overflow : onError .arithmeticOverflow ∨ Bounded instruction context) :
    Ensures (transfer invokeContext instruction context fromAccountIndex toAccountIndex lamports)
      (fun after => after = context ∨ Moved instruction mayLose context after) onError := by
  refine .split (fun _ => .ok (.inl rfl)) fun _ => ?_
  refine (InstructionContext.isSigner_spec others fromAccountIndex).bind ?_
  rintro _ ⟨source, found, rfl⟩
  refine (Ensures.require fun _ => others _ (by simp)).bind fun _ signs => ?_
  refine (transferVerified_spec others ?_ overflow).mono fun after moved => .inr moved
  intro other key account foundOther atSource
  obtain rfl : source = other := Option.some.inj (found.symm.trans foundOther)
  exact may source key account found atSource (InstructionContext.isSigner_of_flag
    (List.mem_of_getElem? found) signs (TransactionContext.getKey_of_getElem? atSource))

/-- A transfer with a seed is signed by the base of its source. -/
theorem transferWithSeed_spec
    {fromAccountIndex fromBaseAccountIndex toAccountIndex : Nat} {fromSeed : String}
    {fromOwner : Pubkey}
    (may : ∀ index key account base, context.accounts[index]? = some (key, account) →
      invokeContext.sdk.createWithSeed base fromSeed fromOwner = .ok key →
      instruction.IsSigner context base → mayLose index)
    (overflow : onError .arithmeticOverflow ∨ Bounded instruction context) :
    Ensures (transferWithSeed invokeContext instruction context fromAccountIndex
        fromBaseAccountIndex fromSeed fromOwner toAccountIndex lamports)
      (fun after => after = context ∨ Moved instruction mayLose context after) onError := by
  refine .split (fun _ => .ok (.inl rfl)) fun _ => ?_
  refine (InstructionContext.isSigner_spec others fromBaseAccountIndex).bind ?_
  rintro _ ⟨baseAccount, foundBase, rfl⟩
  refine (Ensures.require fun _ => others _ (by simp)).bind fun _ signs => ?_
  refine (InstructionContext.getKey_spec others fromBaseAccountIndex).bind ?_
  rintro base ⟨sameBase, foundAgain, baseKey⟩
  obtain rfl : baseAccount = sameBase := Option.some.inj (foundBase.symm.trans foundAgain)
  have baseSigns : instruction.IsSigner context base :=
    InstructionContext.isSigner_of_flag (List.mem_of_getElem? foundBase) signs baseKey
  refine (Ensures.mapError fun error => others _ (pubkeyError_ne_overflow error)).bind ?_
  intro derived isDerived
  refine (InstructionContext.getKey_spec others fromAccountIndex).bind ?_
  rintro fromKey ⟨source, foundSource, sourceKey⟩
  refine (Ensures.require fun _ => others _ ?_).bind fun _ same => ?_
  · exact SystemError.toInstructionError_ne_overflow _
  refine (transferVerified_spec others ?_ overflow).mono fun after moved => .inr moved
  intro other key account foundOther atSource
  obtain rfl : source = other := Option.some.inj (foundSource.symm.trans foundOther)
  have keyIs : derived = key := same ▸ TransactionContext.key_unique atSource sourceKey
  exact may _ key account base atSource (keyIs ▸ isDerived) baseSigns

/-! ## The instructions -/

/-- A created account is signed for by itself or by its base, and paid by a
signer. -/
theorem createAccount_spec
    {fromAccountIndex toAccountIndex space : Nat} {toAddress : Address} {owner : Pubkey}
    (variant : SystemInstruction)
    (represents : ∀ target key account, instruction.instructionAccounts[toAccountIndex]? =
      some target → context.accounts[target.indexInTransaction]? = some (key, account) →
        toAddress.Represents invokeContext.sdk key)
    (signed : ∀ key ∈ signers, instruction.IsSigner context key)
    (overflow : onError .arithmeticOverflow ∨ Bounded instruction context) :
    Ensures (createAccount invokeContext instruction context fromAccountIndex toAccountIndex
        toAddress lamports space owner signers)
      (Effect instruction (MayLose invokeContext.sdk instruction context)
        (MayChange invokeContext.sdk instruction context variant) context) onError := by
  refine (InstructionContext.tryBorrow_spec others toAccountIndex).bind ?_
  rintro target ⟨of, account, found, position⟩
  refine (Ensures.require fun _ => others _ ?_).bind fun _ _ => ?_
  · exact SystemError.toInstructionError_ne_overflow _
  refine (allocateAndAssign_spec others toAddress space owner).bind fun after rewrites => ?_
  have targetMay (signs : toAddress.isSigner signers = true) :
      MayLose invokeContext.sdk instruction context target.indexInTransaction := by
    have stands := represents account target.key target.account found (position ▸ of)
    exact mayLose_of_authorized of (stands.authorized signed signs _)
  have rewritten := rewrites.effect of targetMay fun signs =>
    mayChange_of_mayLose variant (targetMay signs)
  have keys : (context.drop after).accounts.map Prod.fst = context.accounts.map Prod.fst :=
    rewritten.keys_eq
  have bounded : onError .arithmeticOverflow ∨ Bounded instruction (context.drop after) := by
    refine overflow.imp_right fun ⟨count, within, bound⟩ => ⟨count, within, ?_⟩
    rw [rewritten.total_eq]
    exact bound
  refine (transfer_spec others ?_ bounded).mono fun final moved => ⟨_, .inr rewritten, moved⟩
  intro source key payer _ atSource signs originalKey original foundOriginal
  have sameKey := congrArg (·[source.indexInTransaction]?) keys
  simp only [List.getElem?_map, atSource, foundOriginal, Option.map_some, Option.some.injEq]
    at sameKey
  exact .itself (sameKey ▸ signs.of_keys keys)

/-- The two instructions that create an account. -/
theorem created_spec {space : Nat} {owner : Pubkey} (variant : SystemInstruction)
    (withSeed : Option (Pubkey × String × Pubkey))
    (signed : ∀ key ∈ signers, instruction.IsSigner context key)
    (overflow : onError .arithmeticOverflow ∨ Bounded instruction context) :
    Ensures
      (do
        instruction.checkNumberOfInstructionAccounts 2
        let toAddress ← Address.create invokeContext (← instruction.getKey context 1) withSeed
        createAccount invokeContext instruction context 0 1 toAddress lamports space owner signers)
      (Effect instruction (MayLose invokeContext.sdk instruction context)
        (MayChange invokeContext.sdk instruction context variant) context) onError := by
  refine (InstructionContext.checkNumber_spec others 2).bind fun _ _ => ?_
  refine (InstructionContext.getKey_spec others 1).bind ?_
  rintro key ⟨target, found, keyAt⟩
  refine (Address.create_spec others key withSeed).bind fun address represents => ?_
  refine createAccount_spec others variant ?_ signed overflow
  intro other otherKey account foundOther atTarget
  obtain rfl : target = other := Option.some.inj (found.symm.trans foundOther)
  exact TransactionContext.key_unique atTarget keyAt ▸ represents

/-- The four instructions that rewrite an account for which its address signs. -/
theorem addressed_spec {op : BorrowedAccount → Address → Except InstructionError BorrowedAccount}
    (variant : SystemInstruction) (withSeed : Option (Pubkey × String × Pubkey))
    (signed : ∀ key ∈ signers, instruction.IsSigner context key)
    (rewrites : ∀ borrowed address, Ensures (op borrowed address)
      (Rewrites (address.isSigner signers) (address.isSigner signers) borrowed) onError) :
    Ensures
      (do
        instruction.checkNumberOfInstructionAccounts 1
        let account ← instruction.tryBorrowInstructionAccount context 0
        let address ← Address.create invokeContext (← instruction.getKey context 0) withSeed
        let account ← op account address
        return context.drop account)
      (Effect instruction (MayLose invokeContext.sdk instruction context)
        (MayChange invokeContext.sdk instruction context variant) context) onError := by
  refine (InstructionContext.checkNumber_spec others 1).bind fun _ _ => ?_
  refine (InstructionContext.tryBorrow_spec others 0).bind ?_
  rintro borrowed ⟨of, account, found, position⟩
  refine (InstructionContext.getKey_spec others 0).bind ?_
  rintro key ⟨other, foundOther, keyAt⟩
  obtain rfl : account = other := Option.some.inj (found.symm.trans foundOther)
  obtain rfl : key = borrowed.key := TransactionContext.key_unique of (position ▸ keyAt)
  refine (Address.create_spec others borrowed.key withSeed).bind fun address represents => ?_
  have may (signs : address.isSigner signers = true) :
      MayLose invokeContext.sdk instruction context borrowed.indexInTransaction :=
    mayLose_of_authorized of (represents.authorized signed signs borrowed.account)
  exact rewrite_spec (rewrites borrowed address) of may fun signs =>
    mayChange_of_mayLose variant (may signs)

/-- A check of a sysvar changes nothing. -/
theorem checkSysvarAccount_spec (sysvar : Pubkey) (index : Nat) :
    Ensures (checkSysvarAccount sysvar instruction context index) (fun _ => True) onError := by
  refine (InstructionContext.getKey_spec others index).bind fun _ _ => ?_
  exact (Ensures.require fun _ => others _ (by simp)).mono fun _ _ => trivial

/-- A sysvar in the cache is read. -/
theorem cached_spec {α : Type} (sysvar : Option α) :
    Ensures (cached sysvar) (fun _ => True) onError := by
  cases sysvar with
  | some value => exact trivial
  | none => exact others _ (by simp)

/-- The recent blockhashes are read without a change. -/
theorem recentBlockhashes_spec (index : Nat) :
    Ensures (recentBlockhashes invokeContext instruction context index) (fun _ => True) onError :=
  (checkSysvarAccount_spec others _ index).bind fun _ _ => cached_spec others _

/-- The rent is read without a change. -/
theorem rentSysvar_spec (index : Nat) :
    Ensures (rentSysvar invokeContext instruction context index) (fun _ => True) onError :=
  (checkSysvarAccount_spec others _ index).bind fun _ _ => cached_spec others _

/-- An instruction is what its data decodes to. -/
theorem limitedDeserialize_spec {data : List UInt8} :
    Ensures (limitedDeserialize invokeContext data)
      (fun variant => invokeContext.sdk.deserialize data = some variant) onError := by
  simp only [limitedDeserialize]
  split
  next variant found => exact .ok found
  next => exact .error (others _ (by simp))

/-- What a system instruction does, it may do. -/
theorem processVariant_spec (signed : ∀ key ∈ signers, instruction.IsSigner context key)
    (overflow : onError .arithmeticOverflow ∨ Bounded instruction context)
    (variant : SystemInstruction) :
    Ensures (processVariant invokeContext instruction context signers variant)
      (Effect instruction (MayLose invokeContext.sdk instruction context)
        (MayChange invokeContext.sdk instruction context variant) context) onError := by
  have stored {borrowed : BorrowedAccount} (of : borrowed.Of context)
      (authority : ∃ authority ∈ signers, StoredAuthority borrowed.account authority) :
      MayLose invokeContext.sdk instruction context borrowed.indexInTransaction := by
    obtain ⟨authority, member, isStored⟩ := authority
    exact mayLose_of_authorized of (.nonceAuthority authority isStored (signed authority member))
  cases variant with
  | createAccount lamports space owner => exact created_spec others _ none signed overflow
  | createAccountWithSeed base seed lamports space owner =>
      exact created_spec others _ (some (base, seed, owner)) signed overflow
  | assign owner =>
      exact addressed_spec others _ none signed fun _ address => assign_spec others address owner
  | allocate space =>
      exact addressed_spec others _ none signed fun _ address => allocate_spec others address space
  | allocateWithSeed base seed space owner =>
      exact addressed_spec others _ (some (base, seed, owner)) signed fun _ address =>
        allocateAndAssign_spec others address space owner
  | assignWithSeed base seed owner =>
      exact addressed_spec others _ (some (base, seed, owner)) signed fun _ address =>
        assign_spec others address owner
  | transfer lamports =>
      refine (InstructionContext.checkNumber_spec others 2).bind fun _ _ => ?_
      refine (transfer_spec others ?_ overflow).mono fun after moved => ⟨_, .inl rfl, moved⟩
      exact fun source key account _ atSource signs => mayLose_of_authorized atSource (.itself signs)
  | transferWithSeed lamports fromSeed fromOwner =>
      refine (InstructionContext.checkNumber_spec others 3).bind fun _ _ => ?_
      refine (transferWithSeed_spec others ?_ overflow).mono
        fun after moved => ⟨_, .inl rfl, moved⟩
      exact fun index key account base atSource derived signs =>
        mayLose_of_authorized atSource (.base base fromSeed fromOwner derived signs)
  | advanceNonceAccount =>
      refine (InstructionContext.checkNumber_spec others 1).bind fun _ _ => ?_
      refine (InstructionContext.tryBorrow_spec others 0).bind ?_
      rintro account ⟨of, -⟩
      refine (recentBlockhashes_spec others 1).bind fun _ _ => ?_
      refine (Ensures.require fun _ => others _ (by simp)).bind fun _ _ => ?_
      exact rewrite_spec (advanceNonceAccount_spec others) of False.elim fun signs =>
        mayChange_of_mayLose _ (stored of signs)
  | withdrawNonceAccount lamports =>
      refine (InstructionContext.checkNumber_spec others 2).bind fun _ _ => ?_
      refine (recentBlockhashes_spec others 2).bind fun _ _ => ?_
      refine (rentSysvar_spec others 3).bind fun rent _ => ?_
      refine withdrawNonceAccount_spec others ?_ overflow
      intro source _ key account atSource whose
      have may : MayLose invokeContext.sdk instruction context source.indexInTransaction := by
        apply mayLose_of_authorized atSource
        obtain itself | ⟨authority, member, isStored⟩ := whose
        · exact .itself (signed key itself)
        · exact .nonceAuthority authority isStored (signed authority member)
      exact ⟨may, mayChange_of_mayLose _ may⟩
  | initializeNonceAccount authorized =>
      refine (InstructionContext.checkNumber_spec others 1).bind fun _ _ => ?_
      refine (InstructionContext.tryBorrow_spec others 0).bind ?_
      rintro account ⟨of, -⟩
      refine (recentBlockhashes_spec others 1).bind fun _ _ => ?_
      refine (Ensures.require fun _ => others _ (by simp)).bind fun _ _ => ?_
      refine (rentSysvar_spec others 2).bind fun rent _ => ?_
      exact rewrite_spec (initializeNonceAccount_spec others authorized) of False.elim fun fresh =>
        mayChange_of_exempt of (.initialization authorized fresh)
  | authorizeNonceAccount nonceAuthority =>
      refine (InstructionContext.checkNumber_spec others 1).bind fun _ _ => ?_
      refine (InstructionContext.tryBorrow_spec others 0).bind ?_
      rintro account ⟨of, -⟩
      exact rewrite_spec (authorizeNonceAccount_spec others nonceAuthority) of False.elim
        fun signs => mayChange_of_mayLose _ (stored of signs)
  | upgradeNonceAccount =>
      refine (InstructionContext.checkNumber_spec others 1).bind fun _ _ => ?_
      refine (InstructionContext.tryBorrow_spec others 0).bind ?_
      rintro account ⟨of, -⟩
      refine (Ensures.require fun _ => others _ (by simp)).bind fun _ _ => ?_
      refine (Ensures.require fun _ => others _ (by simp)).bind fun _ _ => ?_
      refine (getState_spec others).bind fun versions _ => ?_
      cases versions.upgrade invokeContext.sdk with
      | none => exact .error (others _ (by simp))
      | some upgraded =>
          exact rewrite_spec (setState_rewrites others trivial _) of False.elim fun _ =>
            mayChange_of_exempt of (.upgrade account.account)

/-- Every variant changes what it may. -/
theorem processSystemInstruction_spec
    (overflow : onError .arithmeticOverflow ∨ Bounded instruction context) :
    Ensures (processSystemInstruction invokeContext instruction context)
      (fun after => ∃ variant, invokeContext.sdk.deserialize instruction.instructionData =
        some variant ∧ Effect instruction (MayLose invokeContext.sdk instruction context)
          (MayChange invokeContext.sdk instruction context variant) context after) onError := by
  refine (limitedDeserialize_spec others).bind fun variant decoded => ?_
  refine (InstructionContext.getSigners_spec others).bind fun signers signed => ?_
  exact (processVariant_spec others signed overflow variant).mono
    fun after effect => ⟨variant, decoded, effect⟩

end Specification

/-- An account loses lamports or its owner only with the signature of the account,
of the base of its address or of its nonce authority, and its data changes only
so or by a nonce instruction that needs no signature. -/
theorem processSystemInstruction_authorized (invokeContext : InvokeContext)
    {instruction : InstructionContext} {context after : TransactionContext}
    {variant : SystemInstruction}
    (decoded : invokeContext.sdk.deserialize instruction.instructionData = some variant)
    (succeeded : processSystemInstruction invokeContext instruction context = .ok after)
    (index : Nat) (key : Pubkey) (before : Account)
    (found : context.accounts[index]? = some (key, before)) :
    ∃ account, after.accounts[index]? = some (key, account) ∧
      (account.lamports < before.lamports ∨ account.owner ≠ before.owner →
        Authorized invokeContext.sdk instruction context key before) ∧
      (account.data ≠ before.data →
        Authorized invokeContext.sdk instruction context key before ∨ Exempt variant before) := by
  have spec := @processSystemInstruction_spec invokeContext instruction context (fun _ => True)
    (fun _ _ => trivial) (.inl trivial)
  obtain ⟨decodedVariant, sameData, effect⟩ := spec.of_ok succeeded
  obtain rfl : variant = decodedVariant := Option.some.inj (decoded.symm.trans sameData)
  obtain ⟨account, stays, lamports, owner, data⟩ := effect.guarded index key before found
  refine ⟨account, stays, fun taken => ?_, fun changed => data changed key before found⟩
  obtain less | reowned := taken
  · exact lamports less key before found
  · exact owner reowned key before found

/-! ## A transfer -/

/-- The other crates, as far as a transfer needs them. -/
def transferSdk : Sdk where
  -- The blockhashes of the first two slots.
  hash bytes :=
    if bytes = "playnet".toUTF8.toList then ⟨#v[
      70, 53, 122, 68, 65, 133, 128, 99, 214, 201, 153, 166, 160, 22, 234, 171,
      30, 213, 167, 4, 71, 219, 247, 5, 134, 154, 130, 203, 12, 57, 13, 164]⟩
    else ⟨#v[
      208, 208, 171, 115, 27, 166, 37, 140, 248, 162, 112, 250, 231, 11, 25, 231,
      11, 85, 52, 42, 244, 37, 209, 67, 45, 25, 86, 157, 24, 142, 108, 1]⟩
  createWithSeed _ _ _ := .error .invalidSeeds
  deserialize data :=
    match (Codec.u32.pair Codec.u64).deserialize data with
    | some (2, lamports) => some (.transfer lamports.toNat)
    | _ => none
  serialize
    | .transfer lamports => (Codec.u32.pair Codec.u64).write (2, UInt64.ofNat lamports)
    | _ => []
  isBuiltinKeyOrSysvar key :=
    [systemProgram, nativeLoader, bpfLoader, bpfLoaderUpgradeable, Sysvar.clock, Sysvar.rent,
      Sysvar.instructions, Sysvar.recentBlockhashes].contains key
  isPrecompile _ := false
  programdataAddress data :=
    match (Codec.u32.pair (Codec.array 32)).deserialize data with
    | some (2, address) => some ⟨address⟩
    | _ => none
  -- One instruction, its offset, accounts, program and data, and the current index.
  constructInstructionsData message := message.instructions.flatMap fun instruction =>
    [1, 0, 4, 0, UInt8.ofNat instruction.accounts.length, 0] ++
      (instruction.accounts.flatMap fun index =>
        (if message.isSigner index then 3 else 2) ::
          ((message.accountKeys[index]?).elim [] fun key => key.bytes.toList)) ++
      ((message.accountKeys[instruction.programIdIndex]?).elim [] fun key => key.bytes.toList) ++
      [UInt8.ofNat instruction.data.length, 0] ++ instruction.data ++ [0, 0]
  signMessage _ _ := ⟨Vector.replicate 64 0⟩
  minimumBalance length := (128 + length) * 3480 * 2
  clockData := List.replicate 40 0
  rentData := [152, 13, 0, 0, 0, 0, 0, 0, 0, 0, 0, 0, 0, 0, 0, 64, 50]

/-- A key of equal bytes. -/
def sampleKey (byte : UInt8) : Pubkey := ⟨Vector.replicate 32 byte⟩

/-- No early checks, no features and no sysvars. -/
def transferContext : InvokeContext where
  sdk := transferSdk
  policy := ⟨fun _ _ => none, fun _ _ => none, fun _ _ => none, fun _ => none⟩
  blockhash := transferSdk.hash "playnet".toUTF8.toList
  lamportsPerSignature := 0
  systemTransferZeroCheck := false
  mergeNonceErrorIntoSystemError := false
  sysvarCache := ⟨none, none, none⟩

/-- Three lamports from the first account, which signs, to the second. -/
def transferThree : InstructionContext where
  programAccounts := [2]
  instructionAccounts := [⟨0, 0, 0, true, true⟩, ⟨1, 1, 1, false, true⟩]
  instructionData := transferSdk.serialize (.transfer 3)

/-- A payer and a receiver. -/
def balances (payer receiver : Nat) : TransactionContext where
  accounts := [(sampleKey 1, Account.new payer 0 systemProgram),
    (sampleKey 2, Account.new receiver 0 systemProgram)]

/-- The account that pays the three lamports signs. -/
theorem transfer_authorized :
    ∃ account, (balances 7 3).accounts[0]? = some (sampleKey 1, account) ∧
      (account.lamports < 10 ∨ account.owner ≠ systemProgram →
        Authorized transferSdk transferThree (balances 10 0) (sampleKey 1)
          (Account.new 10 0 systemProgram)) ∧
      (account.data ≠ [] →
        Authorized transferSdk transferThree (balances 10 0) (sampleKey 1)
          (Account.new 10 0 systemProgram) ∨
        Exempt (.transfer 3) (Account.new 10 0 systemProgram)) :=
  processSystemInstruction_authorized transferContext rfl rfl 0 _
    (Account.new 10 0 systemProgram) rfl

end Solpg.Playnet.Runtime
