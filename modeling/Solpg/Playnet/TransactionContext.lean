import Solpg.Playnet.Sdk
import Solpg.Std.Outcome
import Solpg.Std.Table

/-!
# Borrowing accounts of a transaction

`TransactionContext`, `InstructionContext` and `BorrowedAccount`. A borrowed
account is a copy that is written back when it is dropped: the code never holds
two at once. Whether a modification is permitted is an `AccessPolicy`, since
the bank turns the early checks off and the invoke context checks later.
-/

namespace Solpg.Playnet

open Solpg.Std
open Outcome

/-- The accounts of a transaction in its order. -/
@[ext] structure TransactionContext where
  accounts : List (Pubkey × Account)
  deriving DecidableEq

/-- An account of an instruction. -/
structure InstructionAccount where
  indexInTransaction : Nat
  indexInCaller : Nat
  indexInCallee : Nat
  isSigner : Bool
  isWritable : Bool
  deriving DecidableEq, Repr

/-- An instruction with its accounts. -/
structure InstructionContext where
  programAccounts : List Nat
  instructionAccounts : List InstructionAccount
  instructionData : List UInt8
  deriving DecidableEq, Repr

/-- An account borrowed by an instruction. -/
structure BorrowedAccount where
  indexInTransaction : Nat
  key : Pubkey
  account : Account
  isWritable : Bool
  deriving DecidableEq

/-- The permission checks of a `BorrowedAccount`: an error, or none. -/
structure AccessPolicy where
  owner : BorrowedAccount → Pubkey → Option AccessError
  lamports : BorrowedAccount → Nat → Option AccessError
  dataLength : BorrowedAccount → Nat → Option AccessError
  data : BorrowedAccount → Option AccessError

namespace TransactionContext

/-- `get_key_of_account_at_index`. -/
def getKeyOfAccountAtIndex (context : TransactionContext) (index : Nat) :
    Except InstructionError Pubkey :=
  match context.accounts[index]? with
  | some (key, _) => .ok key
  | none => .error .notEnoughAccountKeys

/-- `find_index_of_account`: the first account of this key. -/
def findIndexOfAccount (context : TransactionContext) (key : Pubkey) : Option Nat :=
  context.accounts.findIdx? fun entry => entry.1 == key

/-- `drop` of a borrowed account. -/
def drop (context : TransactionContext) (borrowed : BorrowedAccount) : TransactionContext where
  accounts := context.accounts.set borrowed.indexInTransaction (borrowed.key, borrowed.account)

end TransactionContext

namespace InstructionContext

variable (instruction : InstructionContext)

/-- `check_number_of_instruction_accounts`. -/
def checkNumberOfInstructionAccounts (expected : Nat) : Except InstructionError Unit :=
  require (expected ≤ instruction.instructionAccounts.length) .notEnoughAccountKeys

/-- `get_index_of_instruction_account_in_transaction`. -/
def getIndexOfInstructionAccountInTransaction (index : Nat) : Except InstructionError Nat :=
  match instruction.instructionAccounts[index]? with
  | some account => .ok account.indexInTransaction
  | none => .error .notEnoughAccountKeys

/-- `is_instruction_account_signer`. -/
def isInstructionAccountSigner (index : Nat) : Except InstructionError Bool :=
  match instruction.instructionAccounts[index]? with
  | some account => .ok account.isSigner
  | none => .error .missingAccount

/-- `try_borrow_instruction_account`. -/
def tryBorrowInstructionAccount (context : TransactionContext) (index : Nat) :
    Except InstructionError BorrowedAccount :=
  match instruction.instructionAccounts[index]? with
  | none => .error .notEnoughAccountKeys
  | some account =>
      match context.accounts[account.indexInTransaction]? with
      | none => .error .missingAccount
      | some (key, stored) => .ok ⟨account.indexInTransaction, key, stored, account.isWritable⟩

/-- The keys of the accounts that sign. -/
def collectSigners (context : TransactionContext) :
    List InstructionAccount → Except InstructionError (List Pubkey)
  | [] => .ok []
  | account :: rest => do
      if account.isSigner then
        let key ← context.getKeyOfAccountAtIndex account.indexInTransaction
        return key :: (← collectSigners context rest)
      else
        collectSigners context rest

/-- `get_signers`. -/
def getSigners (context : TransactionContext) : Except InstructionError (List Pubkey) :=
  collectSigners context instruction.instructionAccounts

/-- The key of an instruction account. -/
def getKey (context : TransactionContext) (index : Nat) : Except InstructionError Pubkey := do
  context.getKeyOfAccountAtIndex (← instruction.getIndexOfInstructionAccountInTransaction index)

end InstructionContext

namespace BorrowedAccount

variable (policy : AccessPolicy) (borrowed : BorrowedAccount)

/-- Fail with the error of a permission check, if it has one. -/
def checked (denied : Option AccessError) : Except InstructionError Unit :=
  match denied with
  | some error => .error (.access error)
  | none => .ok ()

/-- `set_lamports`. -/
def setLamports (lamports : Nat) : Except InstructionError BorrowedAccount := do
  checked (policy.lamports borrowed lamports)
  return { borrowed with account := { borrowed.account with lamports } }

/-- Checked addition on a `u64`. -/
def checkedAddLamports (lamports : Nat) : Except InstructionError BorrowedAccount := do
  require (borrowed.account.lamports + lamports < 2 ^ 64) .arithmeticOverflow
  borrowed.setLamports policy (borrowed.account.lamports + lamports)

/-- Checked subtraction on a `u64`. -/
def checkedSubLamports (lamports : Nat) : Except InstructionError BorrowedAccount := do
  require (lamports ≤ borrowed.account.lamports) .arithmeticOverflow
  borrowed.setLamports policy (borrowed.account.lamports - lamports)

/-- `set_owner`. -/
def setOwner (owner : Pubkey) : Except InstructionError BorrowedAccount := do
  checked (policy.owner borrowed owner)
  return { borrowed with account := { borrowed.account with owner } }

/-- `Vec::resize` with zeroes. -/
def setDataLength (length : Nat) : Except InstructionError BorrowedAccount := do
  checked (policy.dataLength borrowed length)
  let data := borrowed.account.data.take length ++
    List.replicate (length - borrowed.account.data.length) 0
  return { borrowed with account := { borrowed.account with data } }

/-- Write a serialized state over the front of the data. -/
def setState (state : List UInt8) : Except InstructionError BorrowedAccount := do
  checked (policy.data borrowed)
  require (state.length ≤ borrowed.account.data.length) .accountDataTooSmall
  let data := state ++ borrowed.account.data.drop state.length
  return { borrowed with account := { borrowed.account with data } }

end BorrowedAccount

/-! ## Signers -/

/-- An instruction account with this key signs. -/
def InstructionContext.IsSigner (instruction : InstructionContext) (context : TransactionContext)
    (key : Pubkey) : Prop :=
  ∃ account ∈ instruction.instructionAccounts, account.isSigner = true ∧
    context.getKeyOfAccountAtIndex account.indexInTransaction = .ok key

section Signers

variable {instruction : InstructionContext} {context : TransactionContext}
  {onError : InstructionError → Prop}

/-- The key of an account that is flagged as a signer signs. -/
theorem InstructionContext.isSigner_of_flag {account : InstructionAccount} {key : Pubkey}
    (member : account ∈ instruction.instructionAccounts) (flag : account.isSigner = true)
    (found : context.getKeyOfAccountAtIndex account.indexInTransaction = .ok key) :
    instruction.IsSigner context key :=
  ⟨account, member, flag, found⟩

/-- An account in the context has its key. -/
theorem TransactionContext.getKey_of_getElem? {index : Nat} {key : Pubkey} {account : Account}
    (found : context.accounts[index]? = some (key, account)) :
    context.getKeyOfAccountAtIndex index = .ok key := by
  simp [TransactionContext.getKeyOfAccountAtIndex, found]

/-- An index has one key. -/
theorem TransactionContext.key_unique {index : Nat} {key other : Pubkey} {account : Account}
    (found : context.accounts[index]? = some (key, account))
    (stored : context.getKeyOfAccountAtIndex index = .ok other) : other = key := by
  rw [TransactionContext.getKey_of_getElem? found] at stored
  exact (Except.ok.inj stored).symm

/-- Contexts with the same keys have the same signers. -/
theorem InstructionContext.IsSigner.of_keys {after : TransactionContext} {key : Pubkey}
    (same : after.accounts.map Prod.fst = context.accounts.map Prod.fst)
    (signs : instruction.IsSigner after key) : instruction.IsSigner context key := by
  obtain ⟨account, member, flag, found⟩ := signs
  refine ⟨account, member, flag, ?_⟩
  have keys := congrArg (·[account.indexInTransaction]?) same
  simp only [List.getElem?_map] at keys
  simp only [TransactionContext.getKeyOfAccountAtIndex] at found ⊢
  cases atAfter : after.accounts[account.indexInTransaction]? with
  | none => simp [atAfter] at found
  | some entry =>
      cases atBefore : context.accounts[account.indexInTransaction]? with
      | none => simp [atAfter, atBefore] at keys
      | some before => simp_all

variable (others : ∀ error, error ≠ .arithmeticOverflow → onError error)

include others

/-- Reading a key reads the stored one. -/
theorem TransactionContext.getKey_spec (index : Nat) :
    Ensures (context.getKeyOfAccountAtIndex index)
      (fun key => context.getKeyOfAccountAtIndex index = .ok key) onError := by
  simp only [getKeyOfAccountAtIndex]
  split
  · exact .ok rfl
  · exact .error (others _ (by simp))

/-- Reading an index reads that of the instruction's account. -/
theorem InstructionContext.getIndex_spec (index : Nat) :
    Ensures (instruction.getIndexOfInstructionAccountInTransaction index)
      (fun found => ∃ account, instruction.instructionAccounts[index]? = some account ∧
        found = account.indexInTransaction) onError := by
  simp only [getIndexOfInstructionAccountInTransaction]
  split
  next account found => exact .ok ⟨account, found, rfl⟩
  next => exact .error (others _ (by simp))

/-- The key of an instruction account, which stands at its index. -/
theorem InstructionContext.getKey_spec (index : Nat) :
    Ensures (instruction.getKey context index)
      (fun key => ∃ account, instruction.instructionAccounts[index]? = some account ∧
        context.getKeyOfAccountAtIndex account.indexInTransaction = .ok key) onError := by
  refine (InstructionContext.getIndex_spec others index).bind ?_
  rintro _ ⟨account, found, rfl⟩
  exact (TransactionContext.getKey_spec others _).mono fun key stored => ⟨account, found, stored⟩

/-- Exactly the keys of signing instruction accounts are collected. -/
theorem InstructionContext.getSigners_spec :
    Ensures (instruction.getSigners context)
      (fun signers => ∀ key ∈ signers, instruction.IsSigner context key) onError := by
  have collect : ∀ accounts : List InstructionAccount,
      Ensures (InstructionContext.collectSigners context accounts)
        (fun signers => ∀ key ∈ signers, ∃ account ∈ accounts, account.isSigner = true ∧
          context.getKeyOfAccountAtIndex account.indexInTransaction = .ok key) onError := by
    intro accounts
    induction accounts with
    | nil => exact .ok (by simp)
    | cons account rest ih =>
        simp only [InstructionContext.collectSigners]
        refine .split (fun signs => ?_) fun _ => ih.mono fun signers from_ key member => ?_
        · refine (TransactionContext.getKey_spec others _).bind fun found stored => ?_
          refine ih.bind fun signers from_ => .pure fun key member => ?_
          obtain rfl | inRest := List.mem_cons.mp member
          · exact ⟨account, List.mem_cons_self, signs, stored⟩
          · obtain ⟨other, otherMember, facts⟩ := from_ key inRest
            exact ⟨other, List.mem_cons_of_mem account otherMember, facts⟩
        · obtain ⟨other, otherMember, facts⟩ := from_ key member
          exact ⟨other, List.mem_cons_of_mem account otherMember, facts⟩
  exact collect instruction.instructionAccounts

/-- Asking for a signature reads the account's flag. -/
theorem InstructionContext.isSigner_spec (index : Nat) :
    Ensures (instruction.isInstructionAccountSigner index)
      (fun signs => ∃ account, instruction.instructionAccounts[index]? = some account ∧
        signs = account.isSigner) onError := by
  simp only [isInstructionAccountSigner]
  split
  next account found => exact .ok ⟨account, found, rfl⟩
  next => exact .error (others _ (by simp))

/-- The number check changes nothing. -/
theorem InstructionContext.checkNumber_spec (expected : Nat) :
    Ensures (instruction.checkNumberOfInstructionAccounts expected) (fun _ => True) onError :=
  (Ensures.require fun _ => others _ (by simp)).mono fun _ _ => trivial

end Signers

/-! ## Borrowing -/

/-- A copy of the account at its index. -/
def BorrowedAccount.Of (borrowed : BorrowedAccount) (context : TransactionContext) : Prop :=
  context.accounts[borrowed.indexInTransaction]? = some (borrowed.key, borrowed.account)

/-- The copy with another content. -/
def BorrowedAccount.withAccount (borrowed : BorrowedAccount) (account : Account) :
    BorrowedAccount :=
  { borrowed with account }

@[simp] theorem BorrowedAccount.withAccount_withAccount (borrowed : BorrowedAccount)
    (first second : Account) :
    (borrowed.withAccount first).withAccount second = borrowed.withAccount second := rfl

@[simp] theorem BorrowedAccount.account_withAccount (borrowed : BorrowedAccount)
    (account : Account) : (borrowed.withAccount account).account = account := rfl

section Borrow

variable {instruction : InstructionContext} {context : TransactionContext}
  {borrowed : BorrowedAccount} {policy : AccessPolicy} {onError : InstructionError → Prop}

/-- Dropping a copy changes only the account that it is a copy of. -/
theorem BorrowedAccount.Of.drop_getElem? (of : borrowed.Of context) (account : Account)
    (index : Nat) : (context.drop (borrowed.withAccount account)).accounts[index]? =
      if index = borrowed.indexInTransaction then some (borrowed.key, account)
      else context.accounts[index]? := by
  have inside := Table.lt_length_of_getElem? of
  by_cases same : index = borrowed.indexInTransaction
  · subst same
    simp [TransactionContext.drop, withAccount, inside]
  · simp [TransactionContext.drop, withAccount, same, List.getElem?_set_ne (Ne.symm same)]

variable (others : ∀ error, error ≠ .arithmeticOverflow → onError error)

include others

/-- A borrowed account is one of the instruction's. -/
theorem InstructionContext.tryBorrow_spec (index : Nat) :
    Ensures (instruction.tryBorrowInstructionAccount context index)
      (fun borrowed => borrowed.Of context ∧ ∃ account,
        instruction.instructionAccounts[index]? = some account ∧
          borrowed.indexInTransaction = account.indexInTransaction) onError := by
  simp only [tryBorrowInstructionAccount]
  split
  next => exact .error (others _ (by simp))
  next account found =>
    split
    next => exact .error (others _ (by simp))
    next key stored at_ => exact .ok ⟨at_, account, found, rfl⟩

/-- A check passes or denies. -/
theorem BorrowedAccount.checked_spec (denied : Option AccessError) :
    Ensures (checked denied) (fun _ => True) onError := by
  cases denied with
  | none => exact trivial
  | some error => exact others _ (by simp)

/-- Setting the lamports sets them alone. -/
theorem BorrowedAccount.setLamports_spec (lamports : Nat) :
    Ensures (borrowed.setLamports policy lamports)
      (fun after => after = borrowed.withAccount { borrowed.account with lamports }) onError :=
  (checked_spec others _).bind fun _ _ => .pure rfl

/-- Setting the owner sets it alone. -/
theorem BorrowedAccount.setOwner_spec (owner : Pubkey) :
    Ensures (borrowed.setOwner policy owner)
      (fun after => after = borrowed.withAccount { borrowed.account with owner }) onError :=
  (checked_spec others _).bind fun _ _ => .pure rfl

/-- Setting the length changes the data alone. -/
theorem BorrowedAccount.setDataLength_spec (length : Nat) :
    Ensures (borrowed.setDataLength policy length)
      (fun after => ∃ data, after = borrowed.withAccount { borrowed.account with data }) onError :=
  (checked_spec others _).bind fun _ _ => .pure ⟨_, rfl⟩

/-- Setting the state changes the data alone. -/
theorem BorrowedAccount.setState_spec (state : List UInt8) :
    Ensures (borrowed.setState policy state)
      (fun after => ∃ data, after = borrowed.withAccount { borrowed.account with data }) onError := by
  refine (checked_spec others _).bind fun _ _ => ?_
  refine (Ensures.require fun _ => others _ (by simp)).bind fun _ _ => ?_
  exact .pure ⟨_, rfl⟩

/-- Addition overflows only if the sum does. -/
theorem BorrowedAccount.checkedAdd_spec {lamports : Nat}
    (overflow : onError .arithmeticOverflow ∨ borrowed.account.lamports + lamports < 2 ^ 64) :
    Ensures (borrowed.checkedAddLamports policy lamports)
      (fun after => after = borrowed.withAccount
        { borrowed.account with lamports := borrowed.account.lamports + lamports }) onError := by
  refine (Ensures.require fun exceeds => ?_).bind fun _ _ => setLamports_spec others _
  exact overflow.resolve_right exceeds

/-- A subtraction leaves what is over, unless it overflows. -/
theorem BorrowedAccount.checkedSub_spec {lamports : Nat}
    (overflow : onError .arithmeticOverflow ∨ lamports ≤ borrowed.account.lamports) :
    Ensures (borrowed.checkedSubLamports policy lamports)
      (fun after => lamports ≤ borrowed.account.lamports ∧ after = borrowed.withAccount
        { borrowed.account with lamports := borrowed.account.lamports - lamports }) onError := by
  refine (Ensures.require fun exceeds => ?_).bind fun _ enough => ?_
  · exact overflow.resolve_right exceeds
  · exact (setLamports_spec others _).mono fun _ same => ⟨enough, same⟩

end Borrow

end Solpg.Playnet
