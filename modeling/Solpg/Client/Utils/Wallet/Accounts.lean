import Solpg.Std.Machine
import Solpg.Std.Text
import Mathlib.Data.List.InsertIdx
import Mathlib.Data.List.Nodup

/-!
# Accounts of the wallet

The Playground accounts of `PgWallet` and the operations on them. A program that throws
keeps what it has already changed, as the state is below the exception.
-/

namespace Solpg.Client.Utils.Wallet

open Solpg.Std

/-- `state` of the wallet. -/
inductive WalletStatus where
  | pg
  | sol
  | disconnected
  | setup
  deriving DecidableEq, Repr

/-- A stored account: the secret key and the name. -/
structure WalletAccount where
  kp : List UInt8
  name : Text
  deriving DecidableEq, Repr

/-- The stored wallet. -/
structure WalletState where
  state : WalletStatus
  accounts : List WalletAccount
  currentIndex : Int
  deriving DecidableEq, Repr

/-- The errors of the wallet operations. -/
inductive WalletError where
  | emptyName
  | nameExists (name : Text)
  | indexNotFound (index : Int)
  /-- `accounts[index]` of `rename` is `undefined`. -/
  | undefinedAccount
  /-- `Keypair.fromSecretKey` throws. -/
  | invalidSecretKey
  | invalidKeypair
  /-- The file is not the JSON of a list of bytes. -/
  | unreadable (message : Text)
  deriving DecidableEq, Repr

/-- The keypairs of `web3.js`. -/
structure Web3 (Keypair PublicKey : Type) where
  secretKey : Keypair → List UInt8
  publicKey : Keypair → PublicKey
  fromSecretKey : List UInt8 → Option Keypair
  fromSecretKey_secretKey : ∀ keypair, fromSecretKey (secretKey keypair) = some keypair

/-- A wallet operation: it may throw and keeps what it had changed before. -/
abbrev WalletM := ExceptT WalletError (StateM WalletState)

namespace WalletM

variable {α β : Type}

/-- The result of a program and the state it leaves. -/
def exec (program : WalletM α) (wallet : WalletState) : Except WalletError α × WalletState :=
  (ExceptT.run program).run wallet

@[simp] theorem exec_pure (value : α) (wallet : WalletState) :
    exec (pure value) wallet = (.ok value, wallet) := rfl

@[simp] theorem exec_get (wallet : WalletState) : exec get wallet = (.ok wallet, wallet) := rfl

@[simp] theorem exec_set (after wallet : WalletState) :
    exec (set after) wallet = (.ok (), after) := rfl

@[simp] theorem exec_modify (f : WalletState → WalletState) (wallet : WalletState) :
    exec (modify f) wallet = (.ok (), f wallet) := rfl

@[simp] theorem exec_throw (error : WalletError) (wallet : WalletState) :
    exec (throw error : WalletM α) wallet = (.error error, wallet) := rfl

@[simp] theorem exec_ofExcept (result : Except WalletError α) (wallet : WalletState) :
    exec (ofExcept result) wallet = (result, wallet) := by
  cases result <;> rfl

/-- One operation after the other, unless the first throws. -/
theorem exec_bind (program : WalletM α) (next : α → WalletM β) (wallet : WalletState) :
    exec (program >>= next) wallet =
      match exec program wallet with
      | (.ok value, after) => exec (next value) after
      | (.error error, after) => (.error error, after) := by
  simp only [exec, ExceptT.run_bind, StateT.run_bind]
  rcases ran : StateT.run (ExceptT.run program) wallet with ⟨result, after⟩
  cases result <;> rfl

/-- A discarded value changes nothing else. -/
theorem exec_discard (program : WalletM α) (wallet : WalletState) :
    exec (discard program) wallet =
      ((exec program wallet).1.map fun _ => (), (exec program wallet).2) := by
  have mapped := exec_bind program (fun _ => pure ()) wallet
  rw [show program >>= (fun _ => pure ()) = discard program from rfl] at mapped
  rw [mapped]
  rcases ran : exec program wallet with ⟨result, after⟩
  cases result <;> rfl

/-- A handler runs from the state in which the error was thrown. -/
theorem exec_tryCatch (program : WalletM α) (handler : WalletError → WalletM α)
    (wallet : WalletState) :
    exec (tryCatch program handler) wallet =
      match exec program wallet with
      | (.ok value, after) => (.ok value, after)
      | (.error error, after) => exec (handler error) after := by
  simp only [exec, tryCatch, tryCatchThe, MonadExceptOf.tryCatch, ExceptT.tryCatch, ExceptT.mk,
    StateT.run_bind, ExceptT.run]
  rcases ran : StateT.run (m := Id) program wallet with ⟨result, after⟩
  cases result <;> rfl

end WalletM

/-- `accounts[index]`. -/
def accountAt (accounts : List WalletAccount) (index : Int) : Option WalletAccount :=
  if index < 0 then none else accounts[index.toNat]?

/-- `accounts[index]` at a natural index. -/
@[simp] theorem accountAt_natCast (accounts : List WalletAccount) (index : Nat) :
    accountAt accounts index = accounts[index]? := by
  have nonnegative : ¬ (index : Int) < 0 := by omega
  simp [accountAt, nonnegative]

/-- An index has an account exactly when it is within the accounts. -/
theorem isSome_accountAt {accounts : List WalletAccount} {index : Int} :
    (accountAt accounts index).isSome ↔ 0 ≤ index ∧ index < accounts.length := by
  unfold accountAt
  split
  · simp only [Option.isSome_none, Bool.false_eq_true, false_iff]
    omega
  · simp only [isSome_getElem?]
    omega

/-- `accounts.splice(index, 1)`: a negative index counts from the end. -/
def spliceOne (accounts : List WalletAccount) (index : Int) : List WalletAccount :=
  accounts.eraseIdx (if index < 0 then accounts.length + index else index).toNat

/-- `validateAccountName`, which compares the trimmed name with the stored ones. -/
def validateAccountName (accounts : List WalletAccount) (name : Text) :
    Except WalletError Unit :=
  let name := Text.trim name
  if name = [] then .error .emptyName
  else if accounts.any fun account => account.name == name then .error (.nameExists name)
  else .ok ()

/-- `getDefaultAccountName`: `Wallet` and the index counted from 1. -/
def getDefaultAccountName (index : Nat) : Text := "Wallet ".toList ++ Nat.toDigits 10 (index + 1)

/-- Default names of two indices differ. -/
theorem getDefaultAccountName_injective {first second : Nat}
    (same : getDefaultAccountName first = getDefaultAccountName second) : first = second := by
  unfold getDefaultAccountName at same
  have digits := List.append_cancel_left same
  have numbers := congrArg (fun digits => Nat.ofDigitChars 10 digits 0) digits
  simp only [Nat.ofDigitChars_toDigits (b := 10) (by decide) (by decide)] at numbers
  omega

/-- Default names are not empty. -/
theorem getDefaultAccountName_ne_nil (index : Nat) : getDefaultAccountName index ≠ [] := by
  unfold getDefaultAccountName
  exact List.append_ne_nil_of_right_ne_nil _ Nat.toDigits_ne_nil

/-- Default names have no white space around them. -/
theorem trim_getDefaultAccountName (index : Nat) :
    Text.trim (getDefaultAccountName index) = getDefaultAccountName index := by
  apply Text.trim_eq_self
  · intro char first
    have capital : (getDefaultAccountName index).head? = some 'W' := by
      have start : "Wallet ".toList.head? = some 'W' := by simp
      unfold getDefaultAccountName
      rw [List.head?_append, start, Option.some_or]
    rw [Option.mem_def, capital] at first
    cases first
    decide
  · intro char last
    have member : char ∈ Nat.toDigits 10 (index + 1) := by
      unfold getDefaultAccountName at last
      rw [List.getLast?_append_of_ne_nil _ Nat.toDigits_ne_nil] at last
      exact List.mem_of_getLast? last
    have digit := Nat.isDigit_of_mem_toDigits (by decide) (by decide) member
    simp only [Char.isDigit, Bool.and_eq_true, decide_eq_true_eq] at digit
    have low : 48 ≤ char.toNat := digit.1
    have high : char.toNat ≤ 57 := digit.2
    simp [Text.isSpace]
    omega

/-- A default name is refused only because an account has it. -/
theorem mem_of_validate_default {accounts : List WalletAccount} {index : Nat}
    (refused : validateAccountName accounts (getDefaultAccountName index) ≠ .ok ()) :
    ∃ account ∈ accounts, account.name = getDefaultAccountName index := by
  by_contra none
  apply refused
  rw [validateAccountName, trim_getDefaultAccountName,
    if_neg (getDefaultAccountName_ne_nil index), if_neg]
  simpa using none

open Classical in
/-- The accounts with a default name of the index or a later one. -/
noncomputable def defaultNamed (accounts : List WalletAccount) (index : Nat) :
    List WalletAccount :=
  accounts.filter fun account => ∃ later ≥ index, account.name = getDefaultAccountName later

/-- A refused default name is taken, so fewer are left to be taken. -/
theorem defaultNamed_succ_lt {accounts : List WalletAccount} {index : Nat}
    (refused : validateAccountName accounts (getDefaultAccountName index) ≠ .ok ()) :
    (defaultNamed accounts (index + 1)).length < (defaultNamed accounts index).length := by
  classical
  have narrower : defaultNamed accounts (index + 1) =
      (defaultNamed accounts index).filter fun account =>
        ∃ later ≥ index + 1, account.name = getDefaultAccountName later := by
    simp only [defaultNamed, List.filter_filter]
    apply List.filter_congr
    intro account _
    rw [← Bool.decide_and]
    apply decide_eq_decide.mpr
    constructor
    · rintro ⟨later, above, named⟩
      exact ⟨⟨later, above, named⟩, later, by omega, named⟩
    · exact And.left
  obtain ⟨account, member, named⟩ := mem_of_validate_default refused
  rw [narrower, List.length_filter_lt_length_iff_exists]
  refine ⟨account, ?_, ?_⟩
  · simpa [defaultNamed] using ⟨member, index, le_refl index, named⟩
  · simp only [decide_eq_true_eq, not_exists, not_and]
    intro later above again
    have same := getDefaultAccountName_injective (named.symm.trans again)
    omega

/-- `getNextAvailableAccountName`, which tries the default names in turn. -/
def getNextAvailableAccountName (accounts : List WalletAccount) (index : Nat) : Text :=
  if validateAccountName accounts (getDefaultAccountName index) = .ok () then
    getDefaultAccountName index
  else getNextAvailableAccountName accounts (index + 1)
termination_by (defaultNamed accounts index).length
decreasing_by exact defaultNamed_succ_lt (by assumption)

/-- The name that an account is given by default is valid. -/
theorem validate_nextAvailable (accounts : List WalletAccount) (index : Nat) :
    validateAccountName accounts (getNextAvailableAccountName accounts index) = .ok () := by
  induction index using getNextAvailableAccountName.induct accounts with
  | case1 index valid =>
      rw [getNextAvailableAccountName, if_pos valid]
      exact valid
  | case2 index refused ih =>
      rw [getNextAvailableAccountName, if_neg refused]
      exact ih

/-- `switch(index)`. -/
def switch (index : Int) : WalletM Unit := do
  if (accountAt (← get).accounts index).isNone then throw (.indexNotFound index)
  modify fun wallet => { wallet with state := .pg, currentIndex := index }

/-- `index` is the current one by default. -/
def remove (index : Option Int) : WalletM Unit := do
  let wallet ← get
  let accounts := spliceOne wallet.accounts (index.getD wallet.currentIndex)
  set { wallet with accounts, currentIndex := accounts.length - 1 }

/-- `rename(name, index)`, which stores the name as it was typed. -/
def rename (name : Text) (index : Option Int) : WalletM Unit := do
  let wallet ← get
  let index := index.getD wallet.currentIndex
  ofExcept (validateAccountName wallet.accounts name)
  if (accountAt wallet.accounts index).isNone then throw .undefinedAccount
  let accounts := wallet.accounts.modify index.toNat fun account => { account with name }
  set { wallet with accounts }

section Keypairs

variable {Keypair PublicKey : Type} [DecidableEq PublicKey] (web3 : Web3 Keypair PublicKey)

/-- `Keypair.fromSecretKey`. -/
def fromSecretKey (bytes : List UInt8) : Except WalletError Keypair :=
  match web3.fromSecretKey bytes with
  | some keypair => .ok keypair
  | none => .error .invalidSecretKey

/-- The public key of `create`. -/
def accountPublicKey (account : WalletAccount) : Except WalletError PublicKey :=
  (fromSecretKey web3 account.kp).map web3.publicKey

/-- The `findIndex` of `add`. -/
def findAccount (name : Text) (keypair : Keypair) :
    List WalletAccount → Except WalletError (Option Nat)
  | [] => .ok none
  | account :: rest => do
      if name ≠ [] ∧ account.name = name then return some 0
      if (← accountPublicKey web3 account) = web3.publicKey keypair then return some 0
      return (← findAccount name keypair rest).map (· + 1)

/-- `generated` is the random keypair, which is made whether it is needed or not. -/
def add (name : Option Text) (keypair : Option Keypair) (generated : Keypair) :
    WalletM Unit := do
  let wallet ← get
  let name := name.getD (getNextAvailableAccountName wallet.accounts wallet.accounts.length)
  let keypair := keypair.getD generated
  ofExcept (validateAccountName wallet.accounts name)
  match ← ofExcept (findAccount web3 name keypair wallet.accounts) with
  | some index => switch index
  | none =>
      let accounts := wallet.accounts ++ [{ kp := web3.secretKey keypair, name }]
      set { wallet with accounts }
      set { state := .pg, accounts, currentIndex := accounts.length - 1 : WalletState }

/-- The `try` of `import`. The content of the file is what
`Uint8Array.from(JSON.parse(text))` makes of it. -/
def importFile (name : Option Text) (content : Except Text (List UInt8)) (generated : Keypair) :
    WalletM (Option Keypair) := do
  let bytes ← ofExcept (content.mapError .unreadable)
  if bytes.length ≠ 64 then throw .invalidKeypair
  let keypair ← ofExcept (fromSecretKey web3 bytes)
  add web3 name (some keypair) generated
  return some keypair

/-- `import` when the user has chosen a file, or none. -/
def importKeypair (name : Option Text) (file : Option (Except Text (List UInt8)))
    (generated : Keypair) : WalletM (Option Keypair) := do
  match file with
  | none => pure none
  | some content =>
      try importFile web3 name content generated
      catch _ => pure none

/-- The operations on the accounts. -/
inductive Operation (Keypair : Type) where
  | add (name : Option Text) (keypair : Option Keypair) (generated : Keypair)
  | importKeypair (name : Option Text) (file : Option (Except Text (List UInt8)))
      (generated : Keypair)
  | remove (index : Option Int)
  | rename (name : Text) (index : Option Int)
  | switch (index : Int)

/-- An operation is carried out. -/
def operate : Operation Keypair → WalletM Unit
  | .add name keypair generated => add web3 name keypair generated
  | .importKeypair name file generated => discard (importKeypair web3 name file generated)
  | .remove index => remove index
  | .rename name index => rename name index
  | .switch index => switch index

end Keypairs

/-! ## What each operation does -/

/-- What `switch` does to the wallet. -/
theorem exec_switch (index : Int) (wallet : WalletState) :
    (switch index).exec wallet =
      if (accountAt wallet.accounts index).isNone then (.error (.indexNotFound index), wallet)
      else (.ok (), { wallet with state := .pg, currentIndex := index }) := by
  simp only [switch, WalletM.exec_bind, WalletM.exec_get]
  split <;> simp_all

/-- What `remove` does to the wallet. -/
theorem exec_remove (index : Option Int) (wallet : WalletState) :
    (remove index).exec wallet =
      (.ok (),
        { wallet with
          accounts := spliceOne wallet.accounts (index.getD wallet.currentIndex)
          currentIndex :=
            (spliceOne wallet.accounts (index.getD wallet.currentIndex)).length - 1 }) := by
  simp [remove, WalletM.exec_bind]

/-- `rename` refuses, or gives one account the name as it is. -/
theorem rename_cases (name : Text) (index : Option Int) (wallet : WalletState) :
    (∃ error, (rename name index).exec wallet = (.error error, wallet) ∧
      (validateAccountName wallet.accounts name = .ok () →
        accountAt wallet.accounts (index.getD wallet.currentIndex) = none)) ∨
    (validateAccountName wallet.accounts name = .ok () ∧
      (accountAt wallet.accounts (index.getD wallet.currentIndex)).isSome ∧
      (rename name index).exec wallet =
        (.ok (),
          { wallet with
            accounts := wallet.accounts.modify (index.getD wallet.currentIndex).toNat
              fun account => { account with name } })) := by
  simp only [rename, WalletM.exec_bind, WalletM.exec_get, WalletM.exec_ofExcept]
  cases valid : validateAccountName wallet.accounts name with
  | error error => exact .inl ⟨error, by simp⟩
  | ok done =>
      cases found : accountAt wallet.accounts (index.getD wallet.currentIndex) with
      | none => exact .inl ⟨.undefinedAccount, by simp⟩
      | some account => exact .inr (by simp)

section Keypairs

variable {Keypair PublicKey : Type} [DecidableEq PublicKey] {web3 : Web3 Keypair PublicKey}
  {wallet : WalletState}

/-- What the search of `add` finds is an account, and when it finds none, no account has the
name or the key. -/
theorem findAccount_spec {name : Text} {keypair : Keypair} {accounts : List WalletAccount}
    {found : Option Nat} (searched : findAccount web3 name keypair accounts = .ok found) :
    (∀ index, found = some index → index < accounts.length) ∧
      (found = none → ∀ account ∈ accounts, (name ≠ [] → account.name ≠ name) ∧
        ∃ existing, web3.fromSecretKey account.kp = some existing ∧
          web3.publicKey existing ≠ web3.publicKey keypair) := by
  induction accounts generalizing found with
  | nil =>
      cases searched
      simp
  | cons account rest ih =>
      rw [findAccount] at searched
      split at searched
      case isTrue =>
        cases searched
        simp
      case isFalse otherName =>
        cases known : web3.fromSecretKey account.kp with
        | none => simp [accountPublicKey, fromSecretKey, known, Except.map, bind, Except.bind]
            at searched
        | some existing =>
            simp only [accountPublicKey, fromSecretKey, known, Except.map, bind, Except.bind]
              at searched
            split at searched
            case isTrue =>
              cases searched
              simp
            case isFalse otherKey =>
              cases later : findAccount web3 name keypair rest with
              | error error => simp [later] at searched
              | ok after =>
                  obtain ⟨within, absent⟩ := ih later
                  simp only [later, pure, Except.pure, Except.ok.injEq] at searched
                  subst searched
                  constructor
                  · intro index shifted
                    obtain ⟨before, rfl, rfl⟩ := Option.map_eq_some_iff.mp shifted
                    simpa using within before rfl
                  · intro unfound candidate member
                    obtain ⟨rfl⟩ := Option.map_eq_none_iff.mp unfound
                    cases member with
                    | head =>
                        exact ⟨fun named same => otherName ⟨named, same⟩, existing, known, otherKey⟩
                    | tail _ member => exact absent rfl candidate member

/-- `add` refuses, or switches to an account that exists, or adds one whose name and key are
new. -/
theorem add_cases (web3 : Web3 Keypair PublicKey) (name : Option Text) (keypair : Option Keypair)
    (generated : Keypair) (wallet : WalletState) :
    (∃ error, (add web3 name keypair generated).exec wallet = (.error error, wallet)) ∨
    (∃ index : Nat, index < wallet.accounts.length ∧
      (add web3 name keypair generated).exec wallet =
        (.ok (), { wallet with state := .pg, currentIndex := index })) ∨
    (∃ added key,
      (∀ account ∈ wallet.accounts, account.name ≠ added ∧
        ∃ existing, web3.fromSecretKey account.kp = some existing ∧
          web3.publicKey existing ≠ web3.publicKey key) ∧
      (add web3 name keypair generated).exec wallet =
        (.ok (),
          { state := .pg
            accounts := wallet.accounts ++ [{ kp := web3.secretKey key, name := added }]
            currentIndex := wallet.accounts.length })) := by
  simp only [add, WalletM.exec_bind, WalletM.exec_get, WalletM.exec_ofExcept]
  generalize name.getD _ = name
  generalize keypair.getD generated = key
  cases valid : validateAccountName wallet.accounts name with
  | error error => exact .inl ⟨error, rfl⟩
  | ok done =>
      cases searched : findAccount web3 name key wallet.accounts with
      | error error => exact .inl ⟨error, rfl⟩
      | ok found =>
          obtain ⟨within, absent⟩ := findAccount_spec searched
          cases found with
          | some index =>
              exact .inr (.inl ⟨index, within index rfl, by simp [exec_switch, within index rfl]⟩)
          | none =>
              have named : name ≠ [] := by
                rintro rfl
                cases valid
              refine .inr (.inr ⟨name, key, fun account member => ?_, ?_⟩)
              · obtain ⟨otherName, otherKey⟩ := absent rfl account member
                exact ⟨otherName named, otherKey⟩
              · simp [WalletM.exec_bind]

/-- The `try` of `import` throws before it changes anything, or does what `add` does. -/
theorem importFile_cases (web3 : Web3 Keypair PublicKey) (name : Option Text)
    (content : Except Text (List UInt8)) (generated : Keypair) (wallet : WalletState) :
    (∃ error, (importFile web3 name content generated).exec wallet = (.error error, wallet)) ∨
    ∃ keypair after, (add web3 name (some keypair) generated).exec wallet = (.ok (), after) ∧
      (importFile web3 name content generated).exec wallet = (.ok (some keypair), after) := by
  simp only [importFile, WalletM.exec_bind, WalletM.exec_ofExcept]
  cases content with
  | error message => exact .inl ⟨.unreadable message, rfl⟩
  | ok bytes =>
      by_cases long : bytes.length = 64
      case neg => exact .inl ⟨.invalidKeypair, by simp [Except.mapError, long]⟩
      simp only [Except.mapError, long, ne_eq, not_true_eq_false, if_false, WalletM.exec_bind,
        WalletM.exec_ofExcept, WalletM.exec_pure]
      cases known : fromSecretKey web3 bytes with
      | error error => exact .inl ⟨error, rfl⟩
      | ok keypair =>
          obtain ⟨error, threw⟩ | ⟨index, -, switched⟩ | ⟨added, key, -, pushed⟩ :=
            add_cases web3 name (some keypair) generated wallet
          · exact .inl ⟨error, by simp [threw]⟩
          · exact .inr ⟨keypair, _, switched, by simp [switched]⟩
          · exact .inr ⟨keypair, _, pushed, by simp [pushed]⟩

/-- `import` never throws, and does nothing or what `add` does. -/
theorem importKeypair_cases (web3 : Web3 Keypair PublicKey) (name : Option Text)
    (file : Option (Except Text (List UInt8))) (generated : Keypair) (wallet : WalletState) :
    ∃ result after, (importKeypair web3 name file generated).exec wallet = (.ok result, after) ∧
      (after = wallet ∨
        ∃ keypair, (add web3 name (some keypair) generated).exec wallet = (.ok (), after)) := by
  cases file with
  | none => exact ⟨none, wallet, rfl, .inl rfl⟩
  | some content =>
      simp only [importKeypair, WalletM.exec_tryCatch]
      obtain ⟨error, threw⟩ | ⟨keypair, after, did, returned⟩ :=
        importFile_cases web3 name content generated wallet
      · exact ⟨none, wallet, by simp [threw], .inl rfl⟩
      · exact ⟨some keypair, after, by simp [returned], .inr ⟨keypair, did⟩⟩

/-! ## Runs of operations -/

/-- The wallet under a sequence of operations, from one without accounts. -/
def machine (web3 : Web3 Keypair PublicKey) : Machine WalletState (Operation Keypair) where
  Initial wallet := wallet.accounts = [] ∧ wallet.currentIndex = -1
  next wallet operation := some ((operate web3 operation).exec wallet).2

/-- Names and keys are pairwise distinct, and the current index is the one of an account, if
there is one. -/
structure Valid (web3 : Web3 Keypair PublicKey) (wallet : WalletState) : Prop where
  names : (wallet.accounts.map WalletAccount.name).Nodup
  keypairs : ∃ keypairs : List Keypair,
    wallet.accounts.map WalletAccount.kp = keypairs.map web3.secretKey ∧
      (keypairs.map web3.publicKey).Nodup
  none : wallet.accounts = [] → wallet.currentIndex = -1
  current : wallet.accounts ≠ [] →
    0 ≤ wallet.currentIndex ∧ wallet.currentIndex < wallet.accounts.length

/-- The accounts but for the one at the index, if there is one. -/
def without (accounts : List WalletAccount) (index : Int) : List WalletAccount :=
  if index < 0 then accounts else accounts.eraseIdx index.toNat

/-- An operation that throws changes nothing, and `remove` deletes the account at the index
and no other. -/
structure Acts (web3 : Web3 Keypair PublicKey) (wallet : WalletState)
    (operation : Operation Keypair) : Prop where
  atomic : ∀ {error after}, (operate web3 operation).exec wallet = (.error error, after) →
    after = wallet
  removes : ∀ {index}, operation = .remove index →
    ((operate web3 operation).exec wallet).2.accounts =
      without wallet.accounts (index.getD wallet.currentIndex)

/-- No account is renamed to the very name of another one, which a name can be that is not
trimmed. And no account is removed by a negative index. -/
def Orderly (wallet : WalletState) : Operation Keypair → Prop
  | .rename name index =>
      validateAccountName wallet.accounts name = .ok () →
      (accountAt wallet.accounts (index.getD wallet.currentIndex)).isSome →
        ∀ account ∈ without wallet.accounts (index.getD wallet.currentIndex), account.name ≠ name
  | .remove index => 0 ≤ index.getD wallet.currentIndex ∨ wallet.accounts = []
  | _ => True

omit [DecidableEq PublicKey]

/-- Switching to an account keeps the wallet valid. -/
theorem Valid.switched {index : Int} (valid : Valid web3 wallet)
    (present : (accountAt wallet.accounts index).isSome) (state : WalletStatus) :
    Valid web3 { wallet with state, currentIndex := index } where
  names := valid.names
  keypairs := valid.keypairs
  none empty := by
    have within := isSome_accountAt.mp present
    simp only [show wallet.accounts = [] from empty, List.length_nil] at within
    omega
  current _ := isSome_accountAt.mp present

/-- Adding a fresh account keeps the wallet valid. -/
theorem Valid.pushed {added : Text} {key : Keypair}
    (valid : Valid web3 wallet)
    (fresh : ∀ account ∈ wallet.accounts, account.name ≠ added ∧
      ∃ existing, web3.fromSecretKey account.kp = some existing ∧
        web3.publicKey existing ≠ web3.publicKey key) (state : WalletStatus) :
    Valid web3
      { state
        accounts := wallet.accounts ++ [{ kp := web3.secretKey key, name := added }]
        currentIndex := wallet.accounts.length } where
  names := by
    rw [List.map_append, List.map_singleton, List.nodup_append]
    refine ⟨valid.names, List.nodup_singleton _, ?_⟩
    rintro _ member _ (_ | ⟨_, ⟨⟩⟩)
    obtain ⟨account, among, rfl⟩ := List.mem_map.mp member
    exact (fresh account among).1
  keypairs := by
    obtain ⟨keypairs, keys, distinct⟩ := valid.keypairs
    refine ⟨keypairs ++ [key], by simp [keys], ?_⟩
    rw [List.map_append, List.map_singleton, List.nodup_append]
    refine ⟨distinct, List.nodup_singleton _, ?_⟩
    rintro _ member _ (_ | ⟨_, ⟨⟩⟩)
    obtain ⟨keypair, among, rfl⟩ := List.mem_map.mp member
    have stored : web3.secretKey keypair ∈ wallet.accounts.map WalletAccount.kp := by
      rw [keys]
      exact List.mem_map_of_mem among
    obtain ⟨account, owner, same⟩ := List.mem_map.mp stored
    obtain ⟨existing, known, other⟩ := (fresh account owner).2
    rw [same, web3.fromSecretKey_secretKey] at known
    cases known
    exact other
  none empty := by simp at empty
  current _ := by
    simp only [List.length_append, List.length_singleton]
    omega

/-- Removing an account keeps the wallet valid. -/
theorem Valid.removed (valid : Valid web3 wallet) (index : Int) :
    Valid web3
      { wallet with
        accounts := spliceOne wallet.accounts index
        currentIndex := (spliceOne wallet.accounts index).length - 1 } where
  names := by
    rw [spliceOne, ← List.eraseIdx_map]
    exact valid.names.eraseIdx _
  keypairs := by
    obtain ⟨keypairs, keys, distinct⟩ := valid.keypairs
    obtain ⟨position, erased⟩ : ∃ position,
        spliceOne wallet.accounts index = wallet.accounts.eraseIdx position := ⟨_, rfl⟩
    refine ⟨keypairs.eraseIdx position, ?_, ?_⟩
    · rw [erased, ← List.eraseIdx_map, keys, List.eraseIdx_map]
    · rw [← List.eraseIdx_map]
      exact distinct.eraseIdx position
  none empty := by
    have gone : spliceOne wallet.accounts index = [] := empty
    simp [gone]
  current occupied := by
    have positive := List.length_pos_of_ne_nil occupied
    dsimp only at positive ⊢
    omega

/-- A new value at one position leaves a list without duplicates if and only if no other
position has it. -/
theorem nodup_set_iff {α : Type} {items : List α} {index : Nat} {item : α}
    (distinct : items.Nodup) (within : index < items.length) :
    (items.set index item).Nodup ↔ item ∉ items.eraseIdx index := by
  have others : (items.eraseIdx index).Nodup := distinct.eraseIdx index
  rw [List.eraseIdx_eq_take_drop_succ] at others ⊢
  rw [List.set_eq_take_append_cons_drop, if_pos within, List.nodup_middle, List.nodup_cons]
  exact and_iff_left others

/-- A rename keeps the wallet valid exactly when the new name is not taken. -/
theorem Valid.renamed_iff {index : Int} (valid : Valid web3 wallet)
    (present : (accountAt wallet.accounts index).isSome) (name : Text) :
    Valid web3
        { wallet with
          accounts := wallet.accounts.modify index.toNat fun account => { account with name } } ↔
      ∀ account ∈ without wallet.accounts index, account.name ≠ name := by
  obtain ⟨nonnegative, within⟩ := isSome_accountAt.mp present
  have names : (wallet.accounts.modify index.toNat fun account => { account with name }).map
      WalletAccount.name = (wallet.accounts.map WalletAccount.name).set index.toNat name := by
    apply List.ext_getElem?
    intro position
    simp only [List.getElem?_map, List.getElem?_modify, List.getElem?_set, List.length_map]
    by_cases here : index.toNat = position
    · subst here
      have inside : index.toNat < wallet.accounts.length := by omega
      simp [inside]
    · simp [here]
  have keys : (wallet.accounts.modify index.toNat fun account => { account with name }).map
      WalletAccount.kp = wallet.accounts.map WalletAccount.kp := by
    apply List.ext_getElem?
    intro position
    simp only [List.getElem?_map, List.getElem?_modify]
    by_cases here : index.toNat = position <;> cases wallet.accounts[position]? <;> simp [here]
  have fresh : (∀ account ∈ without wallet.accounts index, account.name ≠ name) ↔
      ((wallet.accounts.map WalletAccount.name).set index.toNat name).Nodup := by
    rw [nodup_set_iff valid.names (by rw [List.length_map]; omega), List.eraseIdx_map, without,
      if_neg (by omega)]
    simp only [List.mem_map, not_exists, not_and]
  rw [fresh]
  constructor
  · intro after
    rw [← names]
    exact after.names
  · intro distinct
    refine ⟨by rw [names]; exact distinct, by rw [keys]; exact valid.keypairs, ?_, ?_⟩
    · intro empty
      exact valid.none ((List.modify_eq_nil_iff ..).mp empty)
    · intro occupied
      simp only [List.length_modify]
      exact valid.current fun empty => occupied (by simp [empty])

/-- `splice` deletes what `without` leaves out, unless the index is negative. -/
theorem spliceOne_eq_without_iff (accounts : List WalletAccount) (index : Int) :
    spliceOne accounts index = without accounts index ↔ 0 ≤ index ∨ accounts = [] := by
  unfold spliceOne without
  by_cases negative : index < 0
  · rw [if_pos negative, if_pos negative]
    constructor
    · intro same
      have lengths := congrArg List.length same
      rw [List.length_eraseIdx] at lengths
      split at lengths
      · exact .inr (List.eq_nil_of_length_eq_zero (by omega))
      · exact .inr (List.eq_nil_of_length_eq_zero (by omega))
    · rintro (nonnegative | rfl)
      · omega
      · rfl
  · simp only [negative, if_false, true_iff]
    omega

variable [DecidableEq PublicKey]

/-- No operation leaves a change behind when it throws. -/
theorem operate_atomic (operation : Operation Keypair) {wallet after : WalletState}
    {error : WalletError}
    (threw : (operate web3 operation).exec wallet = (.error error, after)) : after = wallet := by
  cases operation with
  | add name keypair generated =>
      obtain ⟨error, refused⟩ | ⟨index, -, switched⟩ | ⟨added, key, -, pushed⟩ :=
        add_cases web3 name keypair generated wallet
      · cases refused.symm.trans threw
        rfl
      · cases switched.symm.trans threw
      · cases pushed.symm.trans threw
  | importKeypair name file generated =>
      obtain ⟨result, after, ended, -⟩ := importKeypair_cases web3 name file generated wallet
      rw [operate, WalletM.exec_discard, ended] at threw
      cases threw
  | remove index =>
      rw [operate, exec_remove] at threw
      cases threw
  | rename name index =>
      obtain ⟨error, refused, -⟩ | ⟨-, -, renamed⟩ := rename_cases name index wallet
      · cases refused.symm.trans threw
        rfl
      · cases renamed.symm.trans threw
  | switch index =>
      rw [operate, exec_switch] at threw
      split at threw
      · cases threw
        rfl
      · cases threw

/-- `add` keeps the wallet valid, whatever it is given. -/
theorem Valid.added (valid : Valid web3 wallet) (name : Option Text)
    (keypair : Option Keypair) (generated : Keypair) :
    Valid web3 ((add web3 name keypair generated).exec wallet).2 := by
  obtain ⟨error, refused⟩ | ⟨index, within, switched⟩ | ⟨added, key, fresh, pushed⟩ :=
    add_cases web3 name keypair generated wallet
  · rw [refused]
    exact valid
  · rw [switched]
    exact valid.switched (by simpa using within) .pg
  · rw [pushed]
    exact valid.pushed fresh .pg

/-- The wallet stays valid unless an account is renamed out of order. -/
theorem Valid.operated_iff (valid : Valid web3 wallet)
    (operation : Operation Keypair) :
    Valid web3 ((operate web3 operation).exec wallet).2 ↔
      ∀ {name index}, operation = .rename name index → Orderly wallet operation := by
  cases operation with
  | add name keypair generated =>
      exact iff_of_true (valid.added name keypair generated) nofun
  | importKeypair name file generated =>
      refine iff_of_true ?_ nofun
      obtain ⟨result, after, ended, rfl | ⟨keypair, did⟩⟩ :=
        importKeypair_cases web3 name file generated wallet
      · rw [operate, WalletM.exec_discard, ended]
        exact valid
      · rw [operate, WalletM.exec_discard, ended]
        have added := valid.added name (some keypair) generated
        rw [did] at added
        exact added
  | remove index =>
      refine iff_of_true ?_ nofun
      rw [operate, exec_remove]
      exact valid.removed _
  | rename name index =>
      obtain ⟨error, refused, absent⟩ | ⟨accepted, present, renamed⟩ :=
        rename_cases name index wallet
      · rw [operate, refused]
        refine iff_of_true valid fun _ accepted present => ?_
        rw [absent accepted] at present
        cases present
      · rw [operate, renamed]
        constructor
        · intro after _ _ _ _ _
          exact (valid.renamed_iff present name).mp after
        · intro orderly
          exact (valid.renamed_iff present name).mpr (orderly rfl accepted present)
  | switch index =>
      refine iff_of_true ?_ nofun
      rw [operate, exec_switch]
      by_cases absent : (accountAt wallet.accounts index).isNone
      · rw [if_pos absent]
        exact valid
      · rw [if_neg absent]
        exact valid.switched (by simpa [Option.isSome_iff_ne_none] using absent) .pg

/-- Among the operations only `remove` may act on the wrong account. -/
theorem acts_iff (wallet : WalletState) (operation : Operation Keypair) :
    Acts web3 wallet operation ↔
      ∀ {index}, operation = .remove index → Orderly wallet operation := by
  constructor
  · rintro acts index rfl
    have removed := acts.removes rfl
    rw [operate, exec_remove] at removed
    exact (spliceOne_eq_without_iff ..).mp removed
  · intro orderly
    refine ⟨operate_atomic operation, ?_⟩
    rintro index rfl
    rw [operate, exec_remove]
    exact (spliceOne_eq_without_iff ..).mpr (orderly rfl)

/-- An orderly operation is one that keeps the wallet valid and does what it should. -/
theorem orderly_iff (valid : Valid web3 wallet)
    (operation : Operation Keypair) :
    Orderly wallet operation ↔
      (∀ next, (machine web3).next wallet operation = some next → Valid web3 next) ∧
        Acts web3 wallet operation := by
  have stepped : (∀ next, (machine web3).next wallet operation = some next → Valid web3 next) ↔
      Valid web3 ((operate web3 operation).exec wallet).2 :=
    ⟨fun after => after _ rfl, by rintro after _ ⟨⟩; exact after⟩
  rw [stepped, valid.operated_iff, acts_iff]
  constructor
  · intro orderly
    exact ⟨fun _ => orderly, fun _ => orderly⟩
  · rintro ⟨renames, removes⟩
    cases operation with
    | rename name index => exact renames rfl
    | remove index => exact removes rfl
    | _ => trivial

/-- A wallet without accounts is valid. -/
theorem valid_of_initial (initial : (machine web3).Initial wallet) :
    Valid web3 wallet where
  names := by simp [initial.1]
  keypairs := ⟨[], by simp [initial.1], by simp⟩
  none _ := initial.2
  current occupied := absurd initial.1 occupied

/-- From a wallet without accounts on, the wallet is valid in every state and each operation
does what it should, in exactly the runs whose operations are all orderly. -/
theorem correct_iff_orderly {wallet : WalletState} (initial : (machine web3).Initial wallet)
    (operations : List (Operation Keypair)) :
    (machine web3).Throughout (Valid web3) wallet operations ∧
        (machine web3).Meets (Acts web3) wallet operations ↔
      (machine web3).Meets Orderly wallet operations :=
  Machine.throughout_and_meets_iff (fun valid => orderly_iff valid _) operations
    (valid_of_initial initial)

end Keypairs

/-- Keypairs whose bytes are all the same, in place of those of the curve. -/
def uniformKeys : Web3 UInt8 UInt8 where
  secretKey := List.replicate 64
  publicKey keypair := keypair
  fromSecretKey bytes := bytes.head?
  fromSecretKey_secretKey _ := rfl

/-- The wallet of the first visit. -/
def emptyWallet : WalletState := ⟨.setup, [], -1⟩

/-- Two accounts, the first of which is renamed and then removed. -/
def renamesAndRemoves : List (Operation UInt8) :=
  [.add (some ['a']) (some 1) 0, .add (some ['b']) (some 2) 0, .rename ['c'] (some 0),
    .remove (some 0)]

/-- Two accounts that are both renamed to a name with a blank before it. -/
def renamesTwice : List (Operation UInt8) :=
  [.add (some ['a']) (some 1) 0, .add (some ['b']) (some 2) 0, .rename [' ', 'c'] (some 0),
    .rename [' ', 'c'] (some 1)]

/-- A run with all the operations in which each is orderly. -/
theorem renamesAndRemoves_correct :
    (machine uniformKeys).Initial emptyWallet ∧
      (machine uniformKeys).Throughout (Valid uniformKeys) emptyWallet renamesAndRemoves ∧
        (machine uniformKeys).Meets (Acts uniformKeys) emptyWallet renamesAndRemoves := by
  refine ⟨⟨rfl, rfl⟩, (correct_iff_orderly ⟨rfl, rfl⟩ renamesAndRemoves).mpr ?_⟩
  refine ⟨trivial, ?_⟩
  rintro _ ⟨⟩
  refine ⟨trivial, ?_⟩
  rintro _ ⟨⟩
  refine ⟨?_, ?_⟩
  · intro _ _ account member
    have second : account = ⟨List.replicate 64 2, ['b']⟩ := List.mem_singleton.mp member
    simp [second]
  rintro _ ⟨⟩
  refine ⟨.inl (by decide), ?_⟩
  rintro _ ⟨⟩
  trivial

/-- Both accounts have the same name. -/
theorem not_always_valid :
    ¬ ∀ (Keypair PublicKey : Type) (_ : DecidableEq PublicKey) (web3 : Web3 Keypair PublicKey)
      (wallet : WalletState) (operations : List (Operation Keypair)),
      (machine web3).Initial wallet →
        (machine web3).Throughout (Valid web3) wallet operations ∧
          (machine web3).Meets (Acts web3) wallet operations := by
  intro always
  obtain ⟨valid, -⟩ := always UInt8 UInt8 inferInstance uniformKeys emptyWallet renamesTwice
    ⟨rfl, rfl⟩
  have reached : (machine uniformKeys).run emptyWallet renamesTwice =
      some ⟨.pg, [⟨List.replicate 64 1, [' ', 'c']⟩, ⟨List.replicate 64 2, [' ', 'c']⟩], 1⟩ := by
    rfl
  have names := (valid.of_run reached).names
  simp at names

end Solpg.Client.Utils.Wallet
