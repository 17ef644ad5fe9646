import Solpg.Playnet.Lamports

/-!
# Saving and reloading

`getSaveData` writes a bank as JSON and `PgBank::new` reads it back. Object keys
must be strings, so `serde.rs` converts the public keys. Whatever is restored,
`PgBank::new` then creates the native programs, the sysvars and the airdrop
account.
-/

namespace Solpg.Playnet.Runtime

open Solpg.Std

/-! ## Serialization -/

/-- The JSON object of a bank. -/
structure SavedBank where
  accounts : List (String × Account)
  slot : Nat
  blockHeight : Nat
  genesisHash : Hash
  latestBlockhash : Hash
  airdropKp : List UInt8

/-- What `serde.rs` calls in other crates, and the orders in which the hash maps
are visited. Texts and bytes are read back as what they were written from. -/
structure SaveFormat where
  pubkeyToString : Pubkey → String
  pubkeyFromStr : String → Option Pubkey
  keypairToBytes : Keypair → List UInt8
  keypairFromBytes : List UInt8 → Option Keypair
  accountOrder : FiniteMap.Iteration Pubkey Account
  memberOrder : FiniteMap.Iteration String Account
  pubkeyFromStr_toString : ∀ key, pubkeyFromStr (pubkeyToString key) = some key
  keypairFromBytes_toBytes : ∀ keypair, keypairFromBytes (keypairToBytes keypair) = some keypair

namespace SaveFormat

variable (format : SaveFormat)

/-- `bank_accounts::serialize`. -/
def serializeAccounts (accounts : BankAccounts) : List (String × Account) :=
  (format.accountOrder.entries accounts).map fun entry => (format.pubkeyToString entry.1, entry.2)

/-- The loop of `bank_accounts::deserialize`. It panics on a text that is no key. -/
def insertMembers (accounts : BankAccounts) : List (String × Account) → Call BankAccounts
  | [] => .returned accounts
  | (text, account) :: rest =>
      match format.pubkeyFromStr text with
      | some key => insertMembers (accounts.insert key account) rest
      | none => .panicked

/-- `bank_accounts::deserialize`. -/
def deserializeAccounts (members : List (String × Account)) : Call BankAccounts :=
  format.insertMembers ∅ (format.memberOrder.entries (FiniteMap.insertAll ∅ members))

/-- `bank_keypair::deserialize`. -/
def deserializeKeypair (bytes : List UInt8) : Call Keypair :=
  match format.keypairFromBytes bytes with
  | some keypair => .returned keypair
  | none => .panicked

def serialize (bank : PgBank) : SavedBank where
  accounts := format.serializeAccounts bank.accounts
  slot := bank.slot
  blockHeight := bank.blockHeight
  genesisHash := bank.genesisHash
  latestBlockhash := bank.latestBlockhash
  airdropKp := format.keypairToBytes bank.airdropKp

def deserialize (saved : SavedBank) : Call SaveData :=
  match format.deserializeAccounts saved.accounts, format.deserializeKeypair saved.airdropKp with
  | .returned accounts, .returned airdropKp =>
      .returned {
        accounts := accounts
        slot := saved.slot
        blockHeight := saved.blockHeight
        genesisHash := saved.genesisHash
        latestBlockhash := saved.latestBlockhash
        airdropKp := airdropKp }
  | _, _ => .panicked

/-- `Playnet::new` with save data. -/
def load (sdk : Sdk) (keypair : Keypair) (saved : SavedBank) : Call PgBank :=
  match format.deserialize saved with
  | .returned data => .returned (PgBank.new sdk keypair (some data))
  | .panicked => .panicked

variable {format}

theorem pubkeyToString_injective : Function.Injective format.pubkeyToString := by
  intro first second same
  have read := congrArg format.pubkeyFromStr same
  rw [format.pubkeyFromStr_toString, format.pubkeyFromStr_toString] at read
  exact Option.some.inj read

/-- Members whose texts are keys are inserted under these, a later one over an
earlier one. -/
theorem insertMembers_spec (members : List (String × Account))
    (keys : ∀ member ∈ members, ∃ key, format.pubkeyToString key = member.1)
    (accounts : BankAccounts) :
    ∃ after, format.insertMembers accounts members = .returned after ∧
      ∀ key, after.lookup key =
        ((FiniteMap.insertAll ∅ members).lookup (format.pubkeyToString key)).or
          (accounts.lookup key) := by
  induction members generalizing accounts with
  | nil =>
      refine ⟨accounts, rfl, fun key => ?_⟩
      rw [FiniteMap.insertAll, Finmap.lookup_empty, Option.none_or]
  | cons member rest ih =>
      obtain ⟨text, account⟩ := member
      obtain ⟨first, rfl⟩ := keys _ List.mem_cons_self
      obtain ⟨after, inserted, found⟩ :=
        ih (fun other later => keys other (List.mem_cons_of_mem _ later))
          (accounts.insert first account)
      refine ⟨after, ?_, fun key => ?_⟩
      · rw [insertMembers, format.pubkeyFromStr_toString]
        exact inserted
      · rw [found, FiniteMap.insertAll, FiniteMap.lookup_insertAll (Finmap.insert _ account ∅),
          Option.or_assoc]
        congr 1
        by_cases here : key = first
        · rw [here, Finmap.lookup_insert, Finmap.lookup_insert, Option.some_or]
        · have different : format.pubkeyToString key ≠ format.pubkeyToString first :=
            fun same => here (pubkeyToString_injective same)
          rw [Finmap.lookup_insert_of_ne _ here, Finmap.lookup_insert_of_ne _ different,
            Finmap.lookup_empty, Option.none_or]

/-- Accounts are read back as they were written, in whatever order. -/
theorem deserializeAccounts_serialize (accounts : BankAccounts) :
    format.deserializeAccounts (format.serializeAccounts accounts) = .returned accounts := by
  have keys : ∀ member ∈ format.memberOrder.entries
      (FiniteMap.insertAll ∅ (format.serializeAccounts accounts)),
      ∃ key, format.pubkeyToString key = member.1 := by
    intro member visited
    have written := FiniteMap.mem_of_lookup_insertAll (format.memberOrder.lookup_of_mem visited)
    obtain ⟨entry, -, same⟩ := List.mem_map.mp written
    exact ⟨entry.1, congrArg Prod.fst same⟩
  obtain ⟨after, inserted, found⟩ := insertMembers_spec _ keys ∅
  have same : after = accounts := by
    apply Finmap.ext_lookup
    intro key
    rw [found, format.memberOrder.insertAll_entries, Finmap.lookup_empty, Option.or_none,
      serializeAccounts, FiniteMap.lookup_insertAll_map pubkeyToString_injective,
      format.accountOrder.insertAll_entries]
  rw [deserializeAccounts, inserted, same]

/-- Save data is read back as it was written. -/
theorem deserialize_serialize (bank : PgBank) :
    format.deserialize (format.serialize bank) = .returned bank.getSaveData := by
  simp only [deserialize, serialize, deserializeAccounts_serialize, deserializeKeypair,
    format.keypairFromBytes_toBytes]
  rfl

end SaveFormat

namespace PgBank

/-! ## Creation -/

/-- The account of a native program. -/
def nativeAccount : Account := { Account.new 1 0 nativeLoader with executable := true }

def sysvarAccount (data : List UInt8) : Account := { Account.new 1 0 Sysvar.id with data }

def airdropAccount : Account := Account.new (1000000 * lamportsPerSol) 0 systemProgram

/-- The native programs and the sysvars. -/
def nativeAccounts (sdk : Sdk) : List (Pubkey × Account) :=
  [(bpfLoader, nativeAccount), (bpfLoaderUpgradeable, nativeAccount),
    (systemProgram, nativeAccount), (Sysvar.clock, sysvarAccount sdk.clockData),
    (Sysvar.rent, sysvarAccount sdk.rentData)]

/-- The keys that `PgBank::new` creates besides the airdrop account. -/
def nativeKeys : List Pubkey :=
  [bpfLoader, bpfLoaderUpgradeable, systemProgram, Sysvar.clock, Sysvar.rent]

/-- The bank that `PgBank::new` starts with. -/
def restored (sdk : Sdk) (keypair : Keypair) : Option SaveData → PgBank
  | some data => ofSaveData data
  | none => default sdk keypair

variable {sdk : Sdk} {keypair : Keypair} {saved : Option SaveData} {key : Pubkey}

/-- The native programs, the sysvars and the airdrop account are created over
whatever is restored. -/
theorem new_accounts (sdk : Sdk) (keypair : Keypair) (saved : Option SaveData) :
    (new sdk keypair saved).accounts = FiniteMap.insertAll (restored sdk keypair saved).accounts
      (nativeAccounts sdk ++ [((restored sdk keypair saved).airdropKp.pubkey, airdropAccount)]) := by
  cases saved <;> rfl

/-! ## Reloading -/

/-- A reload keeps the chain, the airdrop keypair and every account but the ones
that are created. The airdrop account is full again, and the total is what it was
with these accounts replaced. -/
structure Reloaded (bank after : PgBank) : Prop where
  slot : after.getSlot = bank.getSlot
  blockHeight : after.getBlockHeight = bank.getBlockHeight
  genesisHash : after.genesisHash = bank.genesisHash
  latestBlockhash : after.getLatestBlockhash = bank.getLatestBlockhash
  airdropKp : after.airdropKp = bank.airdropKp
  accounts : ∀ key, key ∉ nativeKeys → key ≠ bank.airdropKp.pubkey →
    after.getAccount key = bank.getAccount key
  airdropAccount : after.getAccount bank.airdropKp.pubkey = some airdropAccount
  lamports : bank.airdropKp.pubkey ∉ nativeKeys →
    after.lamports + ((nativeKeys ++ [bank.airdropKp.pubkey]).map bank.lamportsAt).sum =
      bank.lamports + (5 + 1000000 * lamportsPerSol)

theorem nativeKeys_nodup : nativeKeys.Nodup := by decide

theorem lookup_new_other (other : key ∉ nativeKeys)
    (notAirdrop : key ≠ (restored sdk keypair saved).airdropKp.pubkey) :
    (new sdk keypair saved).getAccount key = (restored sdk keypair saved).getAccount key := by
  have untouched : (FiniteMap.insertAll ∅ (nativeAccounts sdk ++
      [((restored sdk keypair saved).airdropKp.pubkey, airdropAccount)])).lookup key = none := by
    cases found : (FiniteMap.insertAll ∅ (nativeAccounts sdk ++
      [((restored sdk keypair saved).airdropKp.pubkey, airdropAccount)])).lookup key with
    | none => rfl
    | some account =>
        obtain native | airdrop := List.mem_append.mp (FiniteMap.mem_of_lookup_insertAll found)
        · exact absurd (List.mem_map_of_mem (f := Prod.fst) native) other
        · cases List.mem_singleton.mp airdrop
          exact absurd rfl notAirdrop
  rw [getAccount, new_accounts, FiniteMap.lookup_insertAll, untouched, Option.none_or, getAccount]

/-- The airdrop account is created last. -/
theorem lookup_new_airdrop (sdk : Sdk) (keypair : Keypair) (saved : Option SaveData) :
    (new sdk keypair saved).getAccount (restored sdk keypair saved).airdropKp.pubkey =
      some airdropAccount := by
  rw [getAccount, new_accounts]
  exact Finmap.lookup_insert _

theorem lamports_new (notNative : (restored sdk keypair saved).airdropKp.pubkey ∉ nativeKeys) :
    (new sdk keypair saved).lamports +
        ((nativeKeys ++ [(restored sdk keypair saved).airdropKp.pubkey]).map
          (restored sdk keypair saved).lamportsAt).sum =
      (restored sdk keypair saved).lamports + (5 + 1000000 * lamportsPerSol) := by
  have keys : (nativeAccounts sdk ++
      [((restored sdk keypair saved).airdropKp.pubkey, airdropAccount)]).map Prod.fst =
        nativeKeys ++ [(restored sdk keypair saved).airdropKp.pubkey] := rfl
  have distinct : (nativeKeys ++ [(restored sdk keypair saved).airdropKp.pubkey]).Nodup := by
    rw [← List.concat_eq_append]
    exact nativeKeys_nodup.concat notNative
  have total : FiniteMap.total Account.lamports (FiniteMap.insertAll
        (restored sdk keypair saved).accounts (nativeAccounts sdk ++
          [((restored sdk keypair saved).airdropKp.pubkey, airdropAccount)])) + _ = _ :=
    FiniteMap.total_insertAll (keys ▸ distinct)
  have created : ((nativeAccounts sdk ++
      [((restored sdk keypair saved).airdropKp.pubkey, airdropAccount)]).map
        fun entry => entry.2.lamports).sum = 5 + 1000000 * lamportsPerSol := by
    simp [nativeAccounts, nativeAccount, sysvarAccount, airdropAccount, Account.new]
    omega
  rw [← new_accounts, keys, created] at total
  exact total

/-- What was saved is restored, and then the native programs, the sysvars and the
airdrop account are created anew. -/
theorem load_serialize (format : SaveFormat) (sdk : Sdk) (keypair : Keypair) (bank : PgBank) :
    ∃ after, format.load sdk keypair (format.serialize bank) = .returned after ∧
      Reloaded bank after := by
  refine ⟨new sdk keypair (some bank.getSaveData), ?_, ?_⟩
  · rw [SaveFormat.load, SaveFormat.deserialize_serialize]
  · exact {
      slot := rfl
      blockHeight := rfl
      genesisHash := rfl
      latestBlockhash := rfl
      airdropKp := rfl
      accounts := fun key other notAirdrop => lookup_new_other other notAirdrop
      airdropAccount := lookup_new_airdrop sdk keypair (some bank.getSaveData)
      lamports := fun notNative => lamports_new notNative }

/-- A character for each byte. -/
theorem charOfByte_injective : Function.Injective fun byte : UInt8 => Char.ofNat byte.toNat := by
  have back : ∀ n < 256, (Char.ofNat n).toNat = n := by decide +kernel
  intro first second same
  have codes := congrArg Char.toNat same
  simp only [back _ (UInt8.toNat_lt _)] at codes
  exact UInt8.toNat_inj.mp codes

/-- Public keys and keypairs can be written so that they are read back. -/
theorem exists_saveFormat : Nonempty SaveFormat := by
  have texts : Function.Injective fun key : Pubkey =>
      String.ofList (key.bytes.toList.map fun byte => Char.ofNat byte.toNat) := by
    rintro ⟨first⟩ ⟨second⟩ same
    have lists := charOfByte_injective.list_map (String.ofList_injective same)
    exact congrArg Pubkey.mk (Vector.toList_inj.mp lists)
  have bytes : Function.Injective fun keypair : Keypair =>
      keypair.pubkey.bytes.toList ++ keypair.secret := by
    rintro ⟨⟨first⟩, secret⟩ ⟨⟨second⟩, other⟩ same
    obtain ⟨sameKey, sameSecret⟩ := List.append_inj same (by simp)
    obtain rfl : first = second := Vector.toList_inj.mp sameKey
    obtain rfl : secret = other := sameSecret
    rfl
  obtain ⟨accountOrder⟩ : Nonempty (FiniteMap.Iteration Pubkey Account) := inferInstance
  obtain ⟨memberOrder⟩ : Nonempty (FiniteMap.Iteration String Account) := inferInstance
  exact ⟨⟨_, Function.partialInv _, _, Function.partialInv _, accountOrder, memberOrder,
    Function.partialInv_left texts, Function.partialInv_left bytes⟩⟩

/-- After one lamport was paid, the airdrop account and the total of all accounts
do not survive a reload. -/
theorem not_always_restored :
    (¬ ∀ (format : SaveFormat) (runtime : ProgramRuntime) (keypair other : Keypair)
      (calls : List BankCall) (bank after : PgBank),
      ((machine runtime).restrict keepsRecords).run (new runtime.sdk keypair none) calls =
        some bank →
      format.load runtime.sdk other (format.serialize bank) = .returned after →
        after.getAccount bank.airdropKp.pubkey = bank.getAccount bank.airdropKp.pubkey) ∧
    ¬ ∀ (format : SaveFormat) (runtime : ProgramRuntime) (keypair other : Keypair)
      (calls : List BankCall) (bank after : PgBank),
      ((machine runtime).restrict keepsRecords).run (new runtime.sdk keypair none) calls =
        some bank →
      format.load runtime.sdk other (format.serialize bank) = .returned after →
        after.lamports = bank.lamports := by
  obtain ⟨format⟩ := exists_saveFormat
  have loaded : format.load transferSdk ⟨sampleKey 1, []⟩ (format.serialize paidBank) =
      .returned (new transferSdk ⟨sampleKey 1, []⟩ (some paidBank.getSaveData)) := by
    rw [SaveFormat.load, SaveFormat.deserialize_serialize]
  constructor
  · intro restores
    have same := restores format transferRuntime ⟨sampleKey 1, []⟩ ⟨sampleKey 1, []⟩
      [.processTx oneLamport] paidBank _ rfl loaded
    have before : (paidBank.getAccount (sampleKey 1)).map Account.lamports =
        some 999999999999999 := by decide +kernel
    have full : (paidBank.getAccount (sampleKey 1)).map Account.lamports =
        some 1000000000000000 := by
      rw [show paidBank.getAccount (sampleKey 1) = _ from same.symm]
      decide +kernel
    rw [before] at full
    cases full
  · intro restores
    have same := restores format transferRuntime ⟨sampleKey 1, []⟩ ⟨sampleKey 1, []⟩
      [.processTx oneLamport] paidBank _ rfl loaded
    have more : (new transferSdk ⟨sampleKey 1, []⟩ (some paidBank.getSaveData)).lamports ≠
        paidBank.lamports := by decide +kernel
    exact more same

end PgBank
end Solpg.Playnet.Runtime
