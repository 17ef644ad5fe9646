import Mathlib.Data.List.Perm.Basic
import Mathlib.Data.Option.Basic
import Solpg.Std.OrderedMap
import Solpg.Client.Utils.ProgramInteraction.IdlType

/-!
# The saved instructions

The test panel keeps the values of each instruction in the session storage and compares them with
the IDL by name, argument for argument and account for account.
-/

namespace Solpg.Client.Utils

open Solpg.Std PgCommon

/-- An argument as the IDL declares it. -/
structure IdlField where
  name : Text
  type : IdlType
  deriving DecidableEq

/-- An account of an instruction, or a group of accounts under one name. -/
inductive IdlAccountItem where
  | account (name : Text) (isMut isSigner : Bool)
  | accounts (name : Text) (accounts : List IdlAccountItem)

namespace IdlAccountItem

/-- The name of an account item. -/
def name : IdlAccountItem → Text
  | account name _ _ => name
  | accounts name _ => name

/-- Whether an account item is writable; a group does not say. -/
def isMut : IdlAccountItem → Option Bool
  | account _ isMut _ => some isMut
  | accounts _ _ => none

/-- Whether an account item signs; a group does not say. -/
def isSigner : IdlAccountItem → Option Bool
  | account _ _ isSigner => some isSigner
  | accounts _ _ => none

/-- The item is a group of accounts. -/
def isComposite : IdlAccountItem → Bool
  | account _ _ _ => false
  | accounts _ _ => true

end IdlAccountItem

/-- An instruction as the IDL declares it. -/
structure IdlInstruction where
  name : Text
  accounts : List IdlAccountItem
  args : List IdlField

namespace ProgramInteraction

/-- An account of a saved instruction: what the IDL said of it, and how its value is made. -/
structure GeneratableAccount where
  item : IdlAccountItem
  generator : Json

/-- A stored argument and how its value is generated. -/
structure GeneratableArg where
  field : IdlField
  generator : Json

/-- `GeneratableInstruction["values"]`. -/
structure InstructionValues where
  accounts : List GeneratableAccount
  args : List GeneratableArg

/-- The stored instructions by their names. -/
abbrev SavedInstructions := OrderedMap Text InstructionValues

/-- The names that every plain object answers to. -/
def inherited : List Text :=
  ["constructor", "__defineGetter__", "__defineSetter__", "hasOwnProperty", "__lookupGetter__",
    "__lookupSetter__", "isPrototypeOf", "propertyIsEnumerable", "toString", "valueOf",
    "__proto__", "toLocaleString"].map String.toList

/-- Whether the saved values no longer fit the instruction. -/
def differs (savedIx : InstructionValues) (ix : IdlInstruction) : Bool :=
  if savedIx.args.length ≠ ix.args.length then true
  else if savedIx.accounts.length ≠ ix.accounts.length then true
  else
    let isAllArgsEqual := savedIx.args.all fun savedArg =>
      match ix.args.find? fun arg => arg.name = savedArg.field.name with
      | none => false
      | some arg => isEqual sameLength arg.type.toJson savedArg.field.type.toJson
    if !isAllArgsEqual then true
    else
      let isAllAccsEqual := savedIx.accounts.all fun savedAcc =>
        match ix.accounts.find? fun acc => acc.name = savedAcc.item.name with
        | none => false
        | some acc => savedAcc.item.isMut = acc.isMut && savedAcc.item.isSigner = acc.isSigner
      if !isAllAccsEqual then true else false

/-- Whether the instruction is to be dropped from the storage. A name that is not saved but
inherited gives a value with no `args`, whose length throws. -/
def needsUpdate (savedIxs : SavedInstructions) (ix : IdlInstruction) : Option Bool :=
  match savedIxs.get ix.name with
  | some savedIx => some (differs savedIx ix)
  | none => if ix.name ∈ inherited then none else some true

/-- The names of the instructions that changed. -/
def ixsNamesToUpdate (savedIxs : SavedInstructions) : List IdlInstruction → Option (List Text)
  | [] => some []
  | ix :: rest => do
      let changed ← needsUpdate savedIxs ix
      let names ← ixsNamesToUpdate savedIxs rest
      return if changed then ix.name :: names else names

/-- `syncAllInstructions`, which throws where two names do not match. -/
def syncAllInstructions (idlIxs : List IdlInstruction) (stored : SavedInstructions) :
    Option SavedInstructions := do
  let ixNames := idlIxs.map IdlInstruction.name
  let ixNamesToRemove := stored.keys.filter fun ixName => ixName ∉ ixNames
  let savedIxs := ixNamesToRemove.foldl OrderedMap.erase stored
  let ixsNamesToUpdate ← ixsNamesToUpdate savedIxs idlIxs
  let updated := ixsNamesToUpdate.foldl OrderedMap.erase savedIxs
  return if ixNamesToRemove.length ≠ 0 ∨ ixsNamesToUpdate.length ≠ 0 then updated else stored

/-- The storage after a sync: one that throws has saved nothing. -/
def afterSync (idlIxs : List IdlInstruction) (stored : SavedInstructions) : SavedInstructions :=
  (syncAllInstructions idlIxs stored).getD stored

/-- The arguments that `test` calls the method of the instruction with. -/
def methodArgs {α : Type} (parsed : GeneratableArg → α) (values : InstructionValues) : List α :=
  values.args.map parsed

/-! ## What the comparison sees -/

section Names

variable {α β : Type} {name : α → Text} {key : α → β} {saved idl : List α}

/-- The first entry of each name in the IDL has the key of the given entry. -/
def Found (name : α → Text) (key : α → β) (idl saved : List α) : Prop :=
  ∀ item ∈ saved, (idl.find? fun other => name other = name item).map key = some (key item)

/-- Entries of one name have one key. -/
def NamesDetermine (name : α → Text) (key : α → β) (idl : List α) : Prop :=
  ∀ first ∈ idl, ∀ second ∈ idl, name first = name second → key first = key second

/-- Items that their names determine are found in the list itself. -/
theorem NamesDetermine.found (determine : NamesDetermine name key idl) :
    Found name key idl idl := by
  intro item member
  cases first : idl.find? fun other => name other = name item with
  | none =>
      have nowhere := List.find?_eq_none.mp first item member
      simp at nowhere
  | some other =>
      have named : name other = name item := by simpa using List.find?_some first
      have same := determine other (List.mem_of_find?_eq_some first) item member named
      rw [Option.map_some, same]

/-- What is found by name is read off the names alone. -/
theorem Found.map_eq (found : Found name key idl saved) :
    saved.map (fun item => some (key item)) =
      (saved.map name).map fun wanted => (idl.find? fun other => name other = wanted).map key := by
  rw [List.map_map]
  apply List.map_congr_left
  intro item member
  exact (found item member).symm

/-- What is found for a whole list is determined by the names. -/
theorem Found.determine (found : Found name key idl saved)
    (named : ∀ first second, key first = key second → name first = name second)
    (covers : ∀ item ∈ idl, key item ∈ saved.map key) : NamesDetermine name key idl := by
  have seen : ∀ item ∈ idl,
      (idl.find? fun other => name other = name item).map key = some (key item) := by
    intro item member
    obtain ⟨held, heldIn, same⟩ := List.mem_map.mp (covers item member)
    have first := found held heldIn
    rw [named held item same, same] at first
    exact first
  intro first firstIn second secondIn same
  have left := seen first firstIn
  rw [same, seen second secondIn] at left
  exact (Option.some.inj left).symm

/-- Lists of values are determined by the options. -/
theorem map_some_injective {first second : List β}
    (same : first.map some = second.map some) : first = second :=
  List.map_injective_iff.mpr (Option.some_injective β) same

end Names

/-- What the comparison reads of an account. It never looks inside a group. -/
def signature (item : IdlAccountItem) : Text × Option Bool × Option Bool :=
  (item.name, item.isMut, item.isSigner)

/-- The account of a signature. A group has no flags to restore it from. -/
def restore : Text × Option Bool × Option Bool → Option IdlAccountItem
  | (name, some isMut, some isSigner) => some (.account name isMut isSigner)
  | _ => none

/-- An account item is restored from its signature. -/
theorem restore_signature (item : IdlAccountItem) :
    restore (signature item) = if item.isComposite then none else some item := by
  cases item <;> rfl

/-- Accounts are known up to their order from their signatures and from their groups. -/
theorem perm_iff_signatures {saved idl : List IdlAccountItem} :
    saved.Perm idl ↔ (saved.map signature).Perm (idl.map signature) ∧
      (saved.filter IdlAccountItem.isComposite).Perm (idl.filter IdlAccountItem.isComposite) := by
  have plain : ∀ items : List IdlAccountItem, (items.map signature).filterMap restore =
      items.filter fun item => !item.isComposite := by
    intro items
    rw [List.filterMap_map, ← List.filterMap_eq_filter]
    apply List.filterMap_congr
    intro item _
    rw [Function.comp_apply, restore_signature]
    cases item <;> rfl
  constructor
  · intro same
    exact ⟨same.map signature, same.filter _⟩
  · rintro ⟨signatures, groups⟩
    have accounts := signatures.filterMap restore
    rw [plain, plain] at accounts
    calc saved.Perm (saved.filter IdlAccountItem.isComposite ++
          saved.filter fun item => !item.isComposite) :=
            (List.filter_append_perm IdlAccountItem.isComposite saved).symm
      _ |>.Perm (idl.filter IdlAccountItem.isComposite ++
          idl.filter fun item => !item.isComposite) := groups.append accounts
      _ |>.Perm idl := List.filter_append_perm IdlAccountItem.isComposite idl

variable {savedIx : InstructionValues} {ix : IdlInstruction} {idlIxs : List IdlInstruction}
  {savedIxs stored : SavedInstructions}

/-- Saved values that the comparison passes have, name by name, what the IDL has first. -/
theorem differs_eq_false (unchanged : differs savedIx ix = false) :
    savedIx.args.length = ix.args.length ∧ savedIx.accounts.length = ix.accounts.length ∧
      Found IdlField.name id ix.args (savedIx.args.map GeneratableArg.field) ∧
      Found IdlAccountItem.name signature ix.accounts
        (savedIx.accounts.map GeneratableAccount.item) := by
  simp only [differs, ne_eq, ite_not, Bool.not_eq_true'] at unchanged
  split at unchanged <;> rename_i argsLength
  swap
  · cases unchanged
  split at unchanged <;> rename_i accountsLength
  swap
  · cases unchanged
  split at unchanged <;> rename_i args
  · cases unchanged
  split at unchanged <;> rename_i accounts
  · cases unchanged
  rw [Bool.not_eq_false, List.all_eq_true] at args accounts
  refine ⟨argsLength, accountsLength, ?_, ?_⟩
  · intro field member
    obtain ⟨saved, savedIn, rfl⟩ := List.mem_map.mp member
    have passes := args saved savedIn
    cases found : ix.args.find? fun arg => arg.name = saved.field.name with
    | none => simp [found] at passes
    | some arg =>
        have named : arg.name = saved.field.name := by simpa using List.find?_some found
        have typed : arg.type = saved.field.type := by
          rw [found] at passes
          exact (isEqual_toJson _ _).mp passes
        obtain ⟨name, type⟩ := arg
        simp only [Option.map_some, id, Option.some.injEq]
        cases field : saved.field with
        | mk savedName savedType => simp_all
  · intro item member
    obtain ⟨saved, savedIn, rfl⟩ := List.mem_map.mp member
    have passes := accounts saved savedIn
    cases found : ix.accounts.find? fun acc => acc.name = saved.item.name with
    | none => simp [found] at passes
    | some acc =>
        have named : acc.name = saved.item.name := by simpa using List.find?_some found
        rw [found] at passes
        have flags : saved.item.isMut = acc.isMut ∧ saved.item.isSigner = acc.isSigner := by
          simpa using passes
        rw [Option.map_some, signature, signature, named, flags.1, flags.2]

/-! ## Following the IDL -/

/-- The saved values have the arguments of the instruction in their order, and its accounts. -/
structure Matches (values : InstructionValues) (ix : IdlInstruction) : Prop where
  args : values.args.map GeneratableArg.field = ix.args
  accounts : (values.accounts.map GeneratableAccount.item).Perm ix.accounts

/-- The stored instructions are those of the IDL. -/
def FollowsIdl (idlIxs : List IdlInstruction) (saved : SavedInstructions) : Prop :=
  ∀ name values, saved.get name = some values →
    (∃ ix ∈ idlIxs, ix.name = name) ∧ ∀ ix ∈ idlIxs, ix.name = name → Matches values ix

/-- What the comparison by name leaves out: the order of the arguments, which name is saved how
often, what two entries of one name are, and what a group of accounts has in it. -/
structure Agrees (values : InstructionValues) (ix : IdlInstruction) : Prop where
  argNames : values.args.map (fun arg => arg.field.name) = ix.args.map IdlField.name
  argTypes : NamesDetermine IdlField.name IdlField.type ix.args
  accountNames : (values.accounts.map fun account => account.item.name).Perm
    (ix.accounts.map IdlAccountItem.name)
  accountFlags : NamesDetermine IdlAccountItem.name signature ix.accounts
  composites : ((values.accounts.map GeneratableAccount.item).filter
    IdlAccountItem.isComposite).Perm (ix.accounts.filter IdlAccountItem.isComposite)

/-- The stored arguments are those of the instruction when they agree one by one. -/
theorem args_eq_iff
    (found : Found IdlField.name id ix.args (savedIx.args.map GeneratableArg.field)) :
    savedIx.args.map GeneratableArg.field = ix.args ↔
      savedIx.args.map (fun arg => arg.field.name) = ix.args.map IdlField.name ∧
        NamesDetermine IdlField.name IdlField.type ix.args := by
  constructor
  · intro same
    refine ⟨by rw [← same, List.map_map]; rfl, ?_⟩
    have determine := found.determine (fun _ _ same => congrArg IdlField.name same) (by simp [same])
    intro first firstIn second secondIn named
    exact congrArg IdlField.type (determine first firstIn second secondIn named)
  · rintro ⟨names, types⟩
    have determine : NamesDetermine IdlField.name id ix.args := by
      rintro ⟨_, _⟩ firstIn ⟨_, _⟩ secondIn named
      have typed := types _ firstIn _ secondIn named
      simp_all
    have named : (savedIx.args.map GeneratableArg.field).map IdlField.name =
        ix.args.map IdlField.name := by
      rw [List.map_map]
      exact names
    have left := found.map_eq
    rw [named, ← determine.found.map_eq] at left
    exact map_some_injective left

/-- The stored accounts are those of the instruction up to their order when they agree one by
one. -/
theorem accounts_perm_iff (found : Found IdlAccountItem.name signature ix.accounts
      (savedIx.accounts.map GeneratableAccount.item)) :
    (savedIx.accounts.map GeneratableAccount.item).Perm ix.accounts ↔
      (savedIx.accounts.map fun account => account.item.name).Perm
          (ix.accounts.map IdlAccountItem.name) ∧
        NamesDetermine IdlAccountItem.name signature ix.accounts ∧
        ((savedIx.accounts.map GeneratableAccount.item).filter IdlAccountItem.isComposite).Perm
          (ix.accounts.filter IdlAccountItem.isComposite) := by
  constructor
  · intro same
    refine ⟨by simpa [Function.comp_def] using same.map IdlAccountItem.name, ?_,
      (perm_iff_signatures.mp same).2⟩
    apply found.determine
    · intro first second same
      exact congrArg Prod.fst same
    · intro item member
      exact List.mem_map_of_mem (same.mem_iff.mpr member)
  · rintro ⟨names, flags, composites⟩
    refine perm_iff_signatures.mpr ⟨?_, composites⟩
    have named : ((savedIx.accounts.map GeneratableAccount.item).map IdlAccountItem.name).Perm
        (ix.accounts.map IdlAccountItem.name) := by
      simpa [Function.comp_def] using names
    have keyed := named.map fun wanted =>
      (ix.accounts.find? fun other => other.name = wanted).map signature
    rw [← found.map_eq, ← flags.found.map_eq] at keyed
    simpa [List.filterMap_map, Function.comp_def] using keyed.filterMap id

/-- For instructions that do not differ, matching is agreeing. -/
theorem matches_iff_agrees
    (unchanged : differs savedIx ix = false) : Matches savedIx ix ↔ Agrees savedIx ix := by
  obtain ⟨-, -, args, accounts⟩ := differs_eq_false unchanged
  constructor
  · rintro ⟨sameArgs, sameAccounts⟩
    obtain ⟨argNames, argTypes⟩ := (args_eq_iff args).mp sameArgs
    obtain ⟨accountNames, accountFlags, composites⟩ := (accounts_perm_iff accounts).mp sameAccounts
    exact { argNames, argTypes, accountNames, accountFlags, composites }
  · intro agrees
    exact {
      args := (args_eq_iff args).mpr ⟨agrees.argNames, agrees.argTypes⟩
      accounts := (accounts_perm_iff accounts).mpr
        ⟨agrees.accountNames, agrees.accountFlags, agrees.composites⟩ }

/-! ## The sync -/

/-- A name of the IDL that is not saved but inherited ends the sync. -/
def Throws (idlIxs : List IdlInstruction) (stored : SavedInstructions) : Prop :=
  ∃ ix ∈ idlIxs, stored.get ix.name = none ∧ ix.name ∈ inherited

instance (idlIxs : List IdlInstruction) (stored : SavedInstructions) :
    Decidable (Throws idlIxs stored) := by
  unfold Throws
  infer_instance

/-- The comparison throws exactly where an item has no counterpart. -/
theorem ixsNamesToUpdate_none :
    ixsNamesToUpdate savedIxs idlIxs = none ↔ Throws idlIxs savedIxs := by
  induction idlIxs with
  | nil => simp [ixsNamesToUpdate, Throws]
  | cons ix rest ih =>
      have split : Throws (ix :: rest) savedIxs ↔
          needsUpdate savedIxs ix = none ∨ Throws rest savedIxs := by
        cases saved : savedIxs.get ix.name <;> simp [Throws, needsUpdate, saved]
      rw [split, ← ih, ixsNamesToUpdate]
      cases needsUpdate savedIxs ix <;> cases ixsNamesToUpdate savedIxs rest <;> simp

/-- The instructions to update are those that differ. -/
theorem mem_ixsNamesToUpdate
    {names : List Text} (result : ixsNamesToUpdate savedIxs idlIxs = some names) (name : Text) :
    name ∈ names ↔ ∃ ix ∈ idlIxs, ix.name = name ∧ needsUpdate savedIxs ix = some true := by
  induction idlIxs generalizing names with
  | nil =>
      cases result
      simp
  | cons ix rest ih =>
      rw [ixsNamesToUpdate] at result
      cases changed : needsUpdate savedIxs ix with
      | none => simp [changed] at result
      | some update =>
          cases later : ixsNamesToUpdate savedIxs rest with
          | none => simp [changed, later] at result
          | some more =>
              have step : names = if update then ix.name :: more else more := by
                simpa [changed, later] using result.symm
              cases update <;> simp [step, ih later, changed, eq_comm]

/-- The saved instructions that the IDL still has. -/
def keptInstructions (idlIxs : List IdlInstruction) (stored : SavedInstructions) :
    SavedInstructions :=
  (stored.keys.filter fun ixName => ixName ∉ idlIxs.map IdlInstruction.name).foldl
    OrderedMap.erase stored

/-- An instruction is kept when the IDL still has it. -/
theorem keptInstructions_get (idlIxs : List IdlInstruction) (stored : SavedInstructions)
    (name : Text) :
    (keptInstructions idlIxs stored).get name =
      if ∃ ix ∈ idlIxs, ix.name = name then stored.get name else none := by
  rw [keptInstructions, OrderedMap.get_foldl_erase]
  have named : name ∈ idlIxs.map IdlInstruction.name ↔ ∃ ix ∈ idlIxs, ix.name = name := by
    simp only [List.mem_map]
  by_cases known : ∃ ix ∈ idlIxs, ix.name = name
  · rw [if_pos known, if_neg]
    intro removed
    exact (by simpa using (List.mem_filter.mp removed).2 : name ∉ _) (named.mpr known)
  · rw [if_neg known]
    by_cases saved : name ∈ stored.keys
    · rw [if_pos]
      exact List.mem_filter.mpr ⟨saved, by simpa using fun known' => known (named.mp known')⟩
    · rw [OrderedMap.get_eq_none.mpr saved, ite_self]

/-- An instruction of the IDL keeps what is stored for it. -/
theorem keptInstructions_get_of_mem (known : ix ∈ idlIxs) :
    (keptInstructions idlIxs stored).get ix.name = stored.get ix.name := by
  rw [keptInstructions_get, if_pos ⟨ix, known, rfl⟩]

/-- Storing is only left out where nothing is dropped. -/
theorem syncAllInstructions_eq (idlIxs : List IdlInstruction) (stored : SavedInstructions) :
    syncAllInstructions idlIxs stored =
      (ixsNamesToUpdate (keptInstructions idlIxs stored) idlIxs).map fun names =>
        names.foldl OrderedMap.erase (keptInstructions idlIxs stored) := by
  rw [syncAllInstructions]
  change (ixsNamesToUpdate (keptInstructions idlIxs stored) idlIxs).bind _ = _
  cases ixsNamesToUpdate (keptInstructions idlIxs stored) idlIxs with
  | none => rfl
  | some names =>
      rw [Option.bind_some, Option.map_some]
      by_cases dropped :
          (stored.keys.filter fun ixName => ixName ∉ idlIxs.map IdlInstruction.name).length ≠ 0 ∨
            names.length ≠ 0
      · exact congrArg some (if_pos dropped)
      · have nothing := not_or.mp dropped
        simp only [ne_eq, not_not, List.length_eq_zero_iff] at nothing
        have kept : keptInstructions idlIxs stored = stored := by
          rw [keptInstructions, nothing.1, List.foldl_nil]
        have update : names.foldl OrderedMap.erase (keptInstructions idlIxs stored) = stored := by
          rw [nothing.2, kept, List.foldl_nil]
        exact congrArg some ((if_neg dropped).trans update.symm)

/-- Removing the instructions that are gone changes no comparison. -/
theorem throws_kept :
    Throws idlIxs (keptInstructions idlIxs stored) ↔ Throws idlIxs stored := by
  constructor
  · rintro ⟨ix, known, missing, named⟩
    exact ⟨ix, known, keptInstructions_get_of_mem known ▸ missing, named⟩
  · rintro ⟨ix, known, missing, named⟩
    exact ⟨ix, known, (keptInstructions_get_of_mem known).trans missing, named⟩

/-- Synchronizing throws exactly when the comparison does. -/
theorem syncAllInstructions_none :
    syncAllInstructions idlIxs stored = none ↔ Throws idlIxs stored := by
  rw [syncAllInstructions_eq, Option.map_eq_none_iff, ixsNamesToUpdate_none, throws_kept]

/-- What a sync that ends leaves: the values that no instruction of their name finds changed. -/
theorem syncAllInstructions_get {stored saved : SavedInstructions}
    (result : syncAllInstructions idlIxs stored = some saved) (name : Text)
    (values : InstructionValues) :
    saved.get name = some values ↔ stored.get name = some values ∧
      (∃ ix ∈ idlIxs, ix.name = name) ∧ ∀ ix ∈ idlIxs, ix.name = name → differs values ix = false := by
  rw [syncAllInstructions_eq] at result
  obtain ⟨names, updated, rfl⟩ := Option.map_eq_some_iff.mp result
  have dropped := mem_ixsNamesToUpdate updated name
  rw [OrderedMap.get_foldl_erase, keptInstructions_get]
  by_cases known : ∃ ix ∈ idlIxs, ix.name = name
  · rw [if_pos known]
    -- Every instruction of the name looks at the same saved values.
    have judged : ∀ ix ∈ idlIxs, ix.name = name → stored.get name = some values →
        needsUpdate (keptInstructions idlIxs stored) ix = some (differs values ix) := by
      rintro ix ixIn rfl held
      rw [needsUpdate, keptInstructions_get_of_mem ixIn, held]
    constructor
    · intro held
      split at held
      · cases held
      · rename_i unchanged
        refine ⟨held, known, ?_⟩
        intro ix ixIn named
        by_contra changed
        rw [Bool.not_eq_false] at changed
        exact unchanged (dropped.mpr ⟨ix, ixIn, named, changed ▸ judged ix ixIn named held⟩)
    · rintro ⟨held, -, unchanged⟩
      rw [if_neg, held]
      intro gone
      obtain ⟨ix, ixIn, named, changed⟩ := dropped.mp gone
      rw [judged ix ixIn named held, unchanged ix ixIn named] at changed
      cases changed
  · rw [if_neg known, ite_self]
    simp [known]

/-- The values of the arguments reach the program in the order that the IDL declares. -/
def PassedInOrder (idlIxs : List IdlInstruction) (saved : SavedInstructions) : Prop :=
  ∀ ix ∈ idlIxs, ∀ values, saved.get ix.name = some values →
    ∀ {α : Type} (parsed : GeneratableArg → α) (index : Nat) (within : index < ix.args.length),
      ∃ arg ∈ values.args, arg.field = ix.args[index] ∧
        (methodArgs parsed values)[index]? = some (parsed arg)

/-- What follows the IDL is passed in its order. -/
theorem FollowsIdl.passedInOrder {saved : SavedInstructions}
    (follows : FollowsIdl idlIxs saved) : PassedInOrder idlIxs saved := by
  intro ix ixIn values held α parsed index within
  have args := ((follows ix.name values held).2 ix ixIn rfl).args
  have inside : index < values.args.length := by
    rw [← args, List.length_map] at within
    exact within
  refine ⟨values.args[index], List.getElem_mem inside, ?_, ?_⟩
  · simp [← args]
  · simp [methodArgs, inside]

/-- The comparison of the sync leaves nothing out for the instruction values that it keeps. -/
def KeepsOnlyAgreeing (idlIxs : List IdlInstruction) (stored : SavedInstructions) : Prop :=
  ∀ ix ∈ idlIxs, ∀ values, stored.get ix.name = some values →
    (∀ other ∈ idlIxs, other.name = ix.name → differs values other = false) → Agrees values ix

/-- Without an error the result follows the IDL exactly when only agreeing instructions were
kept. -/
theorem afterSync_follows_of_not_throws (ends : ¬Throws idlIxs stored) :
    FollowsIdl idlIxs (afterSync idlIxs stored) ↔ KeepsOnlyAgreeing idlIxs stored := by
  cases result : syncAllInstructions idlIxs stored with
  | none => exact absurd (syncAllInstructions_none.mp result) ends
  | some saved =>
      rw [afterSync, result, Option.getD_some]
      constructor
      · intro follows ix ixIn values held unchanged
        have kept := (syncAllInstructions_get result ix.name values).mpr
          ⟨held, ⟨ix, ixIn, rfl⟩, unchanged⟩
        exact (matches_iff_agrees (unchanged ix ixIn rfl)).mp
          ((follows ix.name values kept).2 ix ixIn rfl)
      · intro agrees name values kept
        obtain ⟨held, known, unchanged⟩ := (syncAllInstructions_get result name values).mp kept
        refine ⟨known, ?_⟩
        rintro ix ixIn rfl
        exact (matches_iff_agrees (unchanged ix ixIn rfl)).mpr (agrees ix ixIn values held unchanged)

/-- When the saved instructions follow the IDL after a sync, and that the values are then passed
in its order. -/
theorem afterSync_follows_iff (idlIxs : List IdlInstruction) (stored : SavedInstructions) :
    (FollowsIdl idlIxs (afterSync idlIxs stored) ↔
      if Throws idlIxs stored then FollowsIdl idlIxs stored
      else KeepsOnlyAgreeing idlIxs stored) ∧
      (FollowsIdl idlIxs (afterSync idlIxs stored) →
        PassedInOrder idlIxs (afterSync idlIxs stored)) := by
  refine ⟨?_, FollowsIdl.passedInOrder⟩
  by_cases throws : Throws idlIxs stored
  · rw [if_pos throws, afterSync, syncAllInstructions_none.mpr throws, Option.getD_none]
  · rw [if_neg throws]
    exact afterSync_follows_of_not_throws throws

/-- Two arguments of one type that changed places between two versions of the IDL keep the values
of the old order. -/
theorem afterSync_not_always_follows :
    ∃ idlIxs stored, ¬FollowsIdl idlIxs (afterSync idlIxs stored) ∧
      ¬PassedInOrder idlIxs (afterSync idlIxs stored) := by
  let amount : IdlField := ⟨"amount".toList, .primitive "u64".toList⟩
  let price : IdlField := ⟨"price".toList, .primitive "u64".toList⟩
  let buy : IdlInstruction := ⟨"buy".toList, [], [price, amount]⟩
  let values : InstructionValues := ⟨[], [⟨amount, .null⟩, ⟨price, .null⟩]⟩
  let stored : SavedInstructions := OrderedMap.empty.set "buy".toList values
  have unthrown : ¬Throws [buy] stored := by decide
  have kept : (afterSync [buy] stored).get buy.name = some values := by
    rw [afterSync]
    cases result : syncAllInstructions [buy] stored with
    | none => exact absurd (syncAllInstructions_none.mp result) unthrown
    | some saved =>
        rw [Option.getD_some]
        refine (syncAllInstructions_get result buy.name values).mpr ⟨rfl, ⟨buy, by simp, rfl⟩, ?_⟩
        simp [differs, buy, values, amount, price, isEqual_toJson]
  have disorder : ¬PassedInOrder [buy] (afterSync [buy] stored) := by
    intro inOrder
    obtain ⟨arg, -, named, passed⟩ :=
      inOrder buy (by simp) values kept (fun arg => arg.field) 0 (by simp [buy])
    have first : arg.field = amount := by simpa [methodArgs, values] using passed.symm
    rw [first] at named
    exact absurd named (by simp [buy, amount, price])
  exact ⟨[buy], stored, fun follows => disorder follows.passedInOrder, disorder⟩

end ProgramInteraction
end Solpg.Client.Utils
