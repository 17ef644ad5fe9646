import Solpg.Playnet.TransactionContext

/-!
# Effects on the accounts of a transaction

A system instruction gives at most one account other data or another owner, and
then moves lamports at most once. `Guarded` says which accounts may lose by it,
and `total` what the first accounts of the transaction hold together.
-/

namespace Solpg.Playnet

open Solpg.Std
open Outcome

/-- An account of the transaction that the instruction names. -/
def InstructionContext.Uses (instruction : InstructionContext) (index : Nat) : Prop :=
  ∃ account ∈ instruction.instructionAccounts, account.indexInTransaction = index

namespace TransactionContext

/-- One account is replaced. -/
def put (context : TransactionContext) (index : Nat) (account : Account) : TransactionContext where
  accounts := context.accounts.modify index fun entry => (entry.1, account)

/-- The lamports of the first accounts. -/
def total (context : TransactionContext) (count : Nat) : Nat :=
  ((context.accounts.take count).map fun entry => entry.2.lamports).sum

variable {context : TransactionContext} {index count : Nat} {key : Pubkey}
  {before account : Account}

/-- An account that is given back replaces the one at its index. -/
theorem drop_withAccount {borrowed : BorrowedAccount} (of : borrowed.Of context) :
    context.drop (borrowed.withAccount account) =
      context.put borrowed.indexInTransaction account := by
  ext position entry
  simp only [of.drop_getElem?, put, List.getElem?_modify]
  by_cases same : position = borrowed.indexInTransaction
  · subst same
    have here : context.accounts[borrowed.indexInTransaction]? = _ := of
    simp [here]
  · simp [same, Ne.symm same]

/-- What is at a position after an account is replaced. -/
theorem put_getElem? (found : context.accounts[index]? = some (key, before)) (position : Nat) :
    (context.put index account).accounts[position]? =
      if position = index then some (key, account) else context.accounts[position]? := by
  simp only [put, List.getElem?_modify]
  by_cases same : position = index
  · subst same
    simp [found]
  · simp [same, Ne.symm same]

/-- The later account stays. -/
theorem put_put (later : Account) :
    (context.put index account).put index later = context.put index later := by
  ext position entry
  simp only [put, List.getElem?_modify]
  by_cases same : index = position
  · simp [same]
  · simp [same]

/-- An account replaced by itself changes nothing. -/
theorem put_self (found : context.accounts[index]? = some (key, before)) :
    context.put index before = context := by
  ext position entry
  rw [put_getElem? found]
  by_cases same : position = index
  · simp [same, found]
  · simp [same]

/-- The keys stay. -/
theorem put_keys : (context.put index account).accounts.map Prod.fst =
    context.accounts.map Prod.fst := by
  apply List.ext_getElem?
  intro position
  simp only [put, List.getElem?_map, List.getElem?_modify]
  by_cases same : index = position <;> cases context.accounts[position]? <;> simp [same]

/-- Replacing one of the first accounts changes the total by what it held. -/
theorem total_put (account : Account) (found : context.accounts[index]? = some (key, before))
    (inside : index < count) : (context.put index account).total count + before.lamports =
      context.total count + account.lamports := by
  have front : (context.accounts.take count)[index]? = some (key, before) := by
    rw [List.getElem?_take_of_lt inside, found]
  have replaced : ((context.put index account).accounts.take count) =
      (context.accounts.take count).set index (key, account) := by
    apply List.ext_getElem?
    intro position
    by_cases before_ : position < count
    · rw [List.getElem?_take_of_lt before_, put_getElem? found, List.getElem?_set]
      have bound := Table.lt_length_of_getElem? found
      by_cases same : position = index
      · simp [same, inside, bound]
      · simp [same, Ne.symm same, List.getElem?_take_of_lt before_]
    · have beyond : count ≤ position := by omega
      simp [List.length_take, beyond]
  rw [total, replaced]
  exact Table.sum_map_set_add (fun entry => entry.2.lamports) (key, account) front

/-- An account that is put back with its lamports changes no total. -/
theorem total_put_eq (found : context.accounts[index]? = some (key, before))
    (same : account.lamports = before.lamports) :
    (context.put index account).total count = context.total count := by
  by_cases inside : index < count
  · have changed := total_put account found inside
    omega
  · have unchanged : (context.put index account).accounts.take count =
        context.accounts.take count := by
      apply List.ext_getElem?
      intro position
      by_cases early : position < count
      · have other : position ≠ index := by omega
        rw [List.getElem?_take_of_lt early, List.getElem?_take_of_lt early, put_getElem? found,
          if_neg other]
      · rw [List.getElem?_take_eq_none (by omega), List.getElem?_take_eq_none (by omega)]
    rw [total, unchanged, total]

/-- An account has no more lamports than all together. -/
theorem le_total (found : context.accounts[index]? = some (key, account)) (inside : index < count) :
    account.lamports ≤ context.total count := by
  have front : (context.accounts.take count)[index]? = some (key, account) := by
    rw [List.getElem?_take_of_lt inside, found]
  exact Table.le_sum_map (fun entry : Pubkey × Account => entry.2.lamports) front

end TransactionContext

/-! ## Lamports that move -/

/-- Lamports move from one account that may spend them to another, or back to
the same one. -/
structure Moved (instruction : InstructionContext) (mayLose : Nat → Prop)
    (context after : TransactionContext) : Prop where
  moved : ∃ source target payerKey payer receiverKey receiver lamports,
    instruction.Uses source ∧ instruction.Uses target ∧ mayLose source ∧
    context.accounts[source]? = some (payerKey, payer) ∧ lamports ≤ payer.lamports ∧
    (context.put source { payer with lamports := payer.lamports - lamports }).accounts[target]? =
      some (receiverKey, receiver) ∧
    after = (context.put source { payer with lamports := payer.lamports - lamports }).put target
      { receiver with lamports := receiver.lamports + lamports }

/-- One account gets other data or another owner. -/
structure Rewritten (mayLose mayChange : Nat → Prop) (context after : TransactionContext) :
    Prop where
  rewritten : ∃ index key account data owner, context.accounts[index]? = some (key, account) ∧
    (owner ≠ account.owner → mayLose index) ∧ (data ≠ account.data → mayChange index) ∧
    after = context.put index { account with data, owner }

/-- At most one account is rewritten, and then lamports move at most once. -/
def Effect (instruction : InstructionContext) (mayLose mayChange : Nat → Prop)
    (context after : TransactionContext) : Prop :=
  ∃ middle, (middle = context ∨ Rewritten mayLose mayChange context middle) ∧
    (after = middle ∨ Moved instruction mayLose middle after)

/-- Every account stays, and only those that may lose anything do. -/
def Guarded (mayLose mayChange : Nat → Prop) (context after : TransactionContext) : Prop :=
  ∀ (index : Nat) (key : Pubkey) (before : Account),
    context.accounts[index]? = some (key, before) →
      ∃ account, after.accounts[index]? = some (key, account) ∧
        (account.lamports < before.lamports → mayLose index) ∧
        (account.owner ≠ before.owner → mayLose index) ∧
        (account.data ≠ before.data → mayChange index)

section Guard

variable {instruction : InstructionContext} {mayLose mayChange : Nat → Prop}
  {context middle after : TransactionContext}

/-- No change is guarded. -/
theorem Guarded.refl (context : TransactionContext) : Guarded mayLose mayChange context context :=
  fun _ _ before found => ⟨before, found, by simp, by simp, by simp⟩

/-- Two guarded changes are guarded. -/
theorem Guarded.trans (first : Guarded mayLose mayChange context middle)
    (second : Guarded mayLose mayChange middle after) :
    Guarded mayLose mayChange context after := by
  intro index key before found
  obtain ⟨between, foundBetween, lamports, owner, data⟩ := first index key before found
  obtain ⟨account, foundAfter, lamports', owner', data'⟩ := second index key between foundBetween
  refine ⟨account, foundAfter, fun less => ?_, fun changed => ?_, fun changed => ?_⟩
  · by_cases early : between.lamports < before.lamports
    · exact lamports early
    · exact lamports' (by omega)
  · by_cases early : between.owner = before.owner
    · exact owner' (early ▸ changed)
    · exact owner early
  · by_cases early : between.data = before.data
    · exact data' (early ▸ changed)
    · exact data early

/-- A replaced account decides whether the replacement is guarded. -/
theorem Guarded.put {index : Nat} {key : Pubkey} {before account : Account}
    (found : context.accounts[index]? = some (key, before))
    (lamports : account.lamports < before.lamports → mayLose index)
    (owner : account.owner ≠ before.owner → mayLose index)
    (data : account.data ≠ before.data → mayChange index) :
    Guarded mayLose mayChange context (context.put index account) := by
  intro position otherKey other foundOther
  rw [TransactionContext.put_getElem? found]
  by_cases same : position = index
  · subst same
    obtain ⟨rfl, rfl⟩ : otherKey = key ∧ other = before := by simpa [found] using foundOther.symm
    exact ⟨account, by simp, lamports, owner, data⟩
  · exact ⟨other, by simp [same, foundOther], by simp, by simp, by simp⟩

/-- Only the source of a movement loses lamports. -/
theorem Moved.guarded (moved : Moved instruction mayLose context after) :
    Guarded mayLose mayChange context after := by
  obtain ⟨source, target, payerKey, payer, receiverKey, receiver, lamports, -, -, may, atSource, -,
    atTarget, rfl⟩ := moved.moved
  have taken : Guarded mayLose mayChange context
      (context.put source { payer with lamports := payer.lamports - lamports }) :=
    .put atSource (fun _ => may) (by simp) (by simp)
  exact taken.trans (.put atTarget (by simp) (by simp) (by simp))

/-- A rewrite is guarded. -/
theorem Rewritten.guarded (rewritten : Rewritten mayLose mayChange context after) :
    Guarded mayLose mayChange context after := by
  obtain ⟨index, key, account, data, owner, found, mayOwner, mayData, rfl⟩ := rewritten.rewritten
  exact .put found (by simp) mayOwner mayData

/-- An effect is guarded. -/
theorem Effect.guarded (effect : Effect instruction mayLose mayChange context after) :
    Guarded mayLose mayChange context after := by
  obtain ⟨middle, first, second⟩ := effect
  have toMiddle : Guarded mayLose mayChange context middle := by
    obtain rfl | rewritten := first
    · exact .refl middle
    · exact rewritten.guarded
  obtain rfl | moved := second
  · exact toMiddle
  · exact toMiddle.trans moved.guarded

/-- A transfer keeps the keys. -/
theorem Moved.keys_eq (moved : Moved instruction mayLose context after) :
    after.accounts.map Prod.fst = context.accounts.map Prod.fst := by
  obtain ⟨source, target, _, _, _, _, lamports, _, _, _, _, _, _, rfl⟩ := moved.moved
  rw [TransactionContext.put_keys, TransactionContext.put_keys]

/-- A rewrite keeps the keys. -/
theorem Rewritten.keys_eq (rewritten : Rewritten mayLose mayChange context after) :
    after.accounts.map Prod.fst = context.accounts.map Prod.fst := by
  obtain ⟨index, key, account, data, owner, _, _, _, rfl⟩ := rewritten.rewritten
  exact TransactionContext.put_keys

/-- No instruction changes the keys of the accounts. -/
theorem Effect.keys_eq (effect : Effect instruction mayLose mayChange context after) :
    after.accounts.map Prod.fst = context.accounts.map Prod.fst := by
  obtain ⟨middle, first, second⟩ := effect
  have toMiddle : middle.accounts.map Prod.fst = context.accounts.map Prod.fst := by
    obtain rfl | rewritten := first
    · rfl
    · exact rewritten.keys_eq
  obtain rfl | moved := second
  · exact toMiddle
  · exact moved.keys_eq.trans toMiddle

end Guard

/-! ## Totals -/

section Total

variable {instruction : InstructionContext} {mayLose mayChange : Nat → Prop}
  {context after : TransactionContext} {count : Nat}

/-- A movement between the first accounts changes neither their total nor, on
the way, exceeds it. -/
theorem Moved.total_eq (within : ∀ index, instruction.Uses index → index < count)
    (moved : Moved instruction mayLose context after) :
    after.total count = context.total count := by
  obtain ⟨source, target, payerKey, payer, receiverKey, receiver, lamports, usesSource, usesTarget,
    -, atSource, enough, atTarget, rfl⟩ := moved.moved
  have taken := TransactionContext.total_put
    { payer with lamports := payer.lamports - lamports } atSource
    (within source usesSource)
  have given := TransactionContext.total_put
    { receiver with lamports := receiver.lamports + lamports } atTarget
    (within target usesTarget)
  simp only at taken given
  omega

/-- A rewrite keeps the sum of the lamports. -/
theorem Rewritten.total_eq (rewritten : Rewritten mayLose mayChange context after) :
    after.total count = context.total count := by
  obtain ⟨index, key, account, data, owner, found, -, -, rfl⟩ := rewritten.rewritten
  exact TransactionContext.total_put_eq found rfl

/-- An effect on the counted accounts keeps the sum of the lamports. -/
theorem Effect.total_eq (within : ∀ index, instruction.Uses index → index < count)
    (effect : Effect instruction mayLose mayChange context after) :
    after.total count = context.total count := by
  obtain ⟨middle, first, second⟩ := effect
  have toMiddle : middle.total count = context.total count := by
    obtain rfl | rewritten := first
    · rfl
    · exact rewritten.total_eq
  obtain rfl | moved := second
  · exact toMiddle
  · exact (moved.total_eq within).trans toMiddle

end Total
end Solpg.Playnet
