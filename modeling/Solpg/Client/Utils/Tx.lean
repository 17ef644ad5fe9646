import Solpg.Std.Interleaving
import Solpg.Std.Text

/-!
# PgTx

Programs that send transactions: what they await and throw, `PgTx.confirm`, and
`PgTx.send` with its cached blockhash and its second signature for a transaction that the
node does not take.
-/

namespace Solpg.Client.Utils

open Solpg.Std

/-- What is thrown: an error, or `undefined` or `null`, which have no properties. -/
inductive Thrown where
  | nullish
  | error (message : Text)
  /-- An error of the engine. -/
  | typeError (message : Text)
  deriving DecidableEq, Repr

/-- `err.message`, where it can be read. -/
def Thrown.message : Thrown → Option Text
  | .nullish => none
  | .error message => some message
  | .typeError message => some message

/-- The reason for which a transaction failed on chain. -/
abbrev TransactionError := Text

/-- What is awaited: the requests of the callbacks, `Connection.confirmTransaction` and
time. -/
inductive TxCall (Request : Type) where
  | callback (request : Request)
  | confirmTransaction (txHash : Text)
  | sleep (milliseconds : Rat)

variable {State Request : Type} {Reply : Request → Type}

/-- What a call is answered with. -/
abbrev TxCall.Answer (Reply : Request → Type) : TxCall Request → Type
  | .callback request => Except Thrown (Reply request)
  | .confirmTransaction _ => Except Thrown (Option TransactionError)
  | .sleep _ => Unit

/-- Programs that send transactions and wait. -/
abbrev TxM (State : Type) (Reply : Request → Type) :=
  Async State (TxCall Request) (TxCall.Answer Reply) Thrown

/-- A call, answered without an error of its own. -/
def ask (call : TxCall Request) : TxM State Reply (call.Answer Reply) := Async.perform call

/-- What a request of a callback is answered with, or a throw. -/
def request (request : Request) : TxM State Reply (Reply request) := do
  let answer ← ask (.callback request)
  MonadExcept.ofExcept answer

/-- `PgTx.confirm`. -/
def confirm (txHash : Text) : TxM State Reply (Option TransactionError) := do
  let answer ← ask (.confirmTransaction txHash)
  MonadExcept.ofExcept answer

/-! ## Send -/

/-- The instructions that matter to sending. -/
inductive Instruction where
  /-- To the first playground wallet. -/
  | transfer (lamports : Nat)
  | setComputeUnitPrice (microLamports : Nat)
  | setComputeUnitLimit (units : Nat)
  deriving DecidableEq, Repr

/-- Whether an instruction sets the price. -/
def Instruction.isSetComputeUnitPrice : Instruction → Bool
  | .setComputeUnitPrice _ => true
  | _ => false

/-- Whether an instruction sets the limit. -/
def Instruction.isSetComputeUnitLimit : Instruction → Bool
  | .setComputeUnitLimit _ => true
  | _ => false

/-- What is signed. -/
structure Message where
  instructions : List Instruction
  recentBlockhash : Nat
  deriving DecidableEq, Repr

/-- What a message pays. -/
def Message.transferred (message : Message) : Nat :=
  (message.instructions.map fun
    | .transfer lamports => lamports
    | _ => 0).sum

/-- What `PgTx.send` awaits. `priorityFee` is the fee of the settings, fetched where these
name a statistic. -/
inductive SendRequest where
  | priorityFee
  | latestBlockhash
  | signTransaction (message : Message)
  | sendRawTransaction (message : Message)
  deriving DecidableEq, Repr

/-- What a request of sending is answered with. -/
abbrev SendRequest.Answer : SendRequest → Type
  | .priorityFee => Nat
  | .latestBlockhash => Nat
  | .signTransaction _ => Unit
  | .sendRawTransaction _ => Text

/-- A blockhash with the time it was fetched at. -/
structure CachedBlockhash where
  data : Nat
  timestamp : Nat
  deriving DecidableEq, Repr

/-- What the page knows: whether a wallet is connected, `PgWallet.balance` in SOL, the
cached blockhash and the unix time. -/
structure Page where
  connected : Bool
  balance : Option Rat
  blockhash : Option CachedBlockhash
  now : Nat
  deriving DecidableEq, Repr

/-- Programs that send, on a page that keeps a blockhash. -/
abbrev SendM := TxM Page SendRequest.Answer

/-- The options of `send`. -/
structure SendOptions where
  computeUnitLimit : Option Nat
  forceFetchLatestBlockhash : Bool

/-- The latest blockhash is fetched and kept. -/
def fetchBlockhash (timestamp : Nat) : SendM Nat := do
  let data ← request SendRequest.latestBlockhash
  modify fun page => { page with blockhash := some ⟨data, timestamp⟩ }
  pure data

/-- `_getLatestBlockhash`: a blockhash is cached for 45 seconds. -/
def getLatestBlockhash (force : Bool) : SendM Nat := do
  let page ← get
  match page.blockhash with
  | none => fetchBlockhash page.now
  | some cached =>
      if force || page.now > cached.timestamp + 45 then fetchBlockhash page.now
      else pure cached.data

/-- The instructions with the priority fee, unless they have one. -/
def withPrice (instructions : List Instruction) : SendM (List Instruction) :=
  if instructions.any (·.isSetComputeUnitPrice) then pure instructions
  else do
    let priorityFee ← request SendRequest.priorityFee
    pure (if priorityFee = 0 then instructions else .setComputeUnitPrice priorityFee :: instructions)

/-- The instructions with the compute unit limit of the options, unless they have one. -/
def withLimit (opts : SendOptions) (instructions : List Instruction) : List Instruction :=
  match opts.computeUnitLimit with
  | none => instructions
  | some units =>
      if units = 0 || instructions.any (·.isSetComputeUnitLimit) then instructions
      else .setComputeUnitLimit units :: instructions

/-- `_prepareTx`, for a transaction that the connected wallet alone signs. -/
def prepareTx (instructions : List Instruction) (opts : SendOptions) : SendM Message := do
  let page ← get
  if !page.connected then throw (.error "Wallet not connected".toList)
  let instructions ← withPrice instructions
  let recentBlockhash ← getLatestBlockhash opts.forceFetchLatestBlockhash
  let message : Message := ⟨withLimit opts instructions, recentBlockhash⟩
  request (SendRequest.signTransaction message)
  pure message

/-- The message of a transaction that is sent twice. -/
def alreadyProcessed : Text := "This transaction has already been processed".toList

/-- The message of an expired blockhash. -/
def blockhashNotFound : Text := "Blockhash not found".toList

/-- `PgTx.send`, with a bound on how often it calls itself. -/
def send : Nat → List Instruction → SendOptions → SendM Text
  | 0, _, _ => Async.endless
  | fuel + 1, instructions, opts => do
      let tx ← prepareTx instructions opts
      match ← Async.attempt (request (.sendRawTransaction tx)) with
      | .ok txHash => pure txHash
      | .error e =>
          match e.message with
          | none =>
              throw (.typeError "Cannot read properties of undefined (reading \x27message\x27)".toList)
          | some message =>
              if message.includes alreadyProcessed || message.includes blockhashNotFound then
                send fuel tx.instructions { opts with forceFetchLatestBlockhash := true }
              else throw e

/-! ## Runs -/

section Requests

variable {World : Type} {serve : (call : TxCall Request) → World → call.Answer Reply × World}
  {state : State} {world : World}

@[simp] theorem ask_run (call : TxCall Request) :
    (ask call : TxM State Reply _).run serve state world =
      some (.ok (serve call world).1, state, (serve call world).2) := rfl

/-- A request comes to what it is answered with. -/
theorem request_run (made : Request) :
    (request made : TxM State Reply _).run serve state world =
      some ((serve (.callback made) world).1, state, (serve (.callback made) world).2) := by
  refine (Async.run_bind_ok (ask_run _)).trans ?_
  cases (serve (.callback made) world).1 <;> rfl

/-- A confirmation asks for the status of its transaction. -/
theorem confirm_run (txHash : Text) :
    (confirm txHash : TxM State Reply _).run serve state world =
      some ((serve (.confirmTransaction txHash) world).1, state,
        (serve (.confirmTransaction txHash) world).2) := by
  refine (Async.run_bind_ok (ask_run _)).trans ?_
  cases (serve (.confirmTransaction txHash) world).1 <;> rfl

end Requests

/-! ## Paths -/

section Paths

variable {made : TxCall Request → Prop}
  {allowed : (call : TxCall Request) → call.Answer Reply → State → Prop} {state : State}

@[simp] theorem ask_always (call : TxCall Request) {post : Except Thrown (call.Answer Reply) → State → Prop} :
    (ask call : TxM State Reply _).Always made allowed state post ↔
      made call ∧ ∀ answer state, allowed call answer state → post (.ok answer) state := Iff.rfl

/-- The rule for a request. -/
@[simp] theorem request_always (asked : Request) {post : Except Thrown (Reply asked) → State → Prop} :
    (request asked : TxM State Reply _).Always made allowed state post ↔
      made (.callback asked) ∧ ∀ answer state, allowed (.callback asked) answer state →
        post answer state := by
  refine (Async.always_bind.trans (ask_always _)).trans (and_congr_right fun _ => ?_)
  refine forall_congr' fun answer => forall_congr' fun state => imp_congr_right fun _ => ?_
  cases answer <;> rfl

/-- The rule for a confirmation. -/
@[simp] theorem confirm_always (txHash : Text)
    {post : Except Thrown (Option TransactionError) → State → Prop} :
    (confirm txHash : TxM State Reply _).Always made allowed state post ↔
      made (.confirmTransaction txHash) ∧ ∀ answer state,
        allowed (.confirmTransaction txHash) answer state → post answer state := by
  refine (Async.always_bind.trans (ask_always _)).trans (and_congr_right fun _ => ?_)
  refine forall_congr' fun answer => forall_congr' fun state => imp_congr_right fun _ => ?_
  cases answer <;> rfl

end Paths

/-- The calls of a program that sends nothing without the instruction. -/
def Carries (instruction : Instruction) : TxCall SendRequest → Prop
  | .callback (.sendRawTransaction message) => instruction ∈ message.instructions
  | _ => True

section Sent

variable {instruction : Instruction} {instructions : List Instruction}
  {allowed : (call : TxCall SendRequest) → call.Answer SendRequest.Answer → Page → Prop} {page : Page}

/-- The unit limit is added to the instructions. -/
theorem mem_withLimit {opts : SendOptions}
    (member : instruction ∈ instructions) : instruction ∈ withLimit opts instructions := by
  unfold withLimit
  split
  · exact member
  · split
    · exact member
    · exact List.mem_cons_of_mem _ member

/-- The price is added to the instructions. -/
theorem withPrice_always (member : instruction ∈ instructions) :
    (withPrice instructions).Always (Carries instruction) allowed page
      (Async.split (fun result _ => instruction ∈ result) fun _ _ => True) := by
  unfold withPrice
  split
  · exact member
  · simp only [Async.always_bind, request_always, Carries, true_and]
    rintro (error | priorityFee) state permitted
    · trivial
    · by_cases free : priorityFee = 0
      · simpa [free] using member
      · simpa [free] using List.mem_cons_of_mem _ member

/-- Fetching a blockhash carries no instruction. -/
theorem fetchBlockhash_always (timestamp : Nat) :
    (fetchBlockhash timestamp).Always (Carries instruction) allowed page fun _ _ => True := by
  simp only [fetchBlockhash, Async.always_bind, request_always, Carries, true_and]
  rintro (error | data) state permitted <;> trivial

/-- Asking for a blockhash carries no instruction. -/
theorem getLatestBlockhash_always (force : Bool) :
    (getLatestBlockhash force).Always (Carries instruction) allowed page fun _ _ => True := by
  simp only [getLatestBlockhash, Async.always_bind, Async.always_get, Async.split_ok]
  split
  · exact fetchBlockhash_always _
  · split
    · exact fetchBlockhash_always _
    · trivial

/-- What is prepared carries the instruction it is prepared for. -/
theorem prepareTx_always {opts : SendOptions}
    (member : instruction ∈ instructions) :
    (prepareTx instructions opts).Always (Carries instruction) allowed page
      (Async.split (fun message _ => instruction ∈ message.instructions) fun _ _ => True) := by
  simp only [prepareTx, Async.always_bind, Async.always_get, Async.split_ok]
  by_cases connected : page.connected
  · simp only [connected, Bool.not_true, Bool.false_eq_true, if_false, Async.always_bind]
    refine (withPrice_always member).mono ?_
    rintro (error | priced) _ carried
    · trivial
    · refine (getLatestBlockhash_always opts.forceFetchLatestBlockhash).mono ?_
      rintro (error | recentBlockhash) _ -
      · trivial
      · refine (request_always _).mpr ⟨trivial, ?_⟩
        rintro (error | signed) _ -
        · trivial
        · exact mem_withLimit carried
  · simp only [connected]
    trivial

/-- Whatever it meets, `PgTx.send` sends nothing without the instruction, and returns the
hash that the node answers with. -/
theorem send_always (fuel : Nat) {opts : SendOptions}
    (member : instruction ∈ instructions)
    (named : ∀ message txHash page,
      allowed (.callback (.sendRawTransaction message)) (.ok txHash) page → txHash ≠ []) :
    (send fuel instructions opts).Always (Carries instruction) allowed page
      (Async.split (fun txHash _ => txHash ≠ []) fun _ _ => True) := by
  induction fuel generalizing instructions opts page with
  | zero => trivial
  | succ fuel ih =>
      simp only [send, Async.always_bind]
      refine (prepareTx_always member).mono ?_
      rintro (error | tx) _ carried
      · trivial
      · simp only [Async.split_ok, Async.always_attempt, request_always]
        refine ⟨carried, ?_⟩
        rintro (error | txHash) _ permitted
        · cases said : error.message with
          | none => simp [said]
          | some message =>
              simp only [said]
              split
              · exact ih carried
              · trivial
        · exact named _ _ _ permitted

end Sent

end Solpg.Client.Utils
