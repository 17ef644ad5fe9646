import Solpg.Client.Commands.Deploy.Retries

/-!
# Funding from a standard wallet

The transfer step of `processDeploy`, beside a chain on which what was sent may land at
any time or not at all.
-/

namespace Solpg.Client.Commands.Deploy

open Solpg.Std Solpg.Client.Utils

/-- `PgWeb3.lamportsToSol`. -/
def lamportsToSol (lamports : Nat) : Rat := lamports / 1000000000

/-- What `processDeploy` has computed before the transfer. `userBalance` is the number of
lamports that the connection answered with. -/
structure Funding where
  userBalance : Nat
  requiredBalanceWithoutFees : Nat

namespace Funding

variable (funding : Funding)

/-- 0.1 SOL more for fees. -/
def requiredBalance : Nat := funding.requiredBalanceWithoutFees + 100000000

/-- The instruction that transfers the balance. -/
def transferIx : Instruction := .transfer funding.requiredBalance

/-- Whether the balance has changed. -/
def checkConfirmation : SendM Bool := do
  let page ← get
  match page.balance with
  | none => throw (.error "Could not get wallet balance".toList)
  | some currentBalance =>
      pure (decide (currentBalance < (funding.userBalance : Rat) - funding.requiredBalance))

/-- The deploy goes on when this returns. -/
def transfer (fuel : Nat) : SendM (Option Text) :=
  sendAndConfirmTxWithRetries (send fuel [funding.transferIx] ⟨none, false⟩)
    funding.checkConfirmation

end Funding

/-! ## The chain -/

/-- What a node says of messages: each has a signature. -/
structure Node where
  signature : Message → Text
  named : ∀ message, signature message ≠ []

/-- The lamports of the standard wallet, and the messages that can still land, that have
landed and that failed on chain. -/
structure Chain where
  lamports : Nat
  pending : List Message
  landed : List Message
  failed : List Message
  deriving DecidableEq

namespace Chain

variable (chain : Chain)

/-- A transaction has landed or failed. -/
def Processed (message : Message) : Prop := message ∈ chain.landed ∨ message ∈ chain.failed

/-- The message can land, or has landed. -/
def Live (message : Message) : Prop := message ∈ chain.pending ∨ message ∈ chain.landed

instance (message : Message) : Decidable (chain.Processed message) :=
  inferInstanceAs (Decidable (_ ∨ _))

/-- A message of which the chain knows already is not taken again. -/
def submit (message : Message) : Chain :=
  if message ∈ chain.pending ∨ chain.Processed message then chain
  else { chain with pending := message :: chain.pending }

/-- A transaction is no longer pending. -/
def withdraw (message : Message) : List Message := chain.pending.filter (· ≠ message)

end Chain

/-- How a call is answered. -/
inductive Reply where
  | priorityFee (microLamports : Nat)
  | blockhash (blockhash : Nat)
  | signed
  | accepted
  /-- The node answers with an error, though it may have passed the message on. -/
  | refused (error : Thrown) (submitted : Bool)
  | confirmed
  | failure (err : TransactionError)
  | thrown (error : Thrown)
  | slept

/-- The chain answers a confirmation by what it has processed. A node says that it has
already processed a transaction only when that is so. -/
def Node.serve (node : Node) : (call : TxCall SendRequest) → Reply → Chain →
    Option (call.Answer SendRequest.Answer × Chain)
  | .callback .priorityFee, .priorityFee microLamports, chain => some (.ok microLamports, chain)
  | .callback .priorityFee, .thrown error, chain => some (.error error, chain)
  | .callback .latestBlockhash, .blockhash blockhash, chain => some (.ok blockhash, chain)
  | .callback .latestBlockhash, .thrown error, chain => some (.error error, chain)
  | .callback (.signTransaction _), .signed, chain => some (.ok (), chain)
  | .callback (.signTransaction _), .thrown error, chain => some (.error error, chain)
  | .callback (.sendRawTransaction message), .accepted, chain =>
      some (.ok (node.signature message), chain.submit message)
  | .callback (.sendRawTransaction message), .refused error submitted, chain =>
      if (error.message.any fun text => text.includes alreadyProcessed) ∧
          ¬ chain.Processed message then none
      else some (.error error, if submitted then chain.submit message else chain)
  | .confirmTransaction txHash, .confirmed, chain =>
      if chain.landed.any fun message => node.signature message = txHash then
        some (.ok none, chain)
      else none
  | .confirmTransaction txHash, .failure err, chain =>
      if chain.failed.any fun message => node.signature message = txHash then
        some (.ok (some err), chain)
      else none
  | .confirmTransaction _, .thrown error, chain => some (.error error, chain)
  | .sleep _, .slept, chain => some ((), chain)
  | _, _, _ => none

/-- What happens beside the deploy. -/
inductive Event where
  | land (message : Message) (fee : Nat)
  | fail (message : Message) (fee : Nat)
  /-- The blockhash of the message is too old. -/
  | expire (message : Message)
  /-- Another transaction changes the lamports of the wallet. -/
  | lamports (lamports : Nat)
  /-- A derivation of `PgWallet.balance` ends, with what it read at some time. -/
  | balance (lamports : Option Nat)
  | connected (connected : Bool)
  | tick (seconds : Nat)

/-- A message that pays lands when the wallet has the lamports. -/
def happen : Event → Page → Chain → Option (Page × Chain)
  | .land message fee, page, chain =>
      if message ∈ chain.pending ∧ message.transferred + fee ≤ chain.lamports then
        some (page, { chain with
          lamports := chain.lamports - (message.transferred + fee)
          pending := chain.withdraw message
          landed := message :: chain.landed })
      else none
  | .fail message fee, page, chain =>
      if message ∈ chain.pending ∧ fee ≤ chain.lamports then
        some (page, { chain with
          lamports := chain.lamports - fee
          pending := chain.withdraw message
          failed := message :: chain.failed })
      else none
  | .expire message, page, chain => some (page, { chain with pending := chain.withdraw message })
  | .lamports lamports, page, chain => some (page, { chain with lamports })
  | .balance lamports, page, chain => some ({ page with balance := lamports.map lamportsToSol }, chain)
  | .connected connected, page, chain => some ({ page with connected }, chain)
  | .tick seconds, page, chain => some ({ page with now := page.now + seconds }, chain)

/-- The transfer step among these events. -/
abbrev Deploying := Running Page (TxCall SendRequest) (TxCall.Answer SendRequest.Answer) Chain
  (Except Thrown (Option Text))

/-- The chain around the page. -/
def Node.outside (node : Node) : Outside Page (TxCall SendRequest)
    (TxCall.Answer SendRequest.Answer) Chain Reply Event where
  serve := node.serve
  happen := happen

namespace Funding

variable (funding : Funding) (node : Node)

/-- The deployment with the chain around it. -/
def machine : Machine Deploying (Occurrence Reply Event) where
  Initial running := (∃ fuel page, running.stage = funding.transfer fuel page) ∧
    running.world.pending = [] ∧ running.world.landed = [] ∧ running.world.failed = []
  next := node.outside.next

/-- The lamports have dropped by the transfer since `userBalance` was read. -/
def Dropped (chain : Chain) : Prop := chain.lamports + funding.requiredBalance ≤ funding.userBalance

/-- The check would find that the transfer has landed. -/
def Finds (page : Page) : Prop := funding.checkConfirmation page = .done page (.ok true)

/-- The deploy is past the transfer only if that has landed, and it lands at most once. -/
structure Sound (running : Deploying) : Prop where
  paid : ∀ page result, running.stage = .done page (.ok result) →
    ∃ message ∈ running.world.landed, funding.transferIx ∈ message.instructions
  once : running.world.landed.countP (funding.transferIx ∈ ·.instructions) ≤ 1

/-- Where the check is asked, it finds the transfer only if the lamports have dropped. -/
def Truthful (running : Deploying) : Occurrence Reply Event → Prop
  | .reply (.failure _) => ∀ page txHash resume,
      running.stage = .await page (.confirmTransaction txHash) resume →
        funding.Finds page → funding.Dropped running.world
  | _ => True

/-- The run funds the deploy exactly. -/
structure FundsExactly (start : Deploying) (occurrences : List (Occurrence Reply Event)) : Prop where
  sound : (funding.machine node).Throughout funding.Sound start occurrences
  truthful : (funding.machine node).Meets funding.Truthful start occurrences

/-- A message is submitted only while no other one can land or has landed. When a
confirmation says that the transaction failed, then the wallet's balance is unknown or, as a
number of SOL, not below the difference of the numbers of lamports; or the transfer has
landed and the lamports have dropped by it. -/
def Orderly (running : Deploying) : Occurrence Reply Event → Prop
  | .reply .accepted | .reply (.refused _ true) => ∀ page message resume,
      running.stage = .await page (.callback (.sendRawTransaction message)) resume →
        ∀ other, running.world.Live other → other = message
  | .reply (.failure _) => ∀ page txHash resume,
      running.stage = .await page (.confirmTransaction txHash) resume →
        (∀ balance, page.balance = some balance →
          (funding.userBalance : Rat) - funding.requiredBalance ≤ balance) ∨
        running.world.landed ≠ [] ∧ funding.Dropped running.world
  | _ => True

/-! ## One transfer -/

/-- There is at most one transfer that can land or has landed. -/
structure Single (chain : Chain) : Prop where
  distinct : chain.landed.Nodup
  apart : ∀ message ∈ chain.landed, message ∉ chain.pending
  one : ∀ message other, chain.Live message → chain.Live other → message = other
  carries : ∀ message, chain.Live message → funding.transferIx ∈ message.instructions

variable {funding} {chain : Chain} {message : Message}

/-- Which transactions stay pending. -/
theorem mem_withdraw {other : Message} :
    other ∈ chain.withdraw message ↔ other ∈ chain.pending ∧ other ≠ message := by
  simp [Chain.withdraw]

/-- The only live transfer is submitted again. -/
theorem Single.submit (single : funding.Single chain) (alone : ∀ other, chain.Live other → other = message)
    (carries : funding.transferIx ∈ message.instructions) :
    funding.Single (chain.submit message) := by
  unfold Chain.submit
  split
  case isTrue known => exact single
  case isFalse fresh =>
    simp only [Chain.Processed, not_or] at fresh
    have live : ∀ other, Chain.Live { chain with pending := message :: chain.pending } other →
        other = message := by
      rintro other (waiting | landed)
      · rcases List.mem_cons.mp waiting with same | before
        · exact same
        · exact alone other (.inl before)
      · exact alone other (.inr landed)
    refine ⟨single.distinct, ?_, ?_, ?_⟩
    · intro other landed waiting
      obtain rfl := alone other (.inr landed)
      exact fresh.2.1 landed
    · intro first second firstLive secondLive
      rw [live first firstLive, live second secondLive]
    · intro other otherLive
      rw [live other otherLive]
      exact carries

/-- What is withdrawn leaves nothing new. -/
theorem Single.withdraw (single : funding.Single chain) :
    funding.Single { chain with pending := chain.withdraw message } := by
  have live : ∀ other, Chain.Live { chain with pending := chain.withdraw message } other →
      chain.Live other := by
    rintro other (waiting | landed)
    · exact .inl (mem_withdraw.mp waiting).1
    · exact .inr landed
  refine ⟨single.distinct, ?_, ?_, ?_⟩
  · intro other landed waiting
    exact single.apart other landed (mem_withdraw.mp waiting).1
  · exact fun first second firstLive secondLive =>
      single.one first second (live first firstLive) (live second secondLive)
  · exact fun other otherLive => single.carries other (live other otherLive)

/-- The only pending transfer lands. -/
theorem Single.land (single : funding.Single chain) (waiting : message ∈ chain.pending) :
    funding.Single { chain with pending := chain.withdraw message, landed := message :: chain.landed } := by
  have live : ∀ other, Chain.Live { chain with
      pending := chain.withdraw message, landed := message :: chain.landed } other →
      chain.Live other := by
    rintro other (waiting' | landed)
    · exact .inl (mem_withdraw.mp waiting').1
    · rcases List.mem_cons.mp landed with rfl | before
      · exact .inl waiting
      · exact .inr before
  refine ⟨?_, ?_, ?_, ?_⟩
  · exact List.nodup_cons.mpr ⟨fun landed => single.apart message landed waiting, single.distinct⟩
  · intro other landed waiting'
    rcases List.mem_cons.mp landed with rfl | before
    · exact (mem_withdraw.mp waiting').2 rfl
    · exact single.apart other before (mem_withdraw.mp waiting').1
  · exact fun first second firstLive secondLive =>
      single.one first second (live first firstLive) (live second secondLive)
  · exact fun other otherLive => single.carries other (live other otherLive)

/-- So no more than one lands. -/
theorem Single.once (single : funding.Single chain) :
    chain.landed.countP (funding.transferIx ∈ ·.instructions) ≤ 1 := by
  refine List.countP_le_length.trans ?_
  match landed : chain.landed with
  | [] => simp
  | [_] => simp
  | first :: second :: rest =>
      have same : first = second :=
        single.one first second (.inr (by simp [landed])) (.inr (by simp [landed]))
      have distinct := single.distinct
      simp [landed, same] at distinct

/-! ## Steps -/

/-- A call leaves the chain as it is, unless it submits a message. -/
theorem serve_chain {node : Node} {call : TxCall SendRequest} {reply : Reply}
    {answer : call.Answer SendRequest.Answer} {after : Chain}
    (served : node.serve call reply chain = some (answer, after)) :
    after = chain ∨ ∃ message, call = .callback (.sendRawTransaction message) ∧
      after = chain.submit message ∧ (reply = .accepted ∨ ∃ error, reply = .refused error true) := by
  unfold Node.serve at served
  split at served
  case h_7 message =>
    cases served
    exact .inr ⟨message, rfl, rfl, .inl rfl⟩
  case h_8 message error submitted =>
    split at served
    · cases served
    · cases served
      cases submitted with
      | false => exact .inl rfl
      | true => exact .inr ⟨message, rfl, rfl, .inr ⟨error, rfl⟩⟩
  case h_9 =>
    split at served
    · cases served
      exact .inl rfl
    · cases served
  case h_10 =>
    split at served
    · cases served
      exact .inl rfl
    · cases served
  case h_13 => cases served
  all_goals
    cases served
    exact .inl rfl

/-- Before the transfer has landed no confirmation succeeds, and a check that is asked finds
nothing. -/
def Unpaid (funding : Funding) : (call : TxCall SendRequest) → call.Answer SendRequest.Answer → Page → Prop
  | .callback (.sendRawTransaction _), .ok txHash, _ => txHash ≠ []
  | .confirmTransaction _, .ok none, _ => False
  | .confirmTransaction _, .ok (some _), page => ¬ funding.Finds page
  | _, _, _ => True

/-- While nothing has landed no answer says that it has. -/
theorem serve_unpaid {node : Node} {call : TxCall SendRequest} {reply : Reply} {page : Page}
    {answer : call.Answer SendRequest.Answer} {after : Chain} (unpaid : chain.landed = [])
    (unfound : ∀ err txHash, reply = .failure err → call = .confirmTransaction txHash →
      ¬ funding.Finds page)
    (served : node.serve call reply chain = some (answer, after)) :
    Unpaid funding call answer page := by
  unfold Node.serve at served
  split at served
  case h_7 message =>
    cases served
    exact node.named message
  case h_8 message error submitted =>
    split at served
    · cases served
    · cases served
      trivial
  case h_9 =>
    simp [unpaid] at served
  case h_10 txHash err =>
    split at served
    · cases served
      exact unfound err txHash rfl rfl
    · cases served
  case h_13 => cases served
  all_goals
    cases served
    trivial

/-- The check reads the balance once, without waiting. -/
theorem checkConfirmation_eq (page : Page) :
    funding.checkConfirmation page = .done page (match page.balance with
      | none => .error (.error "Could not get wallet balance".toList)
      | some balance => .ok (decide (balance < (funding.userBalance : Rat) - funding.requiredBalance))) := by
  change (match page.balance with
    | none => throw (Thrown.error "Could not get wallet balance".toList)
    | some balance => pure (decide (balance < (funding.userBalance : Rat) - funding.requiredBalance)) :
      SendM Bool) page = _
  cases page.balance <;> rfl

/-- The check finds nothing when the balance is unknown or large enough. -/
theorem not_finds {page : Page} (large : ∀ balance, page.balance = some balance →
    (funding.userBalance : Rat) - funding.requiredBalance ≤ balance) : ¬ funding.Finds page := by
  intro finds
  rw [Finds, checkConfirmation_eq] at finds
  cases known : page.balance with
  | none => simp [known] at finds
  | some balance =>
      have below : balance < (funding.userBalance : Rat) - funding.requiredBalance := by
        simpa [known] using finds
      exact Rat.not_lt.mpr (large balance known) below

/-- The chain holds at most one transfer, and the deploy does not get past the step before
that has landed. -/
structure Inv (funding : Funding) (running : Deploying) : Prop where
  single : funding.Single running.world
  waits : running.world.landed ≠ [] ∨
    running.stage.Always (Carries funding.transferIx) (Unpaid funding)
      fun result _ => ∃ error, result = .error error

/-- Before the transfer has landed the check ends in `false` or throws. -/
theorem checkConfirmation_always {page : Page} (unfound : ¬ funding.Finds page) :
    funding.checkConfirmation.Always (Carries funding.transferIx) (Unpaid funding) page
      (Async.split (fun found _ => found = false) fun _ _ => True) := by
  rw [Finds, checkConfirmation_eq] at unfound
  rw [Async.Always, checkConfirmation_eq]
  cases known : page.balance with
  | none => trivial
  | some balance =>
      change decide (balance < (funding.userBalance : Rat) - funding.requiredBalance) = false
      simpa [known] using unfound

/-- Nothing that happens beside the deploy brings a second transfer, or takes one back. -/
theorem happen_single {event : Event} {page page' : Page} {after : Chain}
    (single : funding.Single chain) (happened : happen event page chain = some (page', after)) :
    funding.Single after ∧ (chain.landed ≠ [] → after.landed ≠ []) := by
  cases event with
  | land message fee =>
      simp only [happen, Option.ite_none_right_eq_some] at happened
      obtain ⟨⟨waiting, -⟩, same⟩ := happened
      cases same
      have landed := single.land waiting
      exact ⟨⟨landed.1, landed.2, landed.3, landed.4⟩, fun _ => List.cons_ne_nil _ _⟩
  | fail message fee =>
      simp only [happen, Option.ite_none_right_eq_some] at happened
      obtain ⟨⟨waiting, -⟩, same⟩ := happened
      cases same
      have withdrawn : funding.Single { chain with pending := chain.withdraw message } :=
        single.withdraw
      exact ⟨⟨withdrawn.1, withdrawn.2, withdrawn.3, withdrawn.4⟩, id⟩
  | expire message =>
      cases happened
      exact ⟨single.withdraw, id⟩
  | lamports lamports =>
      cases happened
      exact ⟨⟨single.1, single.2, single.3, single.4⟩, id⟩
  | balance lamports =>
      cases happened
      exact ⟨single, id⟩
  | connected connected =>
      cases happened
      exact ⟨single, id⟩
  | tick seconds =>
      cases happened
      exact ⟨single, id⟩

/-- Every orderly step keeps the invariant. -/
theorem step_inv {node : Node} {running after : Deploying} {occurrence : Occurrence Reply Event}
    (inv : Inv funding running) (orderly : funding.Orderly running occurrence)
    (stepped : (funding.machine node).next running occurrence = some after) : Inv funding after := by
  cases occurrence with
  | event event =>
      obtain ⟨page, happened, stage⟩ := Outside.next_event stepped
      obtain ⟨single, kept⟩ := happen_single inv.single happened
      refine ⟨single, ?_⟩
      rcases inv.waits with landed | waits
      · exact .inl (kept landed)
      · rw [stage]
        exact .inr (waits.withState page)
  | reply reply =>
      obtain ⟨page, call, resume, answer, waiting, served, stage⟩ := Outside.next_reply stepped
      constructor
      · rcases serve_chain served with same | ⟨message, rfl, submitted, how⟩
        · rw [same]
          exact inv.single
        · have alone : ∀ other, running.world.Live other → other = message := by
            rcases how with rfl | ⟨error, rfl⟩
            · exact orderly page message resume waiting
            · exact orderly page message resume waiting
          rw [submitted]
          refine inv.single.submit alone ?_
          -- A transfer that has landed is the message itself, which carries the instruction.
          rcases inv.waits with landed | waits
          · obtain ⟨other, member⟩ := List.exists_mem_of_ne_nil _ landed
            rw [← alone other (.inr member)]
            exact inv.single.carries other (.inr member)
          · rw [waiting] at waits
            exact waits.1
      · have kept : running.world.landed ≠ [] → after.world.landed ≠ [] := by
          rcases serve_chain served with same | ⟨message, -, submitted, -⟩
          · rw [same]
            exact id
          · rw [submitted, Chain.submit]
            split <;> exact id
        by_cases unpaid : running.world.landed = []
        · rcases inv.waits with landed | waits
          · exact absurd unpaid landed
          · rw [waiting] at waits
            rw [stage]
            refine .inr (waits.2 answer page (serve_unpaid unpaid ?_ served))
            rintro err txHash rfl rfl
            rcases orderly page txHash resume waiting with large | ⟨landed, -⟩
            · exact not_finds large
            · exact absurd unpaid landed
        · exact .inl (kept unpaid)

/-- At first nothing is submitted. -/
theorem initial_inv {node : Node} {running : Deploying}
    (initial : (funding.machine node).Initial running) : Inv funding running := by
  obtain ⟨⟨fuel, page, stage⟩, pending, landed, failed⟩ := initial
  have dead : ∀ message, ¬ running.world.Live message := by
    intro message live
    simp [Chain.Live, pending, landed] at live
  refine ⟨⟨?_, ?_, ?_, ?_⟩, .inr ?_⟩
  · simp [landed]
  · simp [landed]
  · exact fun message other live => absurd live (dead message)
  · exact fun message live => absurd live (dead message)
  · rw [stage]
    refine (retryLoop_always (fun page => ?_) (fun _ => trivial) (fun _ => trivial)
      (fun _ _ permitted => permitted) (fun _ _ page unfound => checkConfirmation_always unfound)
      _ _ _ page).mono ?_
    · exact send_always fuel (by simp) fun _ _ _ named => named
    · rintro (error | returned) _ returns
      · exact ⟨error, rfl⟩
      · exact returns.elim

/-- With the invariant one transfer lands at most. -/
theorem Inv.sound {running : Deploying} (inv : Inv funding running) : funding.Sound running := by
  refine ⟨fun page result ended => ?_, inv.single.once⟩
  rcases inv.waits with landed | waits
  · obtain ⟨message, member⟩ := List.exists_mem_of_ne_nil _ landed
    exact ⟨message, member, inv.single.carries message (.inr member)⟩
  · rw [ended] at waits
    obtain ⟨error, failed⟩ := waits
    cases failed

/-- In order, answers are true. -/
theorem Orderly.truthful {running : Deploying} {occurrence : Occurrence Reply Event}
    (orderly : funding.Orderly running occurrence) : funding.Truthful running occurrence := by
  unfold Truthful
  split
  · intro page txHash resume waiting finds
    rcases orderly page txHash resume waiting with large | ⟨-, dropped⟩
    · exact absurd finds (not_finds large)
    · exact dropped
  · trivial

/-- A run funds the deploy exactly if every transfer is submitted only while no other one
is live, and the comparison of SOL with lamports does not deceive the check. -/
theorem fundsExactly_of_orderly (funding : Funding) (node : Node) (start : Deploying)
    (occurrences : List (Occurrence Reply Event)) (initial : (funding.machine node).Initial start)
    (orderly : (funding.machine node).Meets funding.Orderly start occurrences) :
    funding.FundsExactly node start occurrences where
  sound := (Machine.throughout_of_meets (Inv funding) step_inv (initial_inv initial) orderly).mono
    fun _ => Inv.sound
  truthful := orderly.mono fun _ _ => Orderly.truthful

/-! ## Runs -/

/-- A node that names each message by its blockhash. -/
def countingNode : Node where
  signature message := List.replicate (message.recentBlockhash + 1) 'x'
  named _ := by simp

/-- 5 SOL, of which the deploy takes 2. -/
def fiveSol : Funding := ⟨5000000000, 2000000000⟩

/-- The start of a deployment with a balance of five SOL. -/
def started : Deploying where
  stage := fiveSol.transfer 2 ⟨true, some 5, none, 0⟩
  world := ⟨5000000000, [], [], []⟩

/-- The transfer lands, and its confirmation succeeds. -/
theorem confirmed_funds_exactly : fiveSol.FundsExactly countingNode started
    [.reply (.priorityFee 0), .reply (.blockhash 7), .reply .signed, .reply .accepted,
      .event (.land ⟨[.transfer 2100000000], 7⟩ 5000), .reply .confirmed] := by
  refine fundsExactly_of_orderly _ _ _ _ ⟨⟨2, _, rfl⟩, rfl, rfl, rfl⟩ ?_
  refine ⟨trivial, ?_⟩
  rintro _ ⟨⟩
  refine ⟨trivial, ?_⟩
  rintro _ ⟨⟩
  refine ⟨trivial, ?_⟩
  rintro _ ⟨⟩
  refine ⟨fun page message resume waiting other live => ?_, ?_⟩
  · rcases live with live | live <;> cases live
  rintro _ ⟨⟩
  refine ⟨trivial, ?_⟩
  rintro _ ⟨⟩
  exact ⟨trivial, fun _ _ => trivial⟩

/-- The first transfer has landed when its confirmation times out. Then the node says that
it has already processed the transaction, and `PgTx.send` signs it again with a new
blockhash. -/
def paidTwice : List (Occurrence Reply Event) :=
  [.reply (.priorityFee 0), .reply (.blockhash 7), .reply .signed, .reply .accepted,
    .event (.land ⟨[.transfer 2100000000], 7⟩ 5000), .reply (.thrown (.error "timeout".toList)),
    .reply .slept, .reply (.priorityFee 0), .reply .signed,
    .reply (.refused (.error alreadyProcessed) false), .reply (.priorityFee 0),
    .reply (.blockhash 8), .reply .signed, .reply .accepted,
    .event (.land ⟨[.transfer 2100000000], 8⟩ 5000)]

/-- The deployment is not always funded exactly. -/
theorem not_always_fundsExactly : ¬ ∀ (funding : Funding) (node : Node) (start : Deploying)
    (occurrences : List (Occurrence Reply Event)), (funding.machine node).Initial start →
      funding.FundsExactly node start occurrences := by
  intro always
  have exact_ := always fiveSol countingNode started paidTwice ⟨⟨2, _, rfl⟩, rfl, rfl, rfl⟩
  obtain ⟨finish, ran, twice⟩ : ∃ finish,
      (fiveSol.machine countingNode).run started paidTwice = some finish ∧
        finish.world.landed = [⟨[.transfer 2100000000], 8⟩, ⟨[.transfer 2100000000], 7⟩] := by
    refine ⟨_, rfl, ?_⟩
    rfl
  have once := (exact_.sound.of_run ran).once
  rw [twice] at once
  exact absurd once (by decide)

end Funding

end Solpg.Client.Commands.Deploy
