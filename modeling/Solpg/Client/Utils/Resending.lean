import Solpg.Client.Utils.Tx

/-!
# Sending again

`PgTx.send` against an endpoint that answers whatever it likes. The method calls itself with a new
blockhash when the node says that the transaction has been processed or that it does not know the
blockhash, and nothing counts how often.
-/

namespace Solpg.Client.Utils

open Solpg.Std

/-- All that is still to be answered: by the endpoint, and by the wallet. -/
structure Endpoint where
  priorityFees : Nat → Except Thrown Nat
  latestBlockhashes : Nat → Except Thrown Nat
  signatures : Nat → Except Thrown Unit
  sends : Nat → Except Thrown Text

/-- What comes after the first answer. -/
def later {α : Type} (answers : Nat → α) : Nat → α := fun count => answers (count + 1)

/-- The first answer of each kind is given. `send` asks for nothing else. -/
def Endpoint.serve : (call : TxCall SendRequest) → Endpoint → call.Answer SendRequest.Answer × Endpoint
  | .callback .priorityFee, endpoint =>
      (endpoint.priorityFees 0, { endpoint with priorityFees := later endpoint.priorityFees })
  | .callback .latestBlockhash, endpoint =>
      (endpoint.latestBlockhashes 0,
        { endpoint with latestBlockhashes := later endpoint.latestBlockhashes })
  | .callback (.signTransaction _), endpoint =>
      (endpoint.signatures 0, { endpoint with signatures := later endpoint.signatures })
  | .callback (.sendRawTransaction _), endpoint =>
      (endpoint.sends 0, { endpoint with sends := later endpoint.sends })
  | .confirmTransaction _, endpoint => (.ok none, endpoint)
  | .sleep _, endpoint => ((), endpoint)

/-- The error makes `send` call itself. -/
def isRetried (error : Thrown) : Bool :=
  error.message.any fun message =>
    message.includes alreadyProcessed || message.includes blockhashNotFound

/-- Whether a transaction sets its price. -/
def isPriced (instructions : List Instruction) : Bool :=
  instructions.any (·.isSetComputeUnitPrice)

/-- The endpoint never lets the transaction come to an end: every send is answered with an error
that is retried, and nothing else fails. The fee is asked for until it is not zero. -/
structure Insists (page : Page) (instructions : List Instruction) (endpoint : Endpoint) : Prop where
  connected : page.connected = true
  signs : ∀ count, endpoint.signatures count = .ok ()
  rejects : ∀ count, ∃ error, endpoint.sends count = .error error ∧ isRetried error = true
  blockhashes : ∀ count, ∃ blockhash, endpoint.latestBlockhashes count = .ok blockhash
  fees : isPriced instructions = false → ∀ count,
    (∀ before < count, endpoint.priorityFees before = .ok 0) →
      ∃ fee, endpoint.priorityFees count = .ok fee

variable {page page' : Page} {instructions instructions' : List Instruction}
  {endpoint endpoint' : Endpoint} {opts : SendOptions}

/-! ## One attempt -/

/-- The unit limit does not set the price. -/
theorem isPriced_withLimit : isPriced (withLimit opts instructions) = isPriced instructions := by
  unfold withLimit
  split
  · rfl
  · split
    · rfl
    · simp [isPriced, Instruction.isSetComputeUnitPrice]

/-- The fee is asked for unless the instructions have one, and then they do unless it is zero. -/
def Prices (instructions priced : List Instruction) (endpoint endpoint' : Endpoint) : Prop :=
  isPriced instructions = true ∧ isPriced priced = true ∨
    isPriced instructions = false ∧ endpoint'.priorityFees = later endpoint.priorityFees ∧
      ∃ fee, endpoint.priorityFees 0 = .ok fee ∧ isPriced priced = decide (fee ≠ 0)

/-- A price is asked for only when there is none, and set only when it is not zero. -/
theorem withPrice_run : (withPrice instructions).run Endpoint.serve page endpoint =
    if isPriced instructions then some (.ok instructions, page, endpoint)
    else some ((endpoint.priorityFees 0).map fun fee =>
        if fee = 0 then instructions else .setComputeUnitPrice fee :: instructions,
      page, { endpoint with priorityFees := later endpoint.priorityFees }) := by
  rw [withPrice]
  change (if isPriced instructions then _ else _ : SendM _).run _ _ _ = _
  split
  · rfl
  · rw [Async.run_bind, request_run]
    simp only [Endpoint.serve, Option.bind_some]
    cases endpoint.priorityFees 0 <;> rfl

/-- The blockhash of an attempt: the cached one, or the first that the endpoint answers with. -/
def Blockhashes (opts : SendOptions) (endpoint endpoint' : Endpoint) : Prop :=
  (∃ blockhash, endpoint.latestBlockhashes 0 = .ok blockhash) ∧
      endpoint'.latestBlockhashes = later endpoint.latestBlockhashes ∨
    opts.forceFetchLatestBlockhash = false ∧
      endpoint'.latestBlockhashes = endpoint.latestBlockhashes

/-- A blockhash is fetched and kept, or the error is passed on. -/
theorem fetchBlockhash_cases (timestamp : Nat) :
    (∃ data, endpoint.latestBlockhashes 0 = .ok data ∧
      (fetchBlockhash timestamp).run Endpoint.serve page endpoint =
        some (.ok data, { page with blockhash := some ⟨data, timestamp⟩ },
          { endpoint with latestBlockhashes := later endpoint.latestBlockhashes })) ∨
    ∃ error endpoint', endpoint.latestBlockhashes 0 = .error error ∧
      (fetchBlockhash timestamp).run Endpoint.serve page endpoint =
        some (.error error, page, endpoint') := by
  have asks : (fetchBlockhash timestamp).run Endpoint.serve page endpoint = _ := Async.run_bind _ _
  rw [request_run] at asks
  simp only [Endpoint.serve, Option.bind_some] at asks
  cases answer : endpoint.latestBlockhashes 0 with
  | ok data =>
      rw [answer] at asks
      exact .inl ⟨data, rfl, asks⟩
  | error error =>
      rw [answer] at asks
      exact .inr ⟨error, _, rfl, asks⟩

/-- The blockhash is the kept one or a fetched one. -/
theorem getLatestBlockhash_cases :
    (∃ data page' endpoint',
      (getLatestBlockhash opts.forceFetchLatestBlockhash).run Endpoint.serve page endpoint =
        some (.ok data, page', endpoint') ∧ page'.connected = page.connected ∧
      Blockhashes opts endpoint endpoint' ∧
      endpoint' = { endpoint with latestBlockhashes := endpoint'.latestBlockhashes }) ∨
    ∃ error endpoint', endpoint.latestBlockhashes 0 = .error error ∧
      (getLatestBlockhash opts.forceFetchLatestBlockhash).run Endpoint.serve page endpoint =
        some (.error error, page, endpoint') := by
  have split : (getLatestBlockhash opts.forceFetchLatestBlockhash).run Endpoint.serve page endpoint =
        (fetchBlockhash page.now).run Endpoint.serve page endpoint ∨
      opts.forceFetchLatestBlockhash = false ∧ ∃ data,
        (getLatestBlockhash opts.forceFetchLatestBlockhash).run Endpoint.serve page endpoint =
          some (.ok data, page, endpoint) := by
    rw [getLatestBlockhash, Async.run_bind_ok rfl]
    split
    · exact .inl rfl
    · next cached _ =>
      split
      · exact .inl rfl
      · next young =>
        obtain ⟨unforced, -⟩ : opts.forceFetchLatestBlockhash = false ∧ _ := by simpa using young
        exact .inr ⟨unforced, cached.data, rfl⟩
  rcases split with same | ⟨unforced, data, ran⟩
  · rcases @fetchBlockhash_cases page endpoint page.now with
      ⟨data, answer, ran⟩ | ⟨error, endpoint', answer, ran⟩
    · exact .inl ⟨data, _, _, same.trans ran, rfl, .inl ⟨⟨data, answer⟩, rfl⟩, rfl⟩
    · exact .inr ⟨error, endpoint', answer, same.trans ran⟩
  · exact .inl ⟨data, page, endpoint, ran, rfl, .inr ⟨unforced, rfl⟩, rfl⟩

/-- `prepareTx` after the fee. -/
def signPriced (opts : SendOptions) (priced : List Instruction) : SendM Message := do
  let recentBlockhash ← getLatestBlockhash opts.forceFetchLatestBlockhash
  let message : Message := ⟨withLimit opts priced, recentBlockhash⟩
  request (SendRequest.signTransaction message)
  pure message

/-- With a price the transaction is signed, or the error is passed on. -/
theorem signPriced_cases (priced : List Instruction) :
    (∃ tx page' endpoint', (signPriced opts priced).run Endpoint.serve page endpoint =
        some (.ok tx, page', endpoint') ∧ page'.connected = page.connected ∧
      isPriced tx.instructions = isPriced priced ∧ endpoint.signatures 0 = .ok () ∧
      Blockhashes opts endpoint endpoint' ∧
      endpoint' = { endpoint with
        latestBlockhashes := endpoint'.latestBlockhashes
        signatures := later endpoint.signatures }) ∨
    (∃ error page' endpoint', (signPriced opts priced).run Endpoint.serve page endpoint =
        some (.error error, page', endpoint')) ∧
      ((∃ error, endpoint.latestBlockhashes 0 = .error error) ∨
        ∃ error, endpoint.signatures 0 = .error error) := by
  rcases @getLatestBlockhash_cases page endpoint opts with
    ⟨data, page', endpoint', ran, connected, blockhashes, rest⟩ | ⟨error, endpoint', answer, ran⟩
  · have asks : (signPriced opts priced).run Endpoint.serve page endpoint = _ := Async.run_bind_ok ran
    have signs : endpoint'.signatures = endpoint.signatures := by rw [rest]
    rw [Async.run_bind, request_run] at asks
    simp only [Endpoint.serve, Option.bind_some, signs] at asks
    cases signed : endpoint.signatures 0 with
    | ok _ =>
        rw [signed] at asks
        refine .inl ⟨_, _, _, asks, connected, isPriced_withLimit, rfl, blockhashes, ?_⟩
        rw [rest]
    | error error =>
        rw [signed] at asks
        exact .inr ⟨⟨error, _, _, asks⟩, .inr ⟨error, rfl⟩⟩
  · exact .inr ⟨⟨error, page, endpoint', Async.run_bind_error ran⟩, .inl ⟨error, answer⟩⟩

/-- Without a wallet no transaction is prepared. -/
theorem prepareTx_run : (prepareTx instructions opts).run Endpoint.serve page endpoint =
    if page.connected then
      (do signPriced opts (← withPrice instructions) : SendM Message).run Endpoint.serve page endpoint
    else some (.error (.error "Wallet not connected".toList), page, endpoint) := by
  have read : (prepareTx instructions opts).run Endpoint.serve page endpoint =
      (do
        if !page.connected then throw (.error "Wallet not connected".toList)
        signPriced opts (← withPrice instructions) : SendM Message).run Endpoint.serve page
          endpoint := rfl
  rw [read]
  cases page.connected <;> rfl

/-- With a wallet the transaction is priced and signed. -/
theorem prepareTx_connected (connected : page.connected = true) :
    (prepareTx instructions opts).run Endpoint.serve page endpoint =
      (do signPriced opts (← withPrice instructions) : SendM Message).run Endpoint.serve page
        endpoint := by
  rw [prepareTx_run, if_pos connected]

/-- What one attempt takes from the endpoint, apart from the send. -/
structure Attempts (opts : SendOptions) (instructions instructions' : List Instruction)
    (endpoint endpoint' : Endpoint) : Prop where
  signed : endpoint.signatures 0 = .ok ()
  signatures : endpoint'.signatures = later endpoint.signatures
  blockhashes : Blockhashes opts endpoint endpoint'
  prices : Prices instructions instructions' endpoint endpoint'

/-- A transaction is prepared for an attempt, or the error is passed on. -/
def Prepares (page : Page) (instructions : List Instruction) (endpoint : Endpoint)
    (opts : SendOptions) : Prop :=
  (∃ tx page' endpoint', (prepareTx instructions opts).run Endpoint.serve page endpoint =
      some (.ok tx, page', endpoint') ∧ page'.connected = true ∧
    Attempts opts instructions tx.instructions endpoint endpoint' ∧
    endpoint'.sends = endpoint.sends) ∨
  (∃ error page' endpoint', (prepareTx instructions opts).run Endpoint.serve page endpoint =
      some (.error error, page', endpoint')) ∧ ¬ Insists page instructions endpoint

/-- Once priced, the transaction is signed or refused. -/
theorem prepareTx_cases_of_priced {priced : List Instruction} {endpoint₁ : Endpoint}
    (connected : page.connected = true)
    (ran : (withPrice instructions).run Endpoint.serve page endpoint =
      some (.ok priced, page, endpoint₁))
    (rest : endpoint₁ = { endpoint with priorityFees := endpoint₁.priorityFees })
    (prices : Prices instructions priced endpoint endpoint₁) :
    Prepares page instructions endpoint opts := by
  have signs : (prepareTx instructions opts).run Endpoint.serve page endpoint =
      (signPriced opts priced).run Endpoint.serve page endpoint₁ :=
    (prepareTx_connected connected).trans (Async.run_bind_ok ran)
  have sameHashes : endpoint₁.latestBlockhashes = endpoint.latestBlockhashes := by rw [rest]
  have sameSignatures : endpoint₁.signatures = endpoint.signatures := by rw [rest]
  rw [Prepares, signs]
  rcases @signPriced_cases page endpoint₁ opts priced with
    ⟨tx, page', endpoint', ran, kept, same, signed, blockhashes, later⟩ | ⟨failed, unanswered⟩
  · have sameFees : endpoint'.priorityFees = endpoint₁.priorityFees := by rw [later]
    refine .inl ⟨tx, page', endpoint', ran, kept.trans connected, ⟨?_, ?_, ?_, ?_⟩, ?_⟩
    · rw [← sameSignatures, signed]
    · rw [later, sameSignatures]
    · simpa [Blockhashes, sameHashes] using blockhashes
    · simpa [Prices, sameFees, same] using prices
    · rw [later, rest]
  · refine .inr ⟨failed, fun insists => ?_⟩
    rcases unanswered with ⟨error, answer⟩ | ⟨error, answer⟩
    · obtain ⟨blockhash, answered⟩ := insists.blockhashes 0
      rw [sameHashes, answered] at answer
      cases answer
    · rw [sameSignatures, insists.signs 0] at answer
      cases answer

/-- With a wallet a transaction is prepared, or the error is passed on. -/
theorem prepareTx_cases (connected : page.connected = true) :
    Prepares page instructions endpoint opts := by
  have ran := @withPrice_run page instructions endpoint
  cases priced : isPriced instructions with
  | true =>
      rw [priced, if_pos rfl] at ran
      exact prepareTx_cases_of_priced connected ran rfl (.inl ⟨priced, priced⟩)
  | false =>
      rw [priced, if_neg Bool.false_ne_true] at ran
      cases answer : endpoint.priorityFees 0 with
      | error error =>
          rw [answer] at ran
          refine .inr ⟨⟨error, _, _, (prepareTx_connected connected).trans (Async.run_bind_error ran)⟩, ?_⟩
          intro insists
          obtain ⟨fee, answered⟩ := insists.fees priced 0 fun _ before => absurd before (by omega)
          cases answer.symm.trans answered
      | ok fee =>
          rw [answer] at ran
          refine prepareTx_cases_of_priced connected ran rfl (.inr ⟨priced, rfl, fee, answer, ?_⟩)
          by_cases free : fee = 0
          · simp [free, priced]
          · simp [free, isPriced, Instruction.isSetComputeUnitPrice]

/-! ## Every attempt -/

/-- What a call of itself leaves to the endpoint. -/
structure Resends (opts : SendOptions) (page page' : Page)
    (instructions instructions' : List Instruction) (endpoint endpoint' : Endpoint) : Prop
    extends Attempts opts instructions instructions' endpoint endpoint' where
  connected : page.connected = true
  connected' : page'.connected = true
  rejected : ∃ error, endpoint.sends 0 = .error error ∧ isRetried error = true
  sends : endpoint'.sends = later endpoint.sends

/-- The options of a second attempt. -/
def SendOptions.forced (opts : SendOptions) : SendOptions :=
  { opts with forceFetchLatestBlockhash := true }

/-- `send` after the answer of the node. -/
def settle (fuel : Nat) (opts : SendOptions) (tx : Message) : Except Thrown Text → SendM Text
  | .ok txHash => pure txHash
  | .error e =>
      match e.message with
      | none =>
          throw (.typeError "Cannot read properties of undefined (reading \x27message\x27)".toList)
      | some message =>
          if message.includes alreadyProcessed || message.includes blockhashNotFound then
            send fuel tx.instructions opts.forced
          else throw e

/-- An attempt prepares the transaction and sends it. -/
theorem send_succ (fuel : Nat) : send (fuel + 1) instructions opts = (do
    let tx ← prepareTx instructions opts
    settle fuel opts tx (← Async.attempt (request (SendRequest.sendRawTransaction tx))) :
      SendM Text) := by
  rw [send]
  congr 1
  funext tx
  congr 1
  funext answer
  cases answer <;> rfl

/-- What follows a prepared transaction is how its sending settles. -/
theorem send_run_of_prepareTx {tx : Message}
    (ran : (prepareTx instructions opts).run Endpoint.serve page endpoint =
      some (.ok tx, page', endpoint')) (fuel : Nat) :
    (send (fuel + 1) instructions opts).run Endpoint.serve page endpoint =
      (settle fuel opts tx (endpoint'.sends 0)).run Endpoint.serve page'
        { endpoint' with sends := later endpoint'.sends } := by
  rw [send_succ, Async.run_bind_ok ran, Async.run_bind_ok (Async.run_attempt (request_run _))]
  rfl

/-- An expired blockhash starts a new attempt. -/
theorem settle_retried {error : Thrown} (fuel : Nat) (tx : Message) (retried : isRetried error = true) :
    settle fuel opts tx (.error error) = send fuel tx.instructions opts.forced := by
  cases said : error.message with
  | none => simp [isRetried, said] at retried
  | some message =>
      simp only [isRetried, said, Option.any_some] at retried
      simp only [settle, said, retried, if_true]

/-- Any other answer ends the attempts. -/
theorem settle_isSome {answer : Except Thrown Text} (fuel : Nat) (tx : Message)
    (unretried : ∀ error, answer = .error error → isRetried error = false) :
    ((settle fuel opts tx answer).run Endpoint.serve page endpoint).isSome := by
  cases answer with
  | ok txHash => rfl
  | error error =>
      have last := unretried error rfl
      cases said : error.message with
      | none =>
          simp only [settle, said]
          rfl
      | some message =>
          simp only [isRetried, said, Option.any_some] at last
          simp only [settle, said, last]
          rfl

/-- `send` comes to an end, or calls itself. -/
theorem send_cases :
    (∃ page' instructions' endpoint',
      (∀ fuel, (send (fuel + 1) instructions opts).run Endpoint.serve page endpoint =
        (send fuel instructions' opts.forced).run Endpoint.serve page' endpoint') ∧
      Resends opts page page' instructions instructions' endpoint endpoint') ∨
    (∀ fuel, ((send (fuel + 1) instructions opts).run Endpoint.serve page endpoint).isSome) ∧
      ¬ Insists page instructions endpoint := by
  cases connected : page.connected with
  | false =>
      refine .inr ⟨fun fuel => ?_, fun insists => ?_⟩
      · have fails := @prepareTx_run page instructions endpoint opts
        rw [connected, if_neg Bool.false_ne_true] at fails
        rw [send_succ, Async.run_bind_error fails]
        rfl
      · cases connected.symm.trans insists.connected
  | true =>
      rcases @prepareTx_cases page instructions endpoint opts connected with
        ⟨tx, page', endpoint', ran, connected', attempts, sends⟩ |
        ⟨⟨error, page', endpoint', ran⟩, uninsisting⟩
      · by_cases retried : ∃ error, endpoint.sends 0 = .error error ∧ isRetried error = true
        · obtain ⟨error, answer, again⟩ := retried
          refine .inl ⟨page', tx.instructions, { endpoint' with sends := later endpoint'.sends },
            fun fuel => ?_,
            ⟨attempts.signed, attempts.signatures, attempts.blockhashes, attempts.prices⟩,
            connected, connected', ⟨error, answer, again⟩, congrArg later sends⟩
          have rejected : endpoint'.sends 0 = .error error := by rw [sends, answer]
          rw [send_run_of_prepareTx ran, rejected, settle_retried fuel tx again]
        · refine .inr ⟨fun fuel => ?_, fun insists => retried (insists.rejects 0)⟩
          rw [send_run_of_prepareTx ran]
          refine settle_isSome fuel tx fun error answer => ?_
          rw [sends] at answer
          simpa using fun again => retried ⟨error, answer, again⟩
      · refine .inr ⟨fun fuel => ?_, uninsisting⟩
        rw [send_succ, Async.run_bind_error ran]
        rfl

/-- An endpoint that insists still does after one more send. -/
theorem Insists.resend (insists : Insists page instructions endpoint)
    (resends : Resends opts page page' instructions instructions' endpoint endpoint') :
    Insists page' instructions' endpoint' where
  connected := resends.connected'
  signs count := by
    rw [resends.signatures]
    exact insists.signs (count + 1)
  rejects count := by
    rw [resends.sends]
    exact insists.rejects (count + 1)
  blockhashes count := by
    rcases resends.blockhashes with ⟨-, fetched⟩ | ⟨-, cached⟩
    · rw [fetched]
      exact insists.blockhashes (count + 1)
    · rw [cached]
      exact insists.blockhashes count
  fees unpriced count free := by
    rcases resends.prices with ⟨-, priced⟩ | ⟨still, asked, fee, answer, priced⟩
    · cases unpriced.symm.trans priced
    · have zero : fee = 0 := by simpa [unpriced] using priced
      rw [asked] at free ⊢
      refine insists.fees still (count + 1) fun before earlier => ?_
      cases before with
      | zero => rw [answer, zero]
      | succ before => exact free before (by omega)

/-- While the endpoint insists, no bound on the sends is enough. -/
theorem send_endless (fuel : Nat) (insists : Insists page instructions endpoint) :
    (send fuel instructions opts).run Endpoint.serve page endpoint = none := by
  induction fuel generalizing page instructions opts endpoint with
  | zero => rfl
  | succ fuel ih =>
      rcases @send_cases page instructions endpoint opts with
        ⟨page', instructions', endpoint', again, resends⟩ | ⟨-, uninsisting⟩
      · rw [again]
        exact ih (insists.resend resends)
      · exact absurd insists uninsisting

/-- No bound on the sends is enough. -/
def NeverSettles (opts : SendOptions) (page : Page) (instructions : List Instruction)
    (endpoint : Endpoint) : Prop :=
  ∀ fuel, (send fuel instructions opts).run Endpoint.serve page endpoint = none

/-- Where an attempt never settles, neither does the next one. -/
theorem NeverSettles.step (never : NeverSettles opts page instructions endpoint) :
    ∃ page' instructions' endpoint', NeverSettles opts.forced page' instructions' endpoint' ∧
      Resends opts page page' instructions instructions' endpoint endpoint' := by
  rcases @send_cases page instructions endpoint opts with
    ⟨page', instructions', endpoint', again, resends⟩ | ⟨settles, -⟩
  · exact ⟨page', instructions', endpoint', fun fuel => (again fuel).symm.trans (never _), resends⟩
  · have settled := settles 0
    rw [never 1] at settled
    cases settled

/-- Every attempt is signed. -/
theorem NeverSettles.signs (never : NeverSettles opts page instructions endpoint) (count : Nat) :
    endpoint.signatures count = .ok () := by
  induction count generalizing opts page instructions endpoint with
  | zero =>
      obtain ⟨_, _, _, -, resends⟩ := never.step
      exact resends.signed
  | succ count ih =>
      obtain ⟨_, _, _, never', resends⟩ := never.step
      have next := ih never'
      rwa [resends.signatures] at next

/-- Every attempt is rejected for its blockhash. -/
theorem NeverSettles.rejects (never : NeverSettles opts page instructions endpoint) (count : Nat) :
    ∃ error, endpoint.sends count = .error error ∧ isRetried error = true := by
  induction count generalizing opts page instructions endpoint with
  | zero =>
      obtain ⟨_, _, _, -, resends⟩ := never.step
      exact resends.rejected
  | succ count ih =>
      obtain ⟨_, _, _, never', resends⟩ := never.step
      have next := ih never'
      rwa [resends.sends] at next

/-- Forced attempts ask for each blockhash. -/
theorem NeverSettles.blockhashes_of_forced (never : NeverSettles opts page instructions endpoint)
    (forced : opts.forceFetchLatestBlockhash = true) (count : Nat) :
    ∃ blockhash, endpoint.latestBlockhashes count = .ok blockhash := by
  induction count generalizing opts page instructions endpoint with
  | zero =>
      obtain ⟨_, _, _, -, resends⟩ := never.step
      rcases resends.blockhashes with ⟨answered, -⟩ | ⟨unforced, -⟩
      · exact answered
      · cases forced.symm.trans unforced
  | succ count ih =>
      obtain ⟨_, _, _, never', resends⟩ := never.step
      rcases resends.blockhashes with ⟨-, fetched⟩ | ⟨unforced, -⟩
      · have next := ih never' rfl
        rwa [fetched] at next
      · cases forced.symm.trans unforced

/-- Every attempt gets a blockhash. -/
theorem NeverSettles.blockhashes (never : NeverSettles opts page instructions endpoint)
    (count : Nat) : ∃ blockhash, endpoint.latestBlockhashes count = .ok blockhash := by
  obtain ⟨_, _, _, never', resends⟩ := never.step
  have next := never'.blockhashes_of_forced rfl
  rcases resends.blockhashes with ⟨answered, fetched⟩ | ⟨-, cached⟩
  · cases count with
    | zero => exact answered
    | succ count =>
        rw [fetched] at next
        exact next count
  · rw [cached] at next
    exact next count

/-- Every attempt without a price asks for one and is answered. -/
theorem NeverSettles.fees (never : NeverSettles opts page instructions endpoint)
    (unpriced : isPriced instructions = false) (count : Nat)
    (free : ∀ before < count, endpoint.priorityFees before = .ok 0) :
    ∃ fee, endpoint.priorityFees count = .ok fee := by
  induction count generalizing opts page instructions endpoint with
  | zero =>
      obtain ⟨_, _, _, -, resends⟩ := never.step
      rcases resends.prices with ⟨priced, -⟩ | ⟨-, -, fee, answer, -⟩
      · cases unpriced.symm.trans priced
      · exact ⟨fee, answer⟩
  | succ count ih =>
      obtain ⟨_, _, _, never', resends⟩ := never.step
      rcases resends.prices with ⟨priced, -⟩ | ⟨-, asked, fee, answer, priced⟩
      · cases unpriced.symm.trans priced
      · have zero : fee = 0 := by simpa using answer.symm.trans (free 0 (by omega))
        have next := ih never' (by simpa [zero] using priced) fun before earlier => by
          rw [asked]
          exact free (before + 1) (by omega)
        rwa [asked] at next

/-- An attempt that never settles meets an endpoint that insists. -/
theorem NeverSettles.insists (never : NeverSettles opts page instructions endpoint) :
    Insists page instructions endpoint where
  connected := by
    obtain ⟨_, _, _, -, resends⟩ := never.step
    exact resends.connected
  signs := never.signs
  rejects := never.rejects
  blockhashes := never.blockhashes
  fees := never.fees

/-- `send` settles after a bounded number of sends, unless the endpoint insists. -/
theorem send_settles_iff :
    (∃ fuel, ((send fuel instructions opts).run Endpoint.serve page endpoint).isSome) ↔
      ¬ Insists page instructions endpoint := by
  constructor
  · rintro ⟨fuel, settled⟩ insists
    rw [send_endless fuel insists] at settled
    cases settled
  · intro uninsisting
    by_contra unsettled
    have never : NeverSettles opts page instructions endpoint := fun fuel =>
      Option.not_isSome_iff_eq_none.mp fun settled => unsettled ⟨fuel, settled⟩
    exact uninsisting never.insists

/-- A node that does not know its own blockhashes. -/
def forgetful : Endpoint where
  priorityFees _ := .ok 0
  latestBlockhashes count := .ok count
  signatures _ := .ok ()
  sends _ := .error (.error blockhashNotFound)

/-- An endpoint that forgets every blockhash insists. -/
theorem forgetful_insists (connected : page.connected = true) :
    Insists page instructions forgetful where
  connected := connected
  signs _ := rfl
  rejects _ := ⟨_, rfl, by decide⟩
  blockhashes count := ⟨count, rfl⟩
  fees _ _ _ := ⟨0, rfl⟩

/-- Sending does not always settle. -/
theorem not_always_send_settles :
    ¬ ∀ (page : Page) (instructions : List Instruction) (opts : SendOptions) (endpoint : Endpoint),
      ∃ fuel, ((send fuel instructions opts).run Endpoint.serve page endpoint).isSome := by
  intro settles
  obtain ⟨fuel, settled⟩ := settles ⟨true, none, none, 0⟩ [.transfer 1] ⟨none, false⟩ forgetful
  rw [send_endless fuel (forgetful_insists rfl)] at settled
  cases settled

end Solpg.Client.Utils
