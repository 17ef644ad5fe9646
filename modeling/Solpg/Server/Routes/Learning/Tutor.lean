import Solpg.Server.Routes.Learning.Quota
import Solpg.Server.Routes.Learning.Request
import Solpg.Server.Routes.Learning.Session

/-!
# The tutor route

`ai_response` of `routes/learning/mod.rs`: a request is checked, takes a turn of
the daily quota and is sent to the model. A run of `tutorMachine` is one
interleaving of requests, dropped connections, answers of the model and a clock
that moves forward. Only requests that passed the checks await the usage lock,
and each of them stands at the place of its call of `consume_ai_turn`.
-/

namespace Solpg.Server.Routes.Learning

open Solpg.Std

/-! ## Answers -/

/-- The errors of `error.rs`, with the texts that they are displayed as. -/
inductive Error where
  | badRequest (message : Text)
  | unauthorized (message : Text)
  | tooManyRequests (message : Text)
  | other (message : Text)
  deriving DecidableEq

/-- The status of an error. -/
def Error.statusCode : Error → Nat
  | .badRequest _ => 400
  | .unauthorized _ => 401
  | .tooManyRequests _ => 429
  | .other _ => 500

/-- What a response carries. -/
inductive Body where
  | text (text : Text)
  /-- The bytes of the model's response, as they arrive. -/
  | stream
  deriving DecidableEq

/-- A response, with the value of `x-solpg-ai-remaining` if it has one. -/
structure Response where
  status : Nat
  body : Body
  remaining : Option Text
  deriving DecidableEq

/-- A handler answers with a response or an error. -/
abbrev Answer := Except Error Response

/-- What comes of a request to the model: no response, one with another status,
whose text may be unreadable, or a stream. -/
inductive Upstream where
  | failed
  | unsuccessful (status : Nat) (text : Option Text)
  | streaming

/-- The stream of the model with the turns that are left. -/
def streamResponse (remaining : Nat) : Response where
  status := 200
  body := .stream
  remaining := some (toString remaining).toList

/-- The end of `ai_response`, once the model has answered. -/
def answerOf (remaining : Nat) : Upstream → Answer
  | .failed => .error (.other "OpenAI request failed".toList)
  | .unsuccessful status text =>
      .ok ⟨status, .text (text.getD "OpenAI request failed".toList), none⟩
  | .streaming => .ok (streamResponse remaining)

/-! ## The service -/

/-- `session_safety_id`. -/
def sessionSafetyId (owner : Uuid) : Text := "solpg_".toList ++ owner.simple.take 20

/-- What a `LearningState` is created with, and the functions of other crates. -/
structure TutorConfig where
  openaiApiKey : Text
  openaiModel : Text
  sessionSecret : Bytes
  limits : Limits
  hmac : Hmac
  render : Json → Text

/-- The checks before a turn is taken. An error of a check is an answer. -/
def TutorConfig.accept (config : TutorConfig) (headers : HeaderMap) (payload : AiRequest) :
    Except Answer Uuid := do
  let owner ← (verifySession config.hmac config.sessionSecret headers).mapError
    fun error => .error (.unauthorized error)
  (validateAiRequest config.render payload).mapError fun error => .error (.badRequest error)
  if config.openaiApiKey.isEmpty then
    .error (.ok ⟨503,
      .text "The tutor is not configured. Set PG_OPENAI_API_KEY on the server.".toList, none⟩)
  else .ok owner

/-- `create_openai_request` with the model of the server. -/
def TutorConfig.createRequest (config : TutorConfig) (payload : AiRequest) (owner : Uuid) :
    OpenAiRequest :=
  createOpenAiRequest config.render payload config.openaiModel (sessionSafetyId owner)

/-- The answer once the turns of a day are used up. -/
def limitError : Error :=
  .tooManyRequests "Daily tutor limit reached. Your allowance resets at 00:00 UTC.".toList

/-- Where a request that passed the checks is. -/
inductive Progress where
  | consuming
  | sending (remaining : Nat)
  | answered (answer : Answer)
  | dropped

/-- A request that passed the checks, and what was sent to the model for it. -/
structure Exchange where
  headers : HeaderMap
  peerIp : IpAddr
  payload : AiRequest
  progress : Progress
  sent : Option OpenAiRequest

/-- The quota, and all requests so far. -/
structure TutorState where
  quota : QuotaState Uuid IpAddr
  exchanges : List Exchange
  /-- The answers to requests that did not pass the checks. -/
  refused : List Answer

/-- Time passes, a request arrives, or one of its steps is taken. -/
inductive TutorAction where
  | tick (seconds : Nat)
  | request (headers : HeaderMap) (peerIp : IpAddr) (payload : AiRequest)
  /-- A request gets the usage lock, takes its turn or is refused, and is sent. -/
  | lock (exchange : Nat)
  | upstream (exchange : Nat) (answer : Upstream)
  /-- The connection is closed, so the future of the handler is dropped. -/
  | drop (exchange : Nat)

/-- What follows `consume_ai_turn`. A panic ends the request. -/
def Exchange.consumed (exchange : Exchange) (config : TutorConfig) (call : Call Uuid IpAddr) :
    Exchange :=
  match call.status with
  | .returned (.remaining turns) =>
      { exchange with
        progress := .sending turns
        sent := some (config.createRequest exchange.payload call.owner) }
  | .returned .limitReached => { exchange with progress := .answered (.error limitError) }
  | _ => { exchange with progress := .dropped }

namespace TutorState

/-- A step of one request. -/
def setExchange (state : TutorState) (index : Nat) (exchange : Exchange) : TutorState :=
  { state with exchanges := state.exchanges.set index exchange }

/-- What an action makes of the state; `none` is an action that cannot be taken. -/
def next (config : TutorConfig) (state : TutorState) : TutorAction → Option TutorState
  | .tick seconds =>
      (state.quota.next config.limits (.tick seconds)).map fun quota => { state with quota }
  | .request headers peerIp payload =>
      match config.accept headers payload with
      | .error answer => some { state with refused := state.refused ++ [answer] }
      | .ok owner =>
          (state.quota.next config.limits (.begin owner (clientIp headers peerIp))).map fun quota =>
            { state with
              quota
              exchanges := state.exchanges ++ [⟨headers, peerIp, payload, .consuming, none⟩] }
  | .lock index =>
      match state.exchanges[index]? with
      | none => none
      | some exchange =>
          (state.quota.next config.limits (.lock index)).bind fun quota =>
            (quota.calls[index]?).map fun call =>
              { state with quota }.setExchange index (exchange.consumed config call)
  | .upstream index answer =>
      match state.exchanges[index]? with
      | none => none
      | some exchange =>
          match exchange.progress with
          | .sending remaining =>
              some (state.setExchange index
                { exchange with progress := .answered (answerOf remaining answer) })
          | _ => none
  | .drop index =>
      match state.exchanges[index]? with
      | none => none
      | some exchange =>
          match exchange.progress with
          | .consuming =>
              (state.quota.next config.limits (.cancel index)).map fun quota =>
                { state with quota }.setExchange index { exchange with progress := .dropped }
          | .sending _ => some (state.setExchange index { exchange with progress := .dropped })
          | _ => none

/-- The call that gets the lock was not overtaken across midnight. -/
def inOrder (state : TutorState) : TutorAction → Bool
  | .lock index => state.quota.inOrder (.lock index)
  | _ => true

end TutorState

/-- Every interleaving of tutor requests on one server. -/
def tutorMachine (config : TutorConfig) : Machine TutorState TutorAction where
  Initial state := state.quota.usage = UsageCounters.default ∧ state.quota.calls = [] ∧
    state.exchanges = [] ∧ state.refused = []
  next := TutorState.next config

namespace TutorState

variable {config : TutorConfig} {current after : TutorState} {action : TutorAction}

/-! ## The quota of the service -/

/-- What one action can do: move the quota by one of its actions, or leave it. -/
theorem next_quota (stepped : current.next config action = some after) :
    (∃ quotaAction, current.quota.next config.limits quotaAction = some after.quota ∧
      (current.inOrder action = true → current.quota.inOrder quotaAction = true)) ∨
      after.quota = current.quota := by
  cases action with
  | tick seconds =>
      cases stepped
      exact .inl ⟨.tick seconds, rfl, fun _ => rfl⟩
  | request headers peerIp payload =>
      simp only [next] at stepped
      split at stepped
      · cases stepped
        exact .inr rfl
      · obtain ⟨quota, moved, rfl⟩ := Option.map_eq_some_iff.mp stepped
        exact .inl ⟨_, moved, fun _ => rfl⟩
  | lock index =>
      simp only [next] at stepped
      split at stepped
      · cases stepped
      · obtain ⟨quota, moved, settled⟩ := Option.bind_eq_some_iff.mp stepped
        obtain ⟨call, -, rfl⟩ := Option.map_eq_some_iff.mp settled
        exact .inl ⟨.lock index, moved, id⟩
  | upstream index answer =>
      simp only [next] at stepped
      split at stepped
      · cases stepped
      · split at stepped <;> cases stepped
        exact .inr rfl
  | drop index =>
      simp only [next] at stepped
      split at stepped
      · cases stepped
      · split at stepped
        · obtain ⟨quota, moved, rfl⟩ := Option.map_eq_some_iff.mp stepped
          exact .inl ⟨_, moved, fun _ => rfl⟩
        · cases stepped
          exact .inr rfl
        · cases stepped

/-- In order, the quota of the service runs like the quota on its own. -/
def quotaSimulation (config : TutorConfig) :
    Machine.Simulation ((tutorMachine config).restrict inOrder)
      ((quotaMachine config.limits : Machine (QuotaState Uuid IpAddr)
        (QuotaAction Uuid IpAddr)).restrict QuotaState.inOrder) where
  mapState := TutorState.quota
  initial initial := ⟨initial.1, initial.2.1⟩
  step := by
    intro state action after stepped
    obtain ⟨ordered, moved⟩ := Machine.restrict_next_eq_some.mp stepped
    obtain ⟨quotaAction, quotaMoved, quotaOrdered⟩ | unchanged := next_quota moved
    · refine ⟨[quotaAction], ?_⟩
      rw [Machine.run_cons_eq_some]
      exact ⟨after.quota, Machine.restrict_next_eq_some.mpr ⟨quotaOrdered ordered, quotaMoved⟩, rfl⟩
    · exact ⟨[], by simp [unchanged]⟩

/-! ## Requests and their turns -/

/-- A request and its call of `consume_ai_turn`: who asks passed the checks, and
something was sent exactly if a turn was taken. -/
structure Aligned (config : TutorConfig) (exchange : Exchange) (call : Call Uuid IpAddr) : Prop where
  admitted : config.accept exchange.headers exchange.payload = .ok call.owner
  peerIp : call.peerIp = clientIp exchange.headers exchange.peerIp
  sent : exchange.sent =
    if call.accepted then some (config.createRequest exchange.payload call.owner) else none
  consuming : exchange.progress = .consuming ↔ call.status = .waiting
  sending : ∀ remaining, exchange.progress = .sending remaining →
    call.status = .returned (.remaining remaining)
  answered : ∀ answer, exchange.progress = .answered answer →
    (call.status = .returned .limitReached ∧ answer = .error limitError) ∨
      ∃ remaining upstream, call.status = .returned (.remaining remaining) ∧
        answer = answerOf remaining upstream

/-- Requests and calls stand at the same places. -/
structure Inv (config : TutorConfig) (state : TutorState) : Prop where
  length : state.exchanges.length = state.quota.calls.length
  aligned : ∀ (index : Nat) exchange call, state.exchanges[index]? = some exchange →
    state.quota.calls[index]? = some call → Aligned config exchange call

/-- What becomes of a call settles its request. -/
theorem Aligned.consumed {exchange : Exchange} {call : Call Uuid IpAddr}
    (aligned : Aligned config exchange call) (waiting : call.status = .waiting)
    (result : TurnResult) :
    Aligned config (exchange.consumed config { call with status := .returned result })
      { call with status := .returned result } := by
  have unsent : exchange.sent = none := by
    rw [aligned.sent, Call.accepted, waiting]
    rfl
  cases result with
  | remaining turns =>
      exact {
        admitted := aligned.admitted
        peerIp := aligned.peerIp
        sent := rfl
        consuming := by simp [Exchange.consumed]
        sending := by simp [Exchange.consumed]
        answered := by simp [Exchange.consumed] }
  | limitReached =>
      exact {
        admitted := aligned.admitted
        peerIp := aligned.peerIp
        sent := unsent
        consuming := by simp [Exchange.consumed]
        sending := by simp [Exchange.consumed]
        answered := by simp [Exchange.consumed] }
  | overflowed =>
      exact {
        admitted := aligned.admitted
        peerIp := aligned.peerIp
        sent := unsent
        consuming := by simp [Exchange.consumed]
        sending := by simp [Exchange.consumed]
        answered := by simp [Exchange.consumed] }

/-- One request and its call are replaced. -/
theorem Inv.replace (inv : current.Inv config) {index : Nat} {exchange : Exchange}
    {call : Call Uuid IpAddr} {quota : QuotaState Uuid IpAddr}
    (calls : quota.calls = current.quota.calls.set index call)
    (aligned : Aligned config exchange call) :
    ({ current with quota }.setExchange index exchange).Inv config where
  length := by simp [setExchange, calls, inv.length]
  aligned position other otherCall foundExchange foundCall := by
    simp only [setExchange] at foundExchange foundCall
    rw [calls] at foundCall
    obtain ⟨same, rfl⟩ | ⟨different, old⟩ := Table.getElem?_set_cases foundExchange
    · obtain ⟨-, rfl⟩ | ⟨different, -⟩ := Table.getElem?_set_cases foundCall
      · exact aligned
      · exact absurd same different
    · obtain ⟨same, -⟩ | ⟨-, oldCall⟩ := Table.getElem?_set_cases foundCall
      · exact absurd same different
      · exact inv.aligned position other otherCall old oldCall

/-- A request moves on without its call. -/
theorem Inv.progress (inv : current.Inv config) {index : Nat} {exchange : Exchange}
    {remaining : Nat} {progress : Progress} (found : current.exchanges[index]? = some exchange)
    (sending : exchange.progress = .sending remaining)
    (later : progress = .dropped ∨ ∃ answer, progress = .answered (answerOf remaining answer)) :
    (current.setExchange index { exchange with progress }).Inv config := by
  have bound := Table.lt_length_of_getElem? found
  rw [inv.length] at bound
  have foundCall := List.getElem?_eq_getElem bound
  have aligned := inv.aligned index exchange _ found foundCall
  have returned := aligned.sending remaining sending
  have same : current.quota.calls = current.quota.calls.set index current.quota.calls[index] :=
    (List.set_getElem_self bound).symm
  refine inv.replace same {
    admitted := aligned.admitted
    peerIp := aligned.peerIp
    sent := aligned.sent
    consuming := ?_
    sending := ?_
    answered := ?_ }
  · rw [returned]
    obtain rfl | ⟨answer, rfl⟩ := later <;> simp
  · intro turns
    obtain rfl | ⟨answer, rfl⟩ := later <;> simp
  · intro answer isAnswer
    obtain rfl | ⟨reply, rfl⟩ := later
    · cases isAnswer
    · cases isAnswer
      exact .inr ⟨remaining, reply, returned, rfl⟩

/-- Every action keeps the invariant. -/
theorem Inv.next (inv : current.Inv config) (stepped : current.next config action = some after) :
    after.Inv config := by
  cases action with
  | tick seconds =>
      cases stepped
      exact ⟨inv.length, inv.aligned⟩
  | request headers peerIp payload =>
      simp only [TutorState.next] at stepped
      split at stepped
      · cases stepped
        exact ⟨inv.length, inv.aligned⟩
      next owner admitted =>
        cases stepped
        refine ⟨by simp [inv.length], fun index exchange call foundExchange foundCall => ?_⟩
        obtain old | ⟨last, rfl⟩ := Table.getElem?_append_singleton_cases foundExchange
        · have inside := Table.lt_length_of_getElem? old
          rw [inv.length] at inside
          rw [List.getElem?_append_left inside] at foundCall
          exact inv.aligned index exchange call old foundCall
        · obtain old | ⟨-, rfl⟩ := Table.getElem?_append_singleton_cases foundCall
          · have inside := Table.lt_length_of_getElem? old
            rw [last, inv.length] at inside
            exact absurd inside (Nat.lt_irrefl _)
          · exact {
              admitted := admitted
              peerIp := rfl
              sent := rfl
              consuming := by simp
              sending := by simp
              answered := by simp }
  | lock index =>
      simp only [TutorState.next] at stepped
      split at stepped
      · cases stepped
      next exchange found =>
        obtain ⟨quota, moved, settled⟩ := Option.bind_eq_some_iff.mp stepped
        obtain ⟨settledCall, foundSettled, rfl⟩ := Option.map_eq_some_iff.mp settled
        simp only [QuotaState.next] at moved
        split at moved
        next call foundCall =>
          split at moved
          next waiting =>
            cases moved
            have bound := Table.lt_length_of_getElem? foundCall
            simp only [QuotaState.setStatus, List.getElem?_set_self bound, Option.some.injEq]
              at foundSettled
            subst foundSettled
            exact inv.replace rfl ((inv.aligned index exchange call found foundCall).consumed waiting _)
          next => cases moved
        next => cases moved
  | upstream index answer =>
      simp only [TutorState.next] at stepped
      split at stepped
      · cases stepped
      next exchange found =>
        split at stepped
        next remaining sending =>
          cases stepped
          exact inv.progress found sending (.inr ⟨answer, rfl⟩)
        next => cases stepped
  | drop index =>
      simp only [TutorState.next] at stepped
      split at stepped
      · cases stepped
      next exchange found =>
        split at stepped
        next consuming =>
          obtain ⟨quota, moved, rfl⟩ := Option.map_eq_some_iff.mp stepped
          simp only [QuotaState.next] at moved
          split at moved
          next call foundCall =>
            split at moved
            next waiting =>
              cases moved
              have aligned := inv.aligned index exchange call found foundCall
              refine inv.replace rfl {
                admitted := aligned.admitted
                peerIp := aligned.peerIp
                sent := ?_
                consuming := by simp
                sending := by simp
                answered := by simp }
              rw [aligned.sent, Call.accepted, waiting]
              rfl
            next => cases moved
          next => cases moved
        next remaining sending =>
          cases stepped
          exact inv.progress found sending (.inl rfl)
        next => cases stepped

/-- The invariant holds in every state that is reached. -/
def invariant (config : TutorConfig) : (tutorMachine config).Invariant where
  Inv := Inv config
  initial := by
    rintro state ⟨-, noCalls, noExchanges, -⟩
    exact ⟨by rw [noCalls, noExchanges]; rfl, by simp [noExchanges]⟩
  preserved inv stepped := inv.next stepped

/-! ## What is sent -/

/-- A request to the model that the server may send for these headers. -/
structure Authorized (config : TutorConfig) (headers : HeaderMap) (payload : AiRequest)
    (owner : Uuid) (request : OpenAiRequest) : Prop where
  session : verifySession config.hmac config.sessionSecret headers = .ok owner
  accepts : Accepts config.render payload
  configured : config.openaiApiKey ≠ []
  request : request = config.createRequest payload owner

/-- A request that is accepted is authorized. -/
theorem authorized_of_accept {headers : HeaderMap} {payload : AiRequest} {owner : Uuid}
    (admitted : config.accept headers payload = .ok owner) :
    Authorized config headers payload owner (config.createRequest payload owner) := by
  rw [TutorConfig.accept] at admitted
  cases session : verifySession config.hmac config.sessionSecret headers with
  | error error =>
      rw [session] at admitted
      cases admitted
  | ok found =>
      rw [session] at admitted
      cases valid : validateAiRequest config.render payload with
      | error error =>
          rw [valid] at admitted
          cases admitted
      | ok _ =>
          rw [valid] at admitted
          change (if config.openaiApiKey.isEmpty then _ else Except.ok found) = _ at admitted
          split at admitted
          · cases admitted
          next configured =>
            cases admitted
            refine ⟨session, validateAiRequest_eq_ok.mp valid, fun empty => ?_, rfl⟩
            rw [empty] at configured
            exact configured rfl

/-- The requests that were sent for the calls that `select` chooses. -/
def sentCount (state : TutorState) (select : Call Uuid IpAddr → Bool) : Nat :=
  (state.exchanges.zip state.quota.calls).countP fun entry => entry.1.sent.isSome && select entry.2

/-- As many requests are sent as turns are taken. -/
theorem Inv.sentCount_eq (inv : current.Inv config) (select : Call Uuid IpAddr → Bool) :
    current.sentCount select = current.quota.accepted select := by
  have calls : (current.exchanges.zip current.quota.calls).map Prod.snd = current.quota.calls :=
    List.map_snd_zip inv.length.ge
  rw [sentCount, QuotaState.accepted]
  conv_rhs => rw [← calls]
  rw [List.countP_map]
  apply List.countP_congr
  rintro ⟨exchange, call⟩ member
  obtain ⟨index, found⟩ := List.mem_iff_getElem?.mp member
  obtain ⟨foundExchange, foundCall⟩ := List.getElem?_zip_eq_some.mp found
  have aligned := inv.aligned index exchange call foundExchange foundCall
  simp only [Function.comp_apply, aligned.sent]
  cases call.accepted <;> rfl

/-- Whatever requests come in and whatever becomes of them: what was sent to the
model was sent once for an accepted turn, for the owner of a signed session,
with a payload that was accepted; and where the owner's turn is answered with
a stream, the answer says how many turns remain after it. -/
theorem sent_authorized (config : TutorConfig) {state : TutorState}
    (reachable : (tutorMachine config).Reachable state) :
    (∀ (index : Nat) exchange request, state.exchanges[index]? = some exchange →
      exchange.sent = some request → ∃ call remaining,
        state.quota.calls[index]? = some call ∧ call.status = .returned (.remaining remaining) ∧
          call.peerIp = clientIp exchange.headers exchange.peerIp ∧
          Authorized config exchange.headers exchange.payload call.owner request ∧
          ∀ response, exchange.progress = .answered (.ok response) → response.body = .stream →
            response.remaining = some (toString remaining).toList) ∧
    ∀ select, state.sentCount select = state.quota.accepted select := by
  have inv : state.Inv config := (invariant config).of_reachable reachable
  refine ⟨fun index exchange request found sent => ?_, inv.sentCount_eq⟩
  have bound := Table.lt_length_of_getElem? found
  rw [inv.length] at bound
  have foundCall := List.getElem?_eq_getElem bound
  have aligned := inv.aligned index exchange _ found foundCall
  rw [aligned.sent] at sent
  split at sent
  next accepted =>
    cases sent
    have returned : ∃ remaining, state.quota.calls[index].status =
        .returned (.remaining remaining) := by
      simp only [Call.accepted] at accepted
      split at accepted
      next remaining status => exact ⟨remaining, status⟩
      next => cases accepted
    obtain ⟨remaining, status⟩ := returned
    refine ⟨_, remaining, foundCall, status, aligned.peerIp,
      authorized_of_accept aligned.admitted, fun response answered streams => ?_⟩
    obtain ⟨-, failed⟩ | ⟨turns, upstream, again, answer⟩ := aligned.answered _ answered
    · cases failed
    · rw [status] at again
      cases again
      cases upstream with
      | failed => cases answer
      | unsuccessful status text =>
          cases answer
          cases streams
      | streaming =>
          cases answer
          rfl
  next => cases sent

end TutorState

/-! ## The turns that remain -/

namespace QuotaState

variable {limits : Limits} {current after : QuotaState Uuid IpAddr}
  {action : QuotaAction Uuid IpAddr}

/-- The turns that a call reports, if it reports any. -/
def turnsLeft : CallStatus → Option Nat
  | .returned (.remaining turns) => some turns
  | _ => none

/-- What a call of a session tells the client of the turns that are left. -/
def reported (day : Nat) (owner : Uuid) (call : Call Uuid IpAddr) : Option Nat :=
  if ofSession day owner call then turnsLeft call.status else none

/-- What is reported to a session on a day. -/
def remaining (state : QuotaState Uuid IpAddr) (day : Nat) (owner : Uuid) : List Nat :=
  state.calls.filterMap (reported day owner)

/-- What is left after each of the first turns. -/
def countdown (limit turns : Nat) : List Nat :=
  (List.range turns).map fun turn => limit - (turn + 1)

/-- One more turn adds one more number. -/
theorem countdown_succ (limit turns : Nat) :
    countdown limit (turns + 1) = countdown limit turns ++ [limit - (turns + 1)] := by
  rw [countdown, List.range_succ, List.map_append]
  rfl

/-- Every session was told once how many turns are left after each of its turns. -/
structure Numbered (limits : Limits) (state : QuotaState Uuid IpAddr) : Prop where
  counted : state.Counted limits
  numbers : ∀ day owner, (state.remaining day owner).Perm
    (countdown limits.aiDailyLimit (state.accepted (ofSession day owner)))

/-- An entry that reported nothing is replaced. -/
theorem filterMap_set_perm {α β : Type} {table : List α} {index : Nat} {before : α}
    (report : α → Option β) (after : α) (found : table[index]? = some before)
    (silent : report before = none) :
    ((table.set index after).filterMap report).Perm
      (table.filterMap report ++ (report after).toList) := by
  induction table generalizing index with
  | nil => cases found
  | cons entry rest ih =>
      cases index with
      | zero =>
          cases found
          rw [List.set_cons_zero, List.filterMap_cons_none silent]
          cases reports : report after with
          | none => simp [reports]
          | some value =>
              rw [List.filterMap_cons_some reports]
              exact List.perm_append_singleton value _ |>.symm
      | succ index =>
          have later := @ih index found
          rw [List.set_cons_succ]
          cases reports : report entry with
          | none => rwa [List.filterMap_cons_none reports, List.filterMap_cons_none reports]
          | some value =>
              rw [List.filterMap_cons_some reports, List.filterMap_cons_some reports]
              exact later.cons value

/-- A call that was waiting reports what it returns. -/
theorem remaining_setStatus {index : Nat} {call : Call Uuid IpAddr} (status : CallStatus)
    (usage : UsageCounters Uuid IpAddr) (found : current.calls[index]? = some call)
    (waiting : call.status = .waiting) (day : Nat) (owner : Uuid) :
    ((current.setStatus index call status usage).remaining day owner).Perm
      (current.remaining day owner ++
        (if ofSession day owner call then turnsLeft status else none).toList) := by
  refine filterMap_set_perm (reported day owner) { call with status } found ?_
  rw [reported, waiting]
  exact ite_self none

/-- A call that settles counts in the countdown of its session. -/
theorem remaining_settle {limit index : Nat} {call : Call Uuid IpAddr} {status : CallStatus}
    {usage : UsageCounters Uuid IpAddr} {day : Nat} {owner : Uuid}
    (before : (current.remaining day owner).Perm
      (countdown limit (current.accepted (ofSession day owner))))
    (found : current.calls[index]? = some call) (waiting : call.status = .waiting)
    (tells : turnsLeft status = if ({ call with status } : Call Uuid IpAddr).accepted then
      some (limit - (current.accepted (ofSession call.day call.owner) + 1)) else none) :
    ((current.setStatus index call status usage).remaining day owner).Perm (countdown limit
      ((current.setStatus index call status usage).accepted (ofSession day owner))) := by
  have turns : (current.setStatus index call status usage).accepted (ofSession day owner) =
      current.accepted (ofSession day owner) +
        (({ call with status } : Call Uuid IpAddr).accepted && ofSession day owner call).toNat :=
    accepted_setStatus found waiting rfl
  refine (remaining_setStatus status usage found waiting day owner).trans ?_
  rw [turns, tells]
  by_cases own : ofSession day owner call = true
  · obtain ⟨rfl, rfl⟩ : call.day = day ∧ call.owner = owner := by simpa [ofSession] using own
    cases ({ call with status } : Call Uuid IpAddr).accepted with
    | false => simpa using before
    | true =>
        simp only [own, Bool.and_self, Bool.toNat_true, if_true, Option.toList_some]
        rw [countdown_succ]
        exact before.append_right _
  · rw [Bool.eq_false_iff.mpr own, Bool.and_false]
    simpa using before

/-- Every action in order keeps the numbers. -/
theorem Numbered.next (numbered : current.Numbered limits) (ordered : current.inOrder action = true)
    (stepped : current.next limits action = some after) : after.Numbered limits := by
  refine ⟨numbered.counted.step ordered stepped, fun day owner => ?_⟩
  have before := numbered.numbers day owner
  cases action with
  | tick seconds =>
      cases stepped
      exact before
  | begin starter peerIp =>
      cases stepped
      have silent : reported day owner ⟨starter, peerIp, current.clock / 86400, .waiting⟩ = none :=
        ite_self none
      simpa [remaining, accepted, Call.accepted, silent] using before
  | lock index =>
      simp only [QuotaState.next] at stepped
      split at stepped
      next call found =>
        split at stepped <;> cases stepped
        next waiting =>
          have notPast : current.usage.global.day ≤ call.day := by
            simpa [inOrder, found] using ordered
          refine remaining_settle before found waiting ?_
          obtain ⟨-, ⟨refused, -⟩ | ⟨-, -, -, remains, -⟩⟩ :=
            consumeAiTurn_cases limits current.usage call.owner call.peerIp call.day
          · rw [refused]
            rfl
          · rw [numbered.counted.accepted_session notPast, remains]
            rfl
      next => cases stepped
  | cancel index =>
      simp only [QuotaState.next] at stepped
      split at stepped
      next call found =>
        split at stepped <;> cases stepped
        next waiting =>
          refine remaining_settle before found waiting ?_
          rfl
      next => cases stepped

/-- In runs in order the numbers are as counted. -/
def numberedInvariant (limits : Limits) :
    ((quotaMachine limits : Machine (QuotaState Uuid IpAddr) (QuotaAction Uuid IpAddr)).restrict
      inOrder).Invariant where
  Inv := Numbered limits
  initial := by
    rintro state ⟨unused, noCalls⟩
    refine ⟨Counted.initial unused noCalls, fun day owner => ?_⟩
    rw [remaining, accepted, noCalls]
    exact .nil
  preserved := by
    intro state action after numbered stepped
    obtain ⟨ordered, moved⟩ := Machine.restrict_next_eq_some.mp stepped
    exact numbered.next ordered moved

end QuotaState

namespace TutorState

/-- In every run in which no request is overtaken across midnight, what is sent to
the model stays within the daily limits of each session, each address and the
server; and a session is told once how many turns are left after each of them. -/
theorem sent_within_limits (config : TutorConfig) {state : TutorState}
    (reachable : ((tutorMachine config).restrict inOrder).Reachable state) :
    (∀ day owner,
      state.sentCount (QuotaState.ofSession day owner) ≤ config.limits.aiDailyLimit ∧
        (state.quota.remaining day owner).Perm (QuotaState.countdown config.limits.aiDailyLimit
          (state.sentCount (QuotaState.ofSession day owner)))) ∧
    (∀ day peerIp,
      state.sentCount (QuotaState.ofIp day peerIp) ≤ config.limits.aiDailyLimit) ∧
    ∀ day, state.sentCount (QuotaState.ofDay day) ≤ config.limits.aiGlobalDailyLimit := by
  have inv : state.Inv config := by
    obtain ⟨start, actions, initial, ran⟩ := reachable
    refine Machine.run_preserves (Inv config) ?_ ((invariant config).initial initial) ran
    intro current action after inv stepped
    exact inv.next (Machine.restrict_next_eq_some.mp stepped).2
  have numbered : state.quota.Numbered config.limits :=
    (QuotaState.numberedInvariant config.limits).of_reachable
      ((quotaSimulation config).reachable reachable)
  have within := numbered.counted.within
  refine ⟨fun day owner => ?_, fun day peerIp => ?_, fun day => ?_⟩
  · rw [inv.sentCount_eq]
    exact ⟨within.session day owner, numbered.numbers day owner⟩
  · rw [inv.sentCount_eq]
    exact within.ip day peerIp
  · rw [inv.sentCount_eq]
    exact within.global day

/-! ## A run -/

/-- A server with one turn a day. -/
def smallTutor : TutorConfig where
  openaiApiKey := "key".toList
  openaiModel := "model".toList
  sessionSecret := []
  limits := QuotaState.oneTurn
  hmac := someHmac
  render _ := []

theorem length_sevens : (List.replicate 16 (7 : UInt8)).length = 16 := List.length_replicate

def learner : Uuid := ⟨List.replicate 16 7, length_sevens⟩

def learnerHeaders : HeaderMap := [(sessionHeader, asBytes (signSession someHmac [] learner))]

def question : AiRequest where
  message := "Why?".toList
  previousResponseId := none
  workspace := []
  currentFile := none
  selection := none
  lessonId := none
  runtime := none
  toolOutputs := none

def unusedTutor : TutorState := ⟨⟨0, UsageCounters.default, []⟩, [], []⟩

/-- Two questions, of which one is sent and streamed, and a request without a session. -/
def askTwice : List TutorAction :=
  [.request learnerHeaders (.v4 (Vector.replicate 4 1)) question,
    .request learnerHeaders (.v4 (Vector.replicate 4 1)) question,
    .request [] (.v4 (Vector.replicate 4 1)) question, .lock 1, .lock 0, .upstream 1 .streaming]

/-- The actions are possible in order, and one question is sent. -/
theorem asked : ∃ state,
    ((tutorMachine smallTutor).restrict inOrder).run unusedTutor askTwice = some state ∧
      state.sentCount (QuotaState.ofSession 0 learner) = 1 := by
  have counted : (((tutorMachine smallTutor).restrict inOrder).run unusedTutor askTwice).map
      (fun state => state.sentCount (QuotaState.ofSession 0 learner)) = some 1 := by decide +kernel
  obtain ⟨state, ran, one⟩ := Option.map_eq_some_iff.mp counted
  exact ⟨state, ran, one⟩

theorem askTwice_within_limits : ∃ state : TutorState,
    state.sentCount (QuotaState.ofSession 0 learner) = 1 ∧
      (state.quota.remaining 0 learner).Perm (QuotaState.countdown 1 1) := by
  obtain ⟨state, ran, one⟩ := asked
  have limited := ((sent_within_limits smallTutor ⟨_, _, ⟨rfl, rfl, rfl, rfl⟩, ran⟩).1 0 learner).2
  rw [one] at limited
  exact ⟨state, one, limited⟩

theorem askTwice_authorized : ∃ state : TutorState,
    state.sentCount (QuotaState.ofSession 0 learner) = 1 ∧
      state.quota.accepted (QuotaState.ofSession 0 learner) = 1 := by
  have counted : ((tutorMachine smallTutor).run unusedTutor askTwice).map
      (fun state => state.sentCount (QuotaState.ofSession 0 learner)) = some 1 := by decide +kernel
  obtain ⟨state, ran, one⟩ := Option.map_eq_some_iff.mp counted
  have counts := (sent_authorized smallTutor ⟨_, _, ⟨rfl, rfl, rfl, rfl⟩, ran⟩).2
    (QuotaState.ofSession 0 learner)
  exact ⟨state, one, counts.symm.trans one⟩

end TutorState
end Solpg.Server.Routes.Learning
