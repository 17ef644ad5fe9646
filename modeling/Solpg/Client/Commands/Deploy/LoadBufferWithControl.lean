import Solpg.Std.Machine
import Solpg.Std.Table

/-!
# Loading a buffer under control

`loadBufferWithControl`: each time the learner continues, the function calls itself, and
the promise of the call before waits for the new one. A call's run of `loadBuffer`, its
debounced listener of the deploy state and its prompt go on side by side.
-/

namespace Solpg.Client.Commands.Deploy

open Solpg.Std

/-- The states of a deployment, as the page shares them. -/
inductive DeployState where
  | ready
  | loading
  | paused
  | cancelled
  deriving DecidableEq, Repr

/-- How a promise has ended, if it has. -/
inductive Settlement where
  | pending
  | resolved (cancelled : Bool)
  | rejected
  deriving DecidableEq, Repr

/-- The run of `loadBuffer` in a call. -/
inductive RunPhase where
  /-- The call awaits the terminal. -/
  | starting
  | running
  | ended
  deriving DecidableEq, Repr

/-- A call of `loadBufferWithControl`. `timer` is what the debounced listener is to be called
with, also when the listener has been removed since. -/
structure LoadCall where
  phase : RunPhase
  aborted : Bool
  listening : Bool
  prevState : DeployState
  timer : Option DeployState
  prompting : Bool
  deriving DecidableEq, Repr

/-- How it went: the end of the last run that was not aborted, or the learner's answer. -/
inductive Verdict where
  | succeeded
  | cancelled
  | failed
  deriving DecidableEq, Repr

/-- A verdict settles the promise of its call. -/
def Verdict.settlement : Verdict → Settlement
  | .succeeded => .resolved false
  | .cancelled => .resolved true
  | .failed => .rejected

/-- The calls and their promises, the outermost first. -/
structure Control where
  deployState : DeployState
  calls : List LoadCall
  promises : List Settlement
  verdict : Option Verdict
  deriving DecidableEq, Repr

/-- What happens to a deployment, in any order. -/
inductive ControlEvent where
  /-- The deploy command, which pauses and continues. -/
  | deploy
  | started (call : Nat)
  /-- The timer of the listener fires. -/
  | changed (call : Nat)
  | runEnds (call : Nat) (succeeded : Bool)
  | answered (shouldContinue : Bool)

/-- A change event: the listener is debounced. -/
def LoadCall.hear (state : DeployState) (call : LoadCall) : LoadCall :=
  if call.listening then { call with timer := some state } else call

/-- A call stops listening. -/
def LoadCall.dispose (call : LoadCall) : LoadCall := { call with listening := false }

/-- Resolve the promise of a call, and so those of the calls that wait for it. -/
def resolve (cancelled : Bool) : Nat → List Settlement → List Settlement
  | 0, promises =>
      if promises[0]? = some .pending then promises.set 0 (.resolved cancelled) else promises
  | call + 1, promises =>
      if promises[call + 1]? = some .pending then
        resolve cancelled call (promises.set (call + 1) (.resolved cancelled))
      else promises

/-- Reject the promise of a call. The call that waits for it has no handler for this. -/
def reject (call : Nat) (promises : List Settlement) : List Settlement :=
  if promises[call]? = some .pending then promises.set call .rejected else promises

namespace Control

variable (control : Control)

/-- `PgGlobal.update`, which dispatches an event when the value changes. -/
def update (state : DeployState) : Control :=
  if control.deployState = state then control
  else { control with deployState := state, calls := control.calls.map (LoadCall.hear state) }

/-- One call changes. -/
def setCall (index : Nat) (call : LoadCall) : Control :=
  { control with calls := control.calls.set index call }

/-- `loadBufferWithControl` up to its first await. -/
def call : Control :=
  { control with
    calls := control.calls ++ [⟨.starting, false, false, .ready, none, false⟩]
    promises := control.promises ++ [.pending] }

/-- `handle` of a call from the answer of its prompt. -/
def answer (index : Nat) (call : LoadCall) (shouldContinue : Bool) : Control :=
  let control := control.setCall index { call.dispose with prompting := false }
  if shouldContinue then (control.update .loading).call
  else
    let control := control.update .cancelled
    { control with
      promises := resolve true index control.promises
      verdict := some .cancelled }

/-- The prompt that the terminal shows gets an answer. -/
def input (shouldContinue : Bool) : Control :=
  match control.calls.findIdx? (·.prompting) with
  | none => control
  | some index =>
      match control.calls[index]? with
      | none => control
      | some call => control.answer index call shouldContinue

/-- The listener of a call with the state that it was debounced with. A call that has
aborted its run types the answer into the terminal. -/
def listen (index : Nat) (call : LoadCall) (state : DeployState) : Control :=
  let heard := { call with timer := none, prevState := state }
  if call.prevState ≠ state ∧ (call.prevState = .paused ∨ state = .paused) then
    if call.aborted then (control.setCall index heard).input true
    else control.setCall index { heard with aborted := true, prompting := true }
  else control.setCall index heard

/-- A run ends. Nothing follows when it was aborted. -/
def finish (index : Nat) (call : LoadCall) (succeeded : Bool) : Control :=
  if call.aborted then control.setCall index { call with phase := .ended }
  else
    let control := control.setCall index { call.dispose with phase := .ended }
    if succeeded then
      { control with
        promises := resolve false index control.promises
        verdict := some .succeeded }
    else
      { control with
        promises := reject index control.promises
        verdict := some .failed }

/-- What an event makes of the calls; `none` is an event that cannot happen. -/
def next : ControlEvent → Option Control
  | .deploy =>
      match control.deployState with
      | .loading => some (control.update .paused)
      | .paused => some (control.update .loading)
      | .ready | .cancelled => none
  | .started index =>
      match control.calls[index]? with
      | none => none
      | some call =>
          -- The listener is called with the state there is.
          if call.phase = .starting then
            some (control.setCall index { call with
              phase := .running
              listening := true
              prevState := control.deployState
              timer := some control.deployState })
          else none
  | .changed index =>
      match control.calls[index]? with
      | none => none
      | some call => call.timer.map (control.listen index call)
  | .runEnds index succeeded =>
      match control.calls[index]? with
      | none => none
      | some call =>
          if call.phase = .running then some (control.finish index call succeeded) else none
  | .answered shouldContinue =>
      if control.calls.any (·.prompting) then some (control.input shouldContinue) else none

/-- The outermost call has been made. -/
def machine : Machine Control ControlEvent where
  Initial control := ∃ state, control = ⟨state, [⟨.starting, false, false, .ready, none, false⟩],
    [.pending], none⟩
  next := next

/-- No run and no prompt is pending. -/
def Idle : Prop := ∀ call ∈ control.calls, call.phase = .ended ∧ call.prompting = false

instance : Decidable control.Idle := inferInstanceAs (Decidable (∀ call ∈ control.calls, _))

/-- When nothing is pending, the outermost promise is settled by how it went. -/
def Settles : Prop :=
  control.Idle → ∃ verdict, control.verdict = some verdict ∧
    control.promises[0]? = some verdict.settlement

/-- A run that fails without having been aborted is the outermost one. And a pause is
handled while the run of its call is under way. -/
def Forwarded (control : Control) : ControlEvent → Prop
  | .runEnds index false => ∀ call, control.calls[index]? = some call → call.aborted = false →
      index = 0
  | .changed index => ∀ call state, control.calls[index]? = some call → call.timer = some state →
      call.prevState ≠ state → call.prevState = .paused ∨ state = .paused → call.aborted = false →
        call.phase = .running
  | _ => True

end Control

/-! ## Promises -/

/-- When all promises down to a call are pending, the first is settled with it. -/
theorem resolve_outermost {cancelled : Bool} {index : Nat} {promises : List Settlement}
    (pending : ∀ k ≤ index, promises[k]? = some .pending) :
    (resolve cancelled index promises)[0]? = some (.resolved cancelled) := by
  induction index generalizing promises with
  | zero =>
      have first := pending 0 le_rfl
      rw [resolve, if_pos first, List.getElem?_set_self (Table.lt_length_of_getElem? first)]
  | succ index ih =>
      rw [resolve, if_pos (pending _ le_rfl)]
      refine ih fun k below => ?_
      rw [List.getElem?_set_ne (by omega)]
      exact pending k (by omega)

/-! ## Calls -/

namespace LoadCall

variable {call : LoadCall}

/-- Its run can still end without an abort, or its prompt is open. -/
def Open (call : LoadCall) : Prop :=
  call.aborted = false ∧ call.phase ≠ .ended ∧ call.prompting = false ∨
    call.aborted = true ∧ call.phase ≠ .starting ∧ call.prompting = true

/-- Nothing comes of the call any more. -/
def Closed (call : LoadCall) : Prop :=
  call.prompting = false ∧ call.phase ≠ .starting ∧ (call.aborted = true ∨ call.phase = .ended)

/-- An open call stays open when it hears of a state. -/
theorem Open.hear (opened : call.Open) (state : DeployState) : (call.hear state).Open := by
  unfold LoadCall.hear
  split <;> exact opened

/-- A closed call stays closed. -/
theorem Closed.hear (closed : call.Closed) (state : DeployState) : (call.hear state).Closed := by
  unfold LoadCall.hear
  split <;> exact closed

end LoadCall

namespace Control

variable {control after : Control} {index : Nat}

/-- One call is open, and what it comes to settles all promises. -/
structure Waiting (control : Control) (index : Nat) (call : LoadCall) : Prop where
  found : control.calls[index]? = some call
  opened : call.Open
  closed : ∀ k other, control.calls[k]? = some other → k ≠ index → other.Closed
  pending : ∀ k < control.calls.length, control.promises[k]? = some .pending
  verdict : control.verdict = none
  size : control.promises.length = control.calls.length

/-- It is known how it went. -/
structure Over (control : Control) (verdict : Verdict) : Prop where
  closed : ∀ call ∈ control.calls, call.Closed
  known : control.verdict = some verdict
  settled : control.promises[0]? = some verdict.settlement

/-- Nothing is open, and it is not decided yet how it went. -/
structure Undecided (control : Control) : Prop where
  closed : ∀ call ∈ control.calls, call.Closed
  pending : ∀ k < control.calls.length, control.promises[k]? = some .pending
  verdict : control.verdict = none
  size : control.promises.length = control.calls.length

/-- One call waits, or the deployment has its verdict. -/
def Inv (control : Control) : Prop :=
  (∃ index call, control.Waiting index call) ∨ ∃ verdict, control.Over verdict

/-- The calls with one of them changed. -/
theorem setCall_calls (index : Nat) (call : LoadCall) :
    (control.setCall index call).calls = control.calls.set index call := rfl

/-- The open call changes, and stays open. -/
theorem Waiting.setOpen {call next : LoadCall} (waiting : control.Waiting index call)
    (opened : next.Open) : (control.setCall index next).Waiting index next where
  found := by
    rw [setCall_calls, List.getElem?_set_self (Table.lt_length_of_getElem? waiting.found)]
  opened := opened
  closed k other found different := by
    rw [setCall_calls, List.getElem?_set_ne different.symm] at found
    exact waiting.closed k other found different
  pending k below := waiting.pending k (by simpa [setCall_calls] using below)
  verdict := waiting.verdict
  size := waiting.size.trans (List.length_set ..).symm

/-- The open call closes. -/
theorem Waiting.setClosed {call next : LoadCall} (waiting : control.Waiting index call)
    (closed : next.Closed) : (control.setCall index next).Undecided where
  closed other member := by
    obtain ⟨k, found⟩ := List.mem_iff_getElem?.mp member
    rcases Table.getElem?_set_cases found with ⟨-, rfl⟩ | ⟨different, before⟩
    · exact closed
    · exact waiting.closed k other before different
  pending k below := waiting.pending k (by simpa [setCall_calls] using below)
  verdict := waiting.verdict
  size := waiting.size.trans (List.length_set ..).symm

/-- Another call changes, and stays closed. -/
theorem Waiting.setOther {index k : Nat} {call next : LoadCall} (waiting : control.Waiting index call)
    (different : k ≠ index) (closed : next.Closed) : (control.setCall k next).Waiting index call where
  found := by
    rw [setCall_calls, List.getElem?_set_ne different]
    exact waiting.found
  opened := waiting.opened
  closed j other found apart := by
    rcases Table.getElem?_set_cases found with ⟨-, rfl⟩ | ⟨-, before⟩
    · exact closed
    · exact waiting.closed j other before apart
  pending j below := waiting.pending j (by simpa [setCall_calls] using below)
  verdict := waiting.verdict
  size := waiting.size.trans (List.length_set ..).symm

/-- The deployment stays over. -/
theorem Over.setCall {next : LoadCall} {verdict : Verdict} (ended : control.Over verdict)
    (closed : next.Closed) : (control.setCall index next).Over verdict where
  closed other member := by
    rcases List.mem_or_eq_of_mem_set member with before | rfl
    · exact ended.closed other before
    · exact closed
  known := ended.known
  settled := ended.settled

/-- While a call waits, a new state of the deployment keeps the invariant. -/
theorem Waiting.update {call : LoadCall} (waiting : control.Waiting index call)
    (state : DeployState) : (control.update state).Inv := by
  unfold Control.update
  split
  · exact .inl ⟨index, call, waiting⟩
  · refine .inl ⟨index, call.hear state, ?_, waiting.opened.hear state, ?_, ?_, waiting.verdict, ?_⟩
    · simp [waiting.found]
    · intro k other found different
      obtain ⟨before, there, rfl⟩ := Option.map_eq_some_iff.mp ((List.getElem?_map ..).symm.trans found)
      exact (waiting.closed k before there different).hear state
    · simpa using waiting.pending
    · simpa using waiting.size

/-- A new state of the deployment decides nothing. -/
theorem Undecided.update (undecided : control.Undecided) (state : DeployState) :
    (control.update state).Undecided := by
  unfold Control.update
  split
  · exact undecided
  · refine ⟨?_, ?_, undecided.verdict, ?_⟩
    · intro call member
      obtain ⟨before, there, rfl⟩ := List.mem_map.mp member
      exact (undecided.closed before there).hear state
    · simpa using undecided.pending
    · simpa using undecided.size

/-- A deployment that is over stays so. -/
theorem Over.update {verdict : Verdict} (ended : control.Over verdict) (state : DeployState) :
    (control.update state).Over verdict := by
  unfold Control.update
  split
  · exact ended
  · refine ⟨?_, ended.known, ended.settled⟩
    intro call member
    obtain ⟨before, there, rfl⟩ := List.mem_map.mp member
    exact (ended.closed before there).hear state

/-- The learner continues with a new call. -/
theorem Undecided.call (undecided : control.Undecided) :
    control.call.Waiting control.calls.length ⟨.starting, false, false, .ready, none, false⟩ where
  found := by simp [Control.call]
  opened := .inl ⟨rfl, nofun, rfl⟩
  closed k other found different := by
    rcases Table.getElem?_append_singleton_cases found with before | ⟨last, -⟩
    · exact undecided.closed other (List.mem_of_getElem? before)
    · exact absurd last different
  pending k below := by
    have bound : k < control.calls.length + 1 := by simpa [Control.call] using below
    by_cases last : k = control.calls.length
    · simp [Control.call, last, ← undecided.size]
    · simp only [Control.call]
      rw [List.getElem?_append_left (by rw [undecided.size]; omega)]
      exact undecided.pending k (by omega)
  verdict := undecided.verdict
  size := by simp [Control.call, undecided.size]

/-- A call resolves its promise, and with it all that wait. -/
theorem Undecided.resolve (undecided : control.Undecided) (cancelled : Bool)
    {verdict : Verdict} (settles : verdict.settlement = .resolved cancelled)
    (inside : index < control.calls.length) :
    Control.Over { control with
      promises := Deploy.resolve cancelled index control.promises
      verdict := some verdict } verdict where
  closed := undecided.closed
  known := rfl
  settled := by
    rw [settles]
    exact resolve_outermost fun k below => undecided.pending k (by omega)

/-! ## Steps -/

/-- The answer of the open prompt. -/
theorem Waiting.answer {call : LoadCall} (waiting : control.Waiting index call)
    (aborted : call.aborted = true) (started : call.phase ≠ .starting) (shouldContinue : Bool) :
    (control.answer index call shouldContinue).Inv := by
  have closed : LoadCall.Closed { call.dispose with prompting := false } :=
    ⟨rfl, started, .inl aborted⟩
  have undecided := waiting.setClosed closed
  unfold Control.answer
  cases shouldContinue with
  | true => exact .inl ⟨_, _, (undecided.update .loading).call⟩
  | false =>
      refine .inr ⟨.cancelled, (undecided.update .cancelled).resolve true rfl ?_⟩
      have inside := Table.lt_length_of_getElem? waiting.found
      unfold Control.update
      split <;> simpa [setCall_calls] using inside

/-- What is typed in answers the open prompt, if there is one. -/
theorem Inv.input (inv : control.Inv) (shouldContinue : Bool) : (control.input shouldContinue).Inv := by
  unfold Control.input
  split
  case h_1 => exact inv
  case h_2 index prompt =>
    split
    case h_1 => exact inv
    case h_2 call found =>
      have prompting : call.prompting = true := by
        have there := List.findIdx?_eq_some_iff_getElem.mp prompt
        obtain ⟨inside, prompting, -⟩ := there
        obtain rfl : control.calls[index] = call := by
          simpa [List.getElem?_eq_getElem inside] using found
        exact prompting
      rcases inv with ⟨k, open_, waiting⟩ | ⟨verdict, ended⟩
      · by_cases same : index = k
        · subst same
          obtain rfl : open_ = call := Option.some.inj (waiting.found.symm.trans found)
          rcases waiting.opened with ⟨-, -, quiet⟩ | ⟨aborted, started, -⟩
          · cases quiet.symm.trans prompting
          · exact waiting.answer aborted started shouldContinue
        · cases (waiting.closed index call found same).1.symm.trans prompting
      · cases (ended.closed call (List.mem_of_getElem? found)).1.symm.trans prompting

/-- A call of which nothing comes changes, and stays so. -/
theorem Inv.setClosed (inv : control.Inv) {call next : LoadCall}
    (found : control.calls[index]? = some call) (was : ¬ call.Open) (closed : next.Closed) :
    (control.setCall index next).Inv := by
  rcases inv with ⟨k, open_, waiting⟩ | ⟨verdict, ended⟩
  · by_cases same : index = k
    · subst same
      obtain rfl : open_ = call := Option.some.inj (waiting.found.symm.trans found)
      exact absurd waiting.opened was
    · exact .inl ⟨k, open_, waiting.setOther same closed⟩
  · exact .inr ⟨verdict, ended.setCall closed⟩

/-- A closed call is not open. -/
theorem Closed.not_open {call : LoadCall} (closed : call.Closed) : ¬ call.Open := by
  rintro (⟨unaborted, unended, -⟩ | ⟨-, -, prompting⟩)
  · rcases closed.2.2 with aborted | ended
    · cases unaborted.symm.trans aborted
    · exact unended ended
  · cases closed.1.symm.trans prompting

/-- Every call is open or closed. -/
theorem Inv.open_or_closed (inv : control.Inv) {call : LoadCall}
    (found : control.calls[index]? = some call) : control.Waiting index call ∨ call.Closed := by
  rcases inv with ⟨k, open_, waiting⟩ | ⟨verdict, ended⟩
  · by_cases same : index = k
    · subst same
      obtain rfl : open_ = call := Option.some.inj (waiting.found.symm.trans found)
      exact .inl waiting
    · exact .inr (waiting.closed index call found same)
  · exact .inr (ended.closed call (List.mem_of_getElem? found))

/-- A listener that fires keeps the invariant unless an answer is lost. -/
theorem Inv.listen (inv : control.Inv) {call : LoadCall} {state : DeployState}
    (found : control.calls[index]? = some call) (timer : call.timer = some state)
    (forwarded : control.Forwarded (.changed index)) : (control.listen index call state).Inv := by
  -- What the listener has heard leaves a call open or closed.
  have kept : (control.setCall index { call with timer := none, prevState := state }).Inv := by
    rcases inv.open_or_closed found with waiting | closed
    · exact .inl ⟨index, _, waiting.setOpen waiting.opened⟩
    · exact inv.setClosed found (Closed.not_open closed) closed
  unfold Control.listen
  simp only []
  split
  case isFalse => exact kept
  case isTrue pauses =>
    split
    case isTrue aborted => exact kept.input true
    case isFalse unaborted =>
      have running := forwarded call state found timer pauses.1 pauses.2 (by simpa using unaborted)
      rcases inv.open_or_closed found with waiting | closed
      · exact .inl ⟨index, _, waiting.setOpen (.inr ⟨rfl, by simp [running], rfl⟩)⟩
      · rcases closed.2.2 with aborted | ended
        · exact absurd aborted unaborted
        · cases running.symm.trans ended

/-- A run that ends keeps the invariant unless its result is lost. -/
theorem Inv.finish (inv : control.Inv) {call : LoadCall} {succeeded : Bool}
    (found : control.calls[index]? = some call) (running : call.phase = .running)
    (forwarded : control.Forwarded (.runEnds index succeeded)) :
    (control.finish index call succeeded).Inv := by
  unfold Control.finish
  by_cases aborted : call.aborted = true
  · rw [if_pos aborted]
    rcases inv.open_or_closed found with waiting | closed
    · have prompting : call.prompting = true := by
        rcases waiting.opened with ⟨unaborted, -, -⟩ | ⟨-, -, prompting⟩
        · cases unaborted.symm.trans aborted
        · exact prompting
      exact .inl ⟨index, _, waiting.setOpen (.inr ⟨aborted, nofun, prompting⟩)⟩
    · exact inv.setClosed found (Closed.not_open closed) ⟨closed.1, nofun, .inr rfl⟩
  · rw [if_neg aborted]
    rcases inv.open_or_closed found with waiting | closed
    · have quiet : call.prompting = false := by
        rcases waiting.opened with ⟨-, -, quiet⟩ | ⟨aborts, -, -⟩
        · exact quiet
        · exact absurd aborts aborted
      have inside := Table.lt_length_of_getElem? waiting.found
      have closes : LoadCall.Closed { call.dispose with phase := .ended } := ⟨quiet, nofun, .inr rfl⟩
      have undecided := waiting.setClosed closes
      cases succeeded with
      | true =>
          exact .inr ⟨.succeeded, undecided.resolve false rfl (by simpa [setCall_calls] using inside)⟩
      | false =>
          obtain rfl := forwarded call found (by simpa using aborted)
          refine .inr ⟨.failed, undecided.closed, rfl, ?_⟩
          have first := waiting.pending 0 inside
          change (reject 0 control.promises)[0]? = some .rejected
          rw [reject, if_pos first, List.getElem?_set_self (Table.lt_length_of_getElem? first)]
    · rcases closed.2.2 with aborts | ended
      · exact absurd aborts aborted
      · cases running.symm.trans ended

/-- Every event whose result is passed on keeps the invariant. -/
theorem step_inv {event : ControlEvent} (inv : control.Inv) (forwarded : control.Forwarded event)
    (stepped : control.next event = some after) : after.Inv := by
  cases event with
  | deploy =>
      have updated : ∀ state, (control.update state).Inv := by
        intro state
        rcases inv with ⟨index, call, waiting⟩ | ⟨verdict, ended⟩
        · exact waiting.update state
        · exact .inr ⟨verdict, ended.update state⟩
      simp only [Control.next] at stepped
      split at stepped
      · cases stepped
        exact updated _
      · cases stepped
        exact updated _
      · cases stepped
      · cases stepped
  | started index =>
      simp only [Control.next] at stepped
      split at stepped
      case h_1 => cases stepped
      case h_2 call found =>
        split at stepped
        case isTrue starting =>
          cases stepped
          rcases inv.open_or_closed found with waiting | closed
          · refine .inl ⟨index, _, waiting.setOpen (.inl ⟨?_, nofun, ?_⟩)⟩
            · rcases waiting.opened with ⟨unaborted, -, -⟩ | ⟨-, started, -⟩
              · exact unaborted
              · exact absurd starting started
            · rcases waiting.opened with ⟨-, -, quiet⟩ | ⟨-, started, -⟩
              · exact quiet
              · exact absurd starting started
          · exact absurd starting closed.2.1
        case isFalse => cases stepped
  | changed index =>
      simp only [Control.next] at stepped
      split at stepped
      case h_1 => cases stepped
      case h_2 call found =>
        obtain ⟨state, timer, rfl⟩ := Option.map_eq_some_iff.mp stepped
        exact inv.listen found timer forwarded
  | runEnds index succeeded =>
      simp only [Control.next] at stepped
      split at stepped
      case h_1 => cases stepped
      case h_2 call found =>
        split at stepped
        case isTrue running =>
          cases stepped
          exact inv.finish found running forwarded
        case isFalse => cases stepped
  | answered shouldContinue =>
      simp only [Control.next] at stepped
      split at stepped
      · cases stepped
        exact inv.input shouldContinue
      · cases stepped

/-- At first the invariant holds. -/
theorem initial_inv (initial : machine.Initial control) : control.Inv := by
  obtain ⟨state, rfl⟩ := initial
  refine .inl ⟨0, _, rfl, .inl ⟨rfl, nofun, rfl⟩, ?_, ?_, rfl, rfl⟩
  · intro k other found different
    have first : k = 0 := by
      have inside := Table.lt_length_of_getElem? found
      simpa using inside
    exact absurd first different
  · intro k below
    obtain rfl : k = 0 := by simpa using below
    rfl

/-- With the invariant the outermost promise is settled as the run ended. -/
theorem Inv.settles (inv : control.Inv) : control.Settles := by
  intro idle
  rcases inv with ⟨index, call, waiting⟩ | ⟨verdict, ended⟩
  · obtain ⟨ended, quiet⟩ := idle call (List.mem_of_getElem? waiting.found)
    rcases waiting.opened with ⟨-, unended, -⟩ | ⟨-, -, prompting⟩
    · exact absurd ended unended
    · cases quiet.symm.trans prompting
  · exact ⟨verdict, ended.known, ended.settled⟩

/-- Throughout a run in which every failure is that of the outermost run or of an aborted
one, and every pause is handled during the run that it pauses, nothing is left unsettled. -/
theorem settles_of_forwarded (start : Control) (events : List ControlEvent)
    (initial : machine.Initial start) (forwarded : machine.Meets Forwarded start events) :
    machine.Throughout Settles start events :=
  (Machine.throughout_of_meets Inv step_inv (initial_inv initial) forwarded).mono fun _ => Inv.settles

/-! ## Runs -/

/-- The function has been called while the program is being deployed. -/
def called : Control := ⟨.loading, [⟨.starting, false, false, .ready, none, false⟩], [.pending], none⟩

/-- The learner pauses and continues, and the second run ends. -/
def pausedOnce (succeeded : Bool) : List ControlEvent :=
  [.started 0, .changed 0, .deploy, .changed 0, .runEnds 0 true, .answered true, .started 1,
    .runEnds 1 succeeded]

/-- Paused once and continued, the run settles its promise. -/
theorem pausedOnce_settles : machine.Throughout Settles called (pausedOnce true) := by
  refine settles_of_forwarded _ _ ⟨.loading, rfl⟩ ⟨trivial, ?_⟩
  rintro _ ⟨⟩
  refine ⟨?_, ?_⟩
  · rintro _ _ ⟨⟩ - - - -
    rfl
  rintro _ ⟨⟩
  refine ⟨trivial, ?_⟩
  rintro _ ⟨⟩
  refine ⟨?_, ?_⟩
  · rintro _ _ ⟨⟩ - - - -
    rfl
  rintro _ ⟨⟩
  refine ⟨trivial, ?_⟩
  rintro _ ⟨⟩
  refine ⟨trivial, ?_⟩
  rintro _ ⟨⟩
  refine ⟨trivial, ?_⟩
  rintro _ ⟨⟩
  exact ⟨trivial, fun _ _ => trivial⟩

/-- When the resumed run fails, the first promise stays pending. -/
theorem not_always_settles : ¬ ∀ (start : Control) (events : List ControlEvent),
    machine.Initial start → machine.Throughout Settles start events := by
  intro always
  obtain ⟨finish, ran, idle, verdict, promise⟩ : ∃ finish,
      machine.run called (pausedOnce false) = some finish ∧ finish.Idle ∧
        finish.verdict = some .failed ∧ finish.promises[0]? = some .pending :=
    ⟨_, rfl, by decide, rfl, rfl⟩
  obtain ⟨known, same, settled⟩ := (always called _ ⟨.loading, rfl⟩).of_run ran idle
  obtain rfl : Verdict.failed = known := Option.some.inj (verdict.symm.trans same)
  cases promise.symm.trans settled

end Control

end Solpg.Client.Commands.Deploy
