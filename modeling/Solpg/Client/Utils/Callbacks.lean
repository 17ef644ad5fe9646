import Mathlib.Data.List.Infix
import Solpg.Std.Machine

/-!
# Callbacks in order

The wrappers of `PgCommon` that decide when a callback runs: `executeInOrder`, which queues its
calls, and `throttle`, which keeps the last of the calls that come too early for a timer. Each is
a machine whose labels are the calls and what else happens to the wrapper.
-/

namespace Solpg.Client.Utils.PgCommon

open Solpg.Std

variable {α : Type}

/-! ## `executeInOrder` -/

/-- How a callback ends. -/
inductive Settled where
  | resolved
  | rejected
  deriving DecidableEq, Repr

/-- The variables of the wrapper. `running` has the callbacks that are awaited, each by an
`execute` that stands in its loop: a callback runs until its `await` goes on. Besides, all calls
and all that has been passed to the callback. -/
structure InOrder (α : Type) where
  queue : List α
  isExecuting : Bool
  running : List α
  called : List α
  started : List α
  deriving DecidableEq, Repr

namespace InOrder

/-- Nothing was called yet. -/
def idle : InOrder α := ⟨[], false, [], [], []⟩

/-- The loop of `execute` up to its next `await`. -/
def drain (state : InOrder α) : InOrder α :=
  match state.queue with
  | [] => { state with isExecuting := false }
  | args :: queue =>
      { state with
        queue
        running := state.running ++ [args]
        started := state.started ++ [args] }

/-- The loop runs unless it already does. -/
def execute (state : InOrder α) : InOrder α :=
  if state.isExecuting then state else drain { state with isExecuting := true }

/-- What happens: a call, or a callback that ends. -/
inductive Label (α : Type) where
  | call (args : α)
  /-- The `await` of a callback goes on or throws. -/
  | settle (index : Nat) (outcome : Settled)
  deriving DecidableEq, Repr

/-- What happens to the queue. -/
def next (state : InOrder α) : Label α → Option (InOrder α)
  | .call args =>
      some (execute { state with queue := state.queue ++ [args], called := state.called ++ [args] })
  | .settle index outcome =>
      if index < state.running.length then
        let settled := { state with running := state.running.eraseIdx index }
        match outcome with
        | .resolved => some (drain settled)
        | .rejected => some settled
      else none

/-- The queue over time. -/
def machine (α : Type) : Machine (InOrder α) (Label α) where
  Initial := (· = idle)
  next := next

/-- What the callback has been passed is an initial part of the calls, in their order; one callback
runs at a time, and when none runs, nothing is left. -/
structure Lawful (state : InOrder α) : Prop where
  ordered : state.started <+: state.called
  alone : state.running.length ≤ 1
  complete : state.running = [] → state.started = state.called

/-- No callback rejects while arguments are queued, and no call comes after a rejection, which
leaves `isExecuting` set. -/
def Undisturbed (state : InOrder α) : Label α → Prop
  | .call _ => state.isExecuting = true → state.running ≠ []
  | .settle index .rejected => index < state.running.length → state.queue = []
  | .settle _ .resolved => True

/-- What is queued has not been passed. A callback runs while the flag is set, except after a
rejection. -/
structure Inv (state : InOrder α) : Prop where
  history : state.started ++ state.queue = state.called
  alone : state.running.length ≤ 1
  executing : state.running ≠ [] → state.isExecuting = true
  drained : state.running = [] → state.queue = []

variable {state : InOrder α}

/-- The invariant gives the order of the callbacks. -/
theorem Inv.lawful (inv : Inv state) : Lawful state where
  ordered := ⟨state.queue, inv.history⟩
  alone := inv.alone
  complete none := by rw [← inv.history, inv.drained none, List.append_nil]

/-- At first nothing is owed. -/
theorem inv_idle : Inv (idle : InOrder α) := ⟨rfl, Nat.zero_le 1, fun some => absurd rfl some, fun _ => rfl⟩

/-- The callback that settles is the one that runs. -/
theorem Inv.eraseIdx {index : Nat} (inv : Inv state) (bound : index < state.running.length) :
    state.running.eraseIdx index = [] := by
  rw [← List.length_eq_zero_iff, List.length_eraseIdx_of_lt bound]
  have alone := inv.alone
  omega

/-- The loop starts the first of the queue, when no callback runs. -/
theorem Inv.of_drain (history : state.started ++ state.queue = state.called)
    (executing : state.isExecuting = true) (none : state.running = []) : Inv (drain state) := by
  unfold drain
  split
  · next empty => exact ⟨history, by simp [none], fun some => absurd none some, fun _ => empty⟩
  · next args queue first =>
    exact ⟨by simpa [first] using history, by simp [none], fun _ => executing, by simp⟩

/-- What does not disturb the queue keeps the invariant. -/
theorem Inv.next {label : Label α} {after : InOrder α} (inv : Inv state)
    (undisturbed : Undisturbed state label) (stepped : (machine α).next state label = some after) :
    Inv after := by
  cases label with
  | call args =>
      simp only [machine, InOrder.next, Option.some.injEq] at stepped
      subst stepped
      unfold execute
      split
      · next executing =>
        refine ⟨?_, inv.alone, fun _ => executing, fun none => absurd none (undisturbed executing)⟩
        simp [← inv.history]
      · next resting =>
        have none : state.running = [] := by
          by_contra some
          exact resting (inv.executing some)
        exact Inv.of_drain (by simp [← inv.history]) rfl none
  | settle index outcome =>
      by_cases bound : index < state.running.length
      · have settled := inv.eraseIdx bound
        have executing := inv.executing (List.length_pos_iff.mp (by omega))
        cases outcome with
        | resolved =>
            simp only [machine, InOrder.next, if_pos bound, Option.some.injEq] at stepped
            subst stepped
            exact Inv.of_drain inv.history executing settled
        | rejected =>
            simp only [machine, InOrder.next, if_pos bound, Option.some.injEq] at stepped
            subst stepped
            exact ⟨inv.history, by simp [settled], fun some => absurd settled some,
              fun _ => undisturbed bound⟩
      · simp [machine, InOrder.next, bound] at stepped

/-- A step against the condition leaves an argument that nothing passes. -/
theorem Inv.undisturbed_of_lawful {label : Label α} {after : InOrder α} (inv : Inv state)
    (stepped : (machine α).next state label = some after) (lawful : Lawful after) :
    Undisturbed state label := by
  cases label with
  | call args =>
      intro executing none
      simp only [machine, InOrder.next, execute, executing, if_true, Option.some.injEq] at stepped
      subst stepped
      have same := lawful.complete none
      simp [← inv.history, inv.drained none] at same
  | settle index outcome =>
      cases outcome with
      | resolved => trivial
      | rejected =>
          intro bound
          simp only [machine, InOrder.next, if_pos bound, Option.some.injEq] at stepped
          subst stepped
          have same := lawful.complete (inv.eraseIdx bound)
          simpa [← inv.history] using same

end InOrder

/-- The calls of `executeInOrder` are executed in order exactly in the runs in which no rejection
comes between them. -/
theorem executeInOrder_lawful_iff (labels : List (InOrder.Label α)) :
    (InOrder.machine α).Throughout InOrder.Lawful InOrder.idle labels ↔
      (InOrder.machine α).Meets InOrder.Undisturbed InOrder.idle labels := by
  refine Machine.throughout_iff_meets_while InOrder.Inv InOrder.Inv.lawful ?_ InOrder.Inv.next
    InOrder.Inv.undisturbed_of_lawful labels InOrder.inv_idle
  intro state label inv stuck
  match label with
  | .call args => simp [InOrder.machine, InOrder.next] at stuck
  | .settle index .resolved => trivial
  | .settle index .rejected =>
      intro bound
      simp [InOrder.machine, InOrder.next, bound] at stuck

/-- The callback of the first call rejects, and that of the second is never called. -/
theorem not_always_executed_in_order : ¬ ∀ labels : List (InOrder.Label Nat),
    (InOrder.machine Nat).Throughout InOrder.Lawful InOrder.idle labels := by
  intro lawful
  have ran : (InOrder.machine Nat).run InOrder.idle
      [.call 1, .settle 0 .rejected, .call 2] = some ⟨[2], true, [], [1, 2], [1]⟩ := by decide
  have complete := ((lawful _).of_run ran).complete rfl
  exact absurd complete (by decide)

/-! ## `throttle` -/

/-- A call of a throttled function: its number and its arguments. -/
structure Throttle.Call (α : Type) where
  index : Nat
  args : α
  deriving DecidableEq, Repr

/-- A call that waits until it is due. -/
structure Throttle.Timer (α : Type) where
  call : Throttle.Call α
  due : Nat
  deriving DecidableEq, Repr

/-- The variables of the wrapper, with the pending timer for `timeoutId`: a timer that is set
replaces the one before. Besides, all calls and the calls whose arguments have been delivered. -/
structure Throttle (α : Type) where
  timer : Option (Throttle.Timer α)
  last : Nat
  isInitial : Bool
  calls : List (Throttle.Call α)
  delivered : List (Throttle.Call α)
  deriving DecidableEq, Repr

namespace Throttle

/-- A throttle that was just created. -/
def created (now : Nat) : Throttle α := ⟨none, now, true, [], []⟩

inductive Label (α : Type) where
  | call (now : Nat) (args : α)
  | fire (now : Nat)
  deriving DecidableEq, Repr

/-- One call, as the callback sees it. -/
def throttled (ms : Nat) (state : Throttle α) (now : Nat) (call : Call α) : Throttle α :=
  if state.isInitial then
    { state with delivered := state.delivered ++ [call], isInitial := false }
  else if now < state.last + ms then
    { state with timer := some ⟨call, now + ms⟩ }
  else
    { state with delivered := state.delivered ++ [call], last := now }

def next (ms : Nat) (state : Throttle α) : Label α → Option (Throttle α)
  | .call now args =>
      let call : Call α := ⟨state.calls.length, args⟩
      some (throttled ms { state with calls := state.calls ++ [call] } now call)
  | .fire now =>
      match state.timer with
      | some timer =>
          if timer.due ≤ now then
            some { state with timer := none, delivered := state.delivered ++ [timer.call] }
          else none
      | none => none

def machine (ms : Nat) (α : Type) : Machine (Throttle α) (Label α) where
  Initial state := ∃ now, state = created now
  next := next ms

/-- Deliveries come in the order of the calls, and while no timer is pending the last one is that
of the last call. -/
structure Lawful (state : Throttle α) : Prop where
  ordered : state.delivered.Pairwise fun earlier later => earlier.index ≤ later.index
  latest : state.timer = none → state.delivered.getLast? = state.calls.getLast?

/-- The timer that fires is that of the last call: no call has run immediately since it was
set. -/
def Current (state : Throttle α) : Label α → Prop
  | .call _ _ => True
  | .fire now => ∀ timer ∈ state.timer, timer.due ≤ now → timer.call.index + 1 = state.calls.length

/-- The last call has been delivered, or the pending timer has it. -/
structure Inv (state : Throttle α) : Prop where
  numbered : ∀ index (bound : index < state.calls.length), state.calls[index].index = index
  delivered : ∀ call ∈ state.delivered, call.index < state.calls.length
  timed : ∀ timer ∈ state.timer, timer.call ∈ state.calls
  ordered : state.delivered.Pairwise fun earlier later => earlier.index ≤ later.index
  latest : state.delivered.getLast? = state.calls.getLast? ∨
    ∃ timer ∈ state.timer, state.calls.getLast? = some timer.call

variable {ms : Nat} {state : Throttle α}

/-- The invariant gives what is delivered. -/
theorem Inv.lawful (inv : Inv state) : Lawful state where
  ordered := inv.ordered
  latest none := by
    rcases inv.latest with same | ⟨timer, pending, -⟩
    · exact same
    · simp [none] at pending

/-- A new throttle owes nothing. -/
theorem inv_created (now : Nat) : Inv (created now : Throttle α) where
  numbered index bound := absurd bound (Nat.not_lt_zero index)
  delivered _ among := absurd among List.not_mem_nil
  timed _ pending := absurd pending (Option.not_mem_none _)
  ordered := .nil
  latest := .inl rfl

/-- The last call has the last index. -/
theorem Inv.index_getLast {call : Call α} (inv : Inv state)
    (last : state.calls.getLast? = some call) : call.index + 1 = state.calls.length := by
  rw [List.getLast?_eq_getElem?] at last
  obtain ⟨bound, rfl⟩ := List.getElem?_eq_some_iff.mp last
  rw [inv.numbered]
  omega

/-- The call with the last index is the last. -/
theorem Inv.getLast_of_index {call : Call α} (inv : Inv state) (among : call ∈ state.calls)
    (last : call.index + 1 = state.calls.length) : state.calls.getLast? = some call := by
  obtain ⟨index, bound, rfl⟩ := List.mem_iff_getElem.mp among
  rw [inv.numbered] at last
  rw [List.getLast?_eq_getElem?, List.getElem?_eq_some_iff]
  exact ⟨by omega, by simp [← last]⟩

/-- One more call. -/
theorem Inv.numbered_append (inv : Inv state) (args : α) (index : Nat)
    (bound : index < (state.calls ++ [(⟨state.calls.length, args⟩ : Call α)]).length) :
    (state.calls ++ [(⟨state.calls.length, args⟩ : Call α)])[index].index = index := by
  rcases Nat.lt_or_ge index state.calls.length with before | reached
  · rw [List.getElem_append_left before, inv.numbered]
  · rw [List.getElem_append_right reached]
    simp only [List.length_append, List.length_singleton] at bound
    obtain rfl : index = state.calls.length := by omega
    simp

/-- A call that is delivered at once. -/
theorem Inv.immediate (inv : Inv state) (args : α) (last : Nat) (isInitial : Bool) :
    Inv { state with
      calls := state.calls ++ [⟨state.calls.length, args⟩]
      delivered := state.delivered ++ [⟨state.calls.length, args⟩]
      last, isInitial } where
  numbered := inv.numbered_append args
  delivered call among := by
    rcases List.mem_append.mp among with before | new
    · have bound := inv.delivered call before
      simp only [List.length_append, List.length_singleton]
      omega
    · simp [List.mem_singleton.mp new]
  timed timer pending := List.mem_append_left _ (inv.timed timer pending)
  ordered := by
    refine List.pairwise_append.mpr ⟨inv.ordered, List.pairwise_singleton _ _, ?_⟩
    intro earlier among later new
    rw [List.mem_singleton.mp new]
    exact (inv.delivered earlier among).le
  latest := .inl (by simp)

/-- A call that waits for a timer. -/
theorem Inv.delayed (inv : Inv state) (args : α) (due : Nat) :
    Inv { state with
      calls := state.calls ++ [⟨state.calls.length, args⟩]
      timer := some ⟨⟨state.calls.length, args⟩, due⟩ } where
  numbered := inv.numbered_append args
  delivered call among := by
    have bound := inv.delivered call among
    simp only [List.length_append, List.length_singleton]
    omega
  timed timer pending := by
    obtain rfl : _ = timer := Option.mem_some_iff.mp pending
    simp
  ordered := inv.ordered
  latest := .inr ⟨_, rfl, by simp⟩

/-- The timer of the last call fires. -/
theorem Inv.fired (inv : Inv state) {timer : Timer α} (pending : timer ∈ state.timer)
    (current : timer.call.index + 1 = state.calls.length) :
    Inv { state with timer := none, delivered := state.delivered ++ [timer.call] } where
  numbered := inv.numbered
  delivered call among := by
    rcases List.mem_append.mp among with before | new
    · exact inv.delivered call before
    · rw [List.mem_singleton.mp new]
      change timer.call.index < state.calls.length
      omega
  timed _ none := absurd none (Option.not_mem_none _)
  ordered := by
    refine List.pairwise_append.mpr ⟨inv.ordered, List.pairwise_singleton _ _, ?_⟩
    intro earlier among later new
    have bound := inv.delivered earlier among
    rw [List.mem_singleton.mp new]
    omega
  latest := .inl (by simp [inv.getLast_of_index (inv.timed timer pending) current])

/-- A timer that fires delivers its call. -/
theorem next_fire_eq_some (ms : Nat) {now : Nat} {after : Throttle α}
    (stepped : next ms state (.fire now) = some after) :
    ∃ timer ∈ state.timer, timer.due ≤ now ∧
      after = { state with timer := none, delivered := state.delivered ++ [timer.call] } := by
  unfold next at stepped
  cases pending : state.timer with
  | none => simp [pending] at stepped
  | some timer =>
      by_cases due : timer.due ≤ now
      · exact ⟨timer, rfl, due, by simpa [pending, due] using stepped.symm⟩
      · simp [pending, due] at stepped

/-- Every event whose timer is current keeps the invariant. -/
theorem Inv.next {label : Label α} {after : Throttle α} (inv : Inv state)
    (current : Current state label) (stepped : (machine ms α).next state label = some after) :
    Inv after := by
  cases label with
  | call now args =>
      simp only [machine, Throttle.next, Option.some.injEq] at stepped
      subst stepped
      unfold throttled
      split
      · exact inv.immediate args _ _
      · split
        · exact inv.delayed args _
        · exact inv.immediate args _ _
  | fire now =>
      obtain ⟨timer, pending, due, rfl⟩ := next_fire_eq_some ms stepped
      exact inv.fired pending (current timer pending due)

/-- A timer of an earlier call delivers its arguments after those of the last one. -/
theorem Inv.current_of_lawful {label : Label α} {after : Throttle α} (inv : Inv state)
    (stepped : (machine ms α).next state label = some after) (lawful : Lawful after) :
    Current state label := by
  cases label with
  | call now args => trivial
  | fire now =>
      intro timer pending due
      obtain ⟨fired, fires, -, rfl⟩ := next_fire_eq_some ms stepped
      obtain rfl : fired = timer := Option.mem_unique fires pending
      rcases inv.latest with same | ⟨latest, waits, last⟩
      · obtain ⟨index, bound, called⟩ := List.mem_iff_getElem.mp (inv.timed fired pending)
        obtain ⟨call, last⟩ : ∃ call, state.calls.getLast? = some call :=
          Option.isSome_iff_exists.mp (List.getLast?_isSome.mpr (List.ne_nil_of_length_pos (by omega)))
        have ordered := (List.pairwise_append.mp lawful.ordered).2.2 call
          (List.mem_of_getLast? (same.trans last)) fired.call (by simp)
        have final := inv.index_getLast last
        have numbered := inv.numbered index bound
        rw [called] at numbered
        omega
      · obtain rfl : latest = fired := Option.mem_unique waits fires
        exact inv.index_getLast last

end Throttle

/-- The calls of `throttle` are delivered in order and to the last exactly in the runs in which
each timer that fires is that of the last call. -/
theorem throttle_lawful_iff (ms created : Nat) (labels : List (Throttle.Label α)) :
    (Throttle.machine ms α).Throughout Throttle.Lawful (.created created) labels ↔
      (Throttle.machine ms α).Meets Throttle.Current (.created created) labels := by
  refine Machine.throughout_iff_meets_while Throttle.Inv Throttle.Inv.lawful ?_ Throttle.Inv.next
    Throttle.Inv.current_of_lawful labels (Throttle.inv_created created)
  intro state label inv stuck
  match label with
  | .call now args => trivial
  | .fire now =>
      intro timer pending due
      simp [Throttle.machine, Throttle.next, Option.mem_def.mp pending, due] at stuck

/-- The second call waits for a timer, and the third one does not. -/
theorem not_always_throttled_in_order :
    ¬ ∀ (ms created : Nat) (labels : List (Throttle.Label Nat)),
      (Throttle.machine ms Nat).Throughout Throttle.Lawful (.created created) labels := by
  intro lawful
  have ran : (Throttle.machine 100 Nat).run (.created 0)
      [.call 10 1, .call 50 2, .call 120 3, .fire 150] =
        some ⟨none, 120, false, [⟨0, 1⟩, ⟨1, 2⟩, ⟨2, 3⟩], [⟨0, 1⟩, ⟨2, 3⟩, ⟨1, 2⟩]⟩ := by decide
  have ordered := ((lawful 100 0 _).of_run ran).ordered
  exact absurd ordered (by decide)

end Solpg.Client.Utils.PgCommon
