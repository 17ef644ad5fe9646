import Solpg.Std.Machine
import Solpg.Std.Table

/-!
# Build permits

`concurrent::Permit` of `routes/build.rs`: a semaphore bounds the number of
permits and a mutex-guarded table hands each live permit its concurrency id.
The critical sections of the table's mutex are single actions; everything that
can happen between them, and a cancelled `acquire` future, is an action of its
own, so a run of `permitMachine` is one interleaving of `acquire` calls and drops.
-/

namespace Solpg.Server.Routes.Build

open Solpg.Std

/-- The state the clones of one `BuildState` share: the permits left in the
semaphore, and the mutex-guarded id table with the mutex's poison flag. -/
structure BuildState where
  sem : Nat
  ids : List Bool
  idsPoisoned : Bool
  deriving DecidableEq, Repr

/-- `BuildState::new`. -/
def BuildState.new (concurrency : Nat) : BuildState where
  sem := concurrency
  ids := List.replicate concurrency false
  idsPoisoned := false

/-- The errors of `Permit::acquire` once it holds a semaphore permit. -/
inductive AcquireError where
  | lockIds
  | findConcurrencyId
  deriving DecidableEq, Repr

/-- The critical section of `Permit::acquire`: mark the first unused id. -/
def BuildState.findId (state : BuildState) : Except AcquireError (Nat × BuildState) :=
  if state.idsPoisoned then .error .lockIds
  else match state.ids.findIdx? (fun used => !used) with
    | none => .error .findConcurrencyId
    | some id => .ok (id, { state with ids := state.ids.set id true })

/-- The body of `Drop for Permit`. Indexing out of bounds panics while the
guard is held, which poisons the mutex. -/
def BuildState.releaseId (state : BuildState) (id : Nat) : BuildState :=
  if state.idsPoisoned then state
  else if id < state.ids.length then { state with ids := state.ids.set id false }
  else { state with idsPoisoned := true }

/-- Where one `acquire` call and the permit it returns are in their life.
`releasing` is a permit whose `drop` body has run and whose fields, among them
the semaphore permit, are not dropped yet. -/
inductive Phase where
  | waiting
  | granted
  | live (id : Nat)
  | releasing
  | failed (error : AcquireError)
  | dropped
  deriving DecidableEq, Repr

namespace Phase

/-- Phases that own an `OwnedSemaphorePermit`. -/
def holdsPermit : Phase → Bool
  | granted | live _ | releasing => true
  | waiting | failed _ | dropped => false

def isLive : Phase → Bool
  | live _ => true
  | _ => false

/-- The call still waits, or its permit is live. -/
def inFlight : Phase → Bool
  | waiting | granted | live _ => true
  | releasing | failed _ | dropped => false

theorem isLive_iff {phase : Phase} : phase.isLive = true ↔ ∃ id, phase = .live id := by
  cases phase <;> simp [isLive]

end Phase

/-- The shared state with every `acquire` call made so far. -/
structure Permits where
  state : BuildState
  clients : List Phase
  deriving DecidableEq, Repr

/-- One step of one `acquire` call, or of the permit it returned. -/
inductive PermitAction where
  /-- A new `acquire` call starts to wait for the semaphore. -/
  | acquire
  /-- The future is dropped while it waits, possibly after the semaphore has
  assigned it a permit which it has not been polled to receive. -/
  | cancel (client : Nat)
  | grant (client : Nat)
  | findId (client : Nat)
  | dropBody (client : Nat)
  | dropFields (client : Nat)
  deriving DecidableEq, Repr

namespace Permits

def new (concurrency : Nat) : Permits where
  state := BuildState.new concurrency
  clients := []

def setPhase (permits : Permits) (client : Nat) (phase : Phase) (state : BuildState) : Permits where
  state := state
  clients := permits.clients.set client phase

/-- Give one permit back to the semaphore. -/
def addPermit (state : BuildState) : BuildState := { state with sem := state.sem + 1 }

def next (permits : Permits) : PermitAction → Option Permits
  | .acquire => some { permits with clients := permits.clients ++ [.waiting] }
  | .cancel client =>
      match permits.clients[client]? with
      | some .waiting => some (permits.setPhase client .dropped permits.state)
      | some .granted => some (permits.setPhase client .dropped (addPermit permits.state))
      | _ => none
  | .grant client =>
      match permits.clients[client]?, permits.state.sem with
      | some .waiting, sem + 1 =>
          some (permits.setPhase client .granted { permits.state with sem := sem })
      | _, _ => none
  | .findId client =>
      match permits.clients[client]? with
      | some .granted =>
          match permits.state.findId with
          | .ok (id, state) => some (permits.setPhase client (.live id) state)
          -- The local `OwnedSemaphorePermit` is dropped by the early return.
          | .error error => some (permits.setPhase client (.failed error) (addPermit permits.state))
      | _ => none
  | .dropBody client =>
      match permits.clients[client]? with
      | some (.live id) => some (permits.setPhase client .releasing (permits.state.releaseId id))
      | _ => none
  | .dropFields client =>
      match permits.clients[client]? with
      | some .releasing => some (permits.setPhase client .dropped (addPermit permits.state))
      | _ => none

/-- What ties the semaphore, the id table and the calls together. -/
structure WellFormed (concurrency : Nat) (permits : Permits) : Prop where
  unpoisoned : permits.state.idsPoisoned = false
  tableLength : permits.state.ids.length = concurrency
  semaphore : permits.state.sem + permits.clients.countP Phase.holdsPermit = concurrency
  usedCount : permits.state.ids.countP (fun used => used) = permits.clients.countP Phase.isLive
  used : ∀ id : Nat, permits.state.ids[id]? = some true ↔
    ∃ client : Nat, permits.clients[client]? = some (Phase.live id)
  distinct : ∀ {first second id : Nat}, permits.clients[first]? = some (Phase.live id) →
    permits.clients[second]? = some (Phase.live id) → first = second
  acquired : ∀ (client : Nat) error, permits.clients[client]? ≠ some (Phase.failed error)

/-- One action of an existing call moves that call alone: to a new phase, out
of the live phase only by the `drop` body and never back in flight. -/
theorem next_clients {permits after : Permits} {action : PermitAction}
    (stepped : permits.next action = some after) :
    (action = .acquire ∧ after.clients = permits.clients ++ [.waiting]) ∨
      ∃ client before phase, permits.clients[client]? = some before ∧
        after.clients = permits.clients.set client phase ∧
        (before.isLive = true → action = .dropBody client) ∧
        before.inFlight.toNat ≥ phase.inFlight.toNat := by
  cases action with
  | acquire =>
      cases stepped
      exact .inl ⟨rfl, rfl⟩
  | cancel client =>
      simp only [Permits.next] at stepped
      split at stepped <;> cases stepped
      all_goals
        next found =>
        exact .inr ⟨client, _, _, found, rfl, by simp [Phase.isLive], by simp [Phase.inFlight]⟩
  | grant client =>
      simp only [Permits.next] at stepped
      split at stepped <;> cases stepped
      next found _ =>
        exact .inr ⟨client, _, _, found, rfl, by simp [Phase.isLive], by simp [Phase.inFlight]⟩
  | findId client =>
      simp only [Permits.next] at stepped
      split at stepped
      next found =>
        split at stepped <;> cases stepped
        all_goals
          exact .inr ⟨client, _, _, found, rfl, by simp [Phase.isLive], by simp [Phase.inFlight]⟩
      next => cases stepped
  | dropBody client =>
      simp only [Permits.next] at stepped
      split at stepped <;> cases stepped
      next found =>
        exact .inr ⟨client, _, _, found, rfl, by simp, by simp [Phase.inFlight]⟩
  | dropFields client =>
      simp only [Permits.next] at stepped
      split at stepped <;> cases stepped
      next found =>
        exact .inr ⟨client, _, _, found, rfl, by simp [Phase.isLive], by simp [Phase.inFlight]⟩

end Permits

/-- Every interleaving of `acquire` calls and drops on one `BuildState`. -/
def permitMachine (concurrency : Nat) : Machine Permits PermitAction where
  Initial state := state = Permits.new concurrency
  next := Permits.next

namespace Permits

variable {concurrency : Nat} {current : Permits}

theorem new_wellFormed (concurrency : Nat) : (new concurrency).WellFormed concurrency := by
  constructor <;> simp [new, BuildState.new, List.countP_replicate, List.getElem?_replicate]

/-- Replacing a phase that is not live by another one that is not live keeps
the id table consistent, whatever happens to the semaphore. -/
theorem WellFormed.setPhase_notLive (wf : current.WellFormed concurrency) {client : Nat}
    {before after : Phase} {sem : Nat} (found : current.clients[client]? = some before)
    (beforeIdle : before.isLive = false) (afterIdle : after.isLive = false)
    (succeeded : ∀ error, after ≠ .failed error)
    (balance : sem + after.holdsPermit.toNat = current.state.sem + before.holdsPermit.toNat) :
    (current.setPhase client after { current.state with sem := sem }).WellFormed concurrency := by
  have inside := Table.lt_length_of_getElem? found
  have held := Table.countP_set_add Phase.holdsPermit after found
  have live := Table.countP_set_add Phase.isLive after found
  have semaphore := wf.semaphore
  have usedCount := wf.usedCount
  have livePreserved : ∀ other id : Nat, (current.clients.set client after)[other]? = some (Phase.live id) ↔
      current.clients[other]? = some (Phase.live id) := by
    intro other id
    by_cases same : other = client
    · subst same
      constructor
      · intro foundLive
        rw [List.getElem?_set_self inside] at foundLive
        cases foundLive
        simp [Phase.isLive] at afterIdle
      · intro foundLive
        rw [found] at foundLive
        cases foundLive
        simp [Phase.isLive] at beforeIdle
    · rw [List.getElem?_set_ne (Ne.symm same)]
  constructor
  · exact wf.unpoisoned
  · exact wf.tableLength
  · simp only [setPhase]
    omega
  · simp only [setPhase, beforeIdle, afterIdle] at live ⊢
    simp only [Bool.toNat_false] at live
    omega
  · intro id
    simp only [setPhase, livePreserved]
    exact wf.used id
  · intro first second id firstLive secondLive
    simp only [setPhase, livePreserved] at firstLive secondLive
    exact wf.distinct firstLive secondLive
  · intro other error foundFailed
    rcases Table.getElem?_set_cases foundFailed with ⟨_, failed⟩ | ⟨_, foundBefore⟩
    · exact succeeded error failed.symm
    · exact wf.acquired other error foundBefore

/-- A call that holds a semaphore permit and no id leaves an id unused: the
permits bound the live calls strictly below the size of the table. -/
theorem WellFormed.exists_unused (wf : current.WellFormed concurrency) {client : Nat}
    (found : current.clients[client]? = some Phase.granted) :
    ∃ id, current.state.ids.findIdx? (fun used => !used) = some id := by
  rcases found? : current.state.ids.findIdx? (fun used => !used) with _ | id
  · exfalso
    have allUsed : current.state.ids.countP (fun used => used) = current.state.ids.length := by
      rw [List.countP_eq_length]
      intro used member
      have notUnused := List.findIdx?_eq_none_iff.mp found? used member
      simpa using notUnused
    -- Mark the granted call live: the live calls are then still permit holders.
    have held := Table.countP_set_add Phase.holdsPermit (.live 0) found
    have live := Table.countP_set_add Phase.isLive (.live 0) found
    have bounded : (current.clients.set client (.live 0)).countP Phase.isLive ≤
        (current.clients.set client (.live 0)).countP Phase.holdsPermit := by
      apply List.countP_mono_left
      intro phase _ isLive
      obtain ⟨id, rfl⟩ := Phase.isLive_iff.mp isLive
      rfl
    have semaphore := wf.semaphore
    have usedCount := wf.usedCount
    have tableLength := wf.tableLength
    simp only [Phase.holdsPermit, Phase.isLive, Bool.toNat_true, Bool.toNat_false] at held live
    omega
  · exact ⟨id, rfl⟩

/-- In a consistent state the critical section of `acquire` always succeeds,
with an id below `concurrency` that no live permit holds. -/
theorem WellFormed.findId (wf : current.WellFormed concurrency) {client : Nat}
    (found : current.clients[client]? = some Phase.granted) :
    ∃ id : Nat, current.state.ids[id]? = some false ∧
      current.state.findId =
        .ok (id, { current.state with ids := current.state.ids.set id true }) := by
  obtain ⟨id, first⟩ := wf.exists_unused found
  obtain ⟨inside, unused, _⟩ := List.findIdx?_eq_some_iff_getElem.mp first
  refine ⟨id, ?_, ?_⟩
  · simpa [List.getElem?_eq_getElem inside] using unused
  · simp [BuildState.findId, wf.unpoisoned, first]

/-- A granted call becomes live with an id that was unused. -/
theorem WellFormed.setPhase_live (wf : current.WellFormed concurrency) {client id : Nat}
    (found : current.clients[client]? = some Phase.granted)
    (unused : current.state.ids[id]? = some false) :
    (current.setPhase client (.live id)
      { current.state with ids := current.state.ids.set id true }).WellFormed concurrency := by
  have insideClients := Table.lt_length_of_getElem? found
  have insideIds := Table.lt_length_of_getElem? unused
  have held := Table.countP_set_add Phase.holdsPermit (.live id) found
  have live := Table.countP_set_add Phase.isLive (.live id) found
  have marked := Table.countP_set_add (fun used : Bool => used) true unused
  have semaphore := wf.semaphore
  have usedCount := wf.usedCount
  have notHeld : ∀ other : Nat, current.clients[other]? ≠ some (Phase.live id) := by
    intro other heldId
    have := (wf.used id).mpr ⟨other, heldId⟩
    simp [unused] at this
  simp only [Phase.holdsPermit, Phase.isLive, Bool.toNat_true, Bool.toNat_false] at held live marked
  constructor
  · exact wf.unpoisoned
  · simpa [setPhase] using wf.tableLength
  · simp only [setPhase]
    omega
  · simp only [setPhase]
    omega
  · intro other
    by_cases same : other = id
    · subst same
      simp only [setPhase, List.getElem?_set_self insideIds, true_iff]
      exact ⟨client, List.getElem?_set_self insideClients⟩
    · simp only [setPhase, List.getElem?_set_ne (Ne.symm same)]
      rw [wf.used other]
      constructor
      · rintro ⟨holder, holds⟩
        have different : client ≠ holder := by
          rintro rfl
          simp [found] at holds
        exact ⟨holder, by rwa [List.getElem?_set_ne different]⟩
      · rintro ⟨holder, holds⟩
        rcases Table.getElem?_set_cases holds with ⟨_, equal⟩ | ⟨_, before⟩
        · cases equal
          exact absurd rfl same
        · exact ⟨holder, before⟩
  · intro first second other firstLive secondLive
    rcases Table.getElem?_set_cases firstLive with ⟨rfl, firstEq⟩ | ⟨_, firstBefore⟩ <;>
      rcases Table.getElem?_set_cases secondLive with ⟨rfl, secondEq⟩ | ⟨_, secondBefore⟩
    · rfl
    · cases firstEq
      exact absurd secondBefore (notHeld second)
    · cases secondEq
      exact absurd firstBefore (notHeld first)
    · exact wf.distinct firstBefore secondBefore
  · intro other error foundFailed
    rcases Table.getElem?_set_cases foundFailed with ⟨_, failed⟩ | ⟨_, foundBefore⟩
    · cases failed
    · exact wf.acquired other error foundBefore

/-- The `drop` body of a live permit unmarks exactly its own id. -/
theorem WellFormed.setPhase_releasing (wf : current.WellFormed concurrency) {client id : Nat}
    (found : current.clients[client]? = some (Phase.live id)) :
    (current.setPhase client .releasing (current.state.releaseId id)).WellFormed concurrency := by
  have insideClients := Table.lt_length_of_getElem? found
  have usedId := (wf.used id).mpr ⟨client, found⟩
  have insideIds := Table.lt_length_of_getElem? usedId
  have held := Table.countP_set_add Phase.holdsPermit .releasing found
  have live := Table.countP_set_add Phase.isLive .releasing found
  have unmarked := Table.countP_set_add (fun used : Bool => used) false usedId
  have semaphore := wf.semaphore
  have usedCount := wf.usedCount
  have released : current.state.releaseId id =
      { current.state with ids := current.state.ids.set id false } := by
    simp [BuildState.releaseId, wf.unpoisoned, insideIds]
  simp only [Phase.holdsPermit, Phase.isLive, Bool.toNat_true, Bool.toNat_false] at held live unmarked
  rw [released]
  constructor
  · exact wf.unpoisoned
  · simpa [setPhase] using wf.tableLength
  · simp only [setPhase]
    omega
  · simp only [setPhase]
    omega
  · intro other
    by_cases same : other = id
    · subst same
      simp only [setPhase, List.getElem?_set_self insideIds, Option.some.injEq, Bool.false_eq_true,
        false_iff]
      rintro ⟨holder, holds⟩
      rcases Table.getElem?_set_cases holds with ⟨_, equal⟩ | ⟨different, before⟩
      · cases equal
      · exact different (wf.distinct before found)
    · simp only [setPhase, List.getElem?_set_ne (Ne.symm same)]
      rw [wf.used other]
      constructor
      · rintro ⟨holder, holds⟩
        have different : client ≠ holder := by
          rintro rfl
          rw [found] at holds
          cases holds
          exact same rfl
        exact ⟨holder, by rwa [List.getElem?_set_ne different]⟩
      · rintro ⟨holder, holds⟩
        rcases Table.getElem?_set_cases holds with ⟨_, equal⟩ | ⟨_, before⟩
        · cases equal
        · exact ⟨holder, before⟩
  · intro first second other firstLive secondLive
    rcases Table.getElem?_set_cases firstLive with ⟨_, firstEq⟩ | ⟨_, firstBefore⟩
    · cases firstEq
    · rcases Table.getElem?_set_cases secondLive with ⟨_, secondEq⟩ | ⟨_, secondBefore⟩
      · cases secondEq
      · exact wf.distinct firstBefore secondBefore
  · intro other error foundFailed
    rcases Table.getElem?_set_cases foundFailed with ⟨_, failed⟩ | ⟨_, foundBefore⟩
    · cases failed
    · exact wf.acquired other error foundBefore

/-- A new call only adds an idle phase to the table of calls. -/
theorem WellFormed.acquire (wf : current.WellFormed concurrency) :
    WellFormed concurrency { current with clients := current.clients ++ [.waiting] } := by
  have appended : ∀ (client : Nat) (phase : Phase), phase ≠ .waiting →
      ((current.clients ++ [Phase.waiting])[client]? = some phase ↔
        current.clients[client]? = some phase) := by
    intro client phase different
    constructor
    · intro found
      rcases Table.getElem?_append_singleton_cases found with before | ⟨_, waiting⟩
      · exact before
      · exact absurd waiting different
    · intro found
      rw [List.getElem?_append_left (Table.lt_length_of_getElem? found)]
      exact found
  constructor
  · exact wf.unpoisoned
  · exact wf.tableLength
  · simpa [Phase.holdsPermit] using wf.semaphore
  · simpa [Phase.isLive] using wf.usedCount
  · intro id
    simp only [appended _ (.live id) (by simp)]
    exact wf.used id
  · intro first second id firstLive secondLive
    rw [appended _ _ (by simp)] at firstLive secondLive
    exact wf.distinct firstLive secondLive
  · intro client error
    rw [Ne, appended _ _ (by simp)]
    exact wf.acquired client error

/-- Every action keeps the semaphore, the table and the calls consistent. -/
theorem WellFormed.step (wf : current.WellFormed concurrency) {action : PermitAction}
    {after : Permits} (stepped : current.next action = some after) :
    after.WellFormed concurrency := by
  cases action with
  | acquire =>
      cases stepped
      exact wf.acquire
  | cancel client =>
      simp only [Permits.next] at stepped
      split at stepped <;> cases stepped
      next found => exact wf.setPhase_notLive found rfl rfl (by simp) rfl
      next found => exact wf.setPhase_notLive found rfl rfl (by simp) rfl
  | grant client =>
      simp only [Permits.next] at stepped
      split at stepped <;> cases stepped
      next sem found available =>
        exact wf.setPhase_notLive found rfl rfl (by simp) available.symm
  | findId client =>
      simp only [Permits.next] at stepped
      split at stepped
      next found =>
        obtain ⟨id, unused, allocated⟩ := wf.findId found
        rw [allocated] at stepped
        cases stepped
        exact wf.setPhase_live found unused
      next => cases stepped
  | dropBody client =>
      simp only [Permits.next] at stepped
      split at stepped <;> cases stepped
      next id found => exact wf.setPhase_releasing found
  | dropFields client =>
      simp only [Permits.next] at stepped
      split at stepped <;> cases stepped
      next found => exact wf.setPhase_notLive found rfl rfl (by simp) rfl

/-- Consistency of the permits is an inductive invariant. -/
def wellFormedInvariant (concurrency : Nat) : (permitMachine concurrency).Invariant where
  Inv := WellFormed concurrency
  initial := by
    rintro state rfl
    exact new_wellFormed concurrency
  preserved wf stepped := wf.step stepped

/-- What the permits promise their holders. -/
structure Allocation (concurrency : Nat) (permits : Permits) : Prop where
  /-- Live permits hold pairwise distinct ids. -/
  distinct : ∀ first second id : Nat, permits.clients[first]? = some (Phase.live id) →
    permits.clients[second]? = some (Phase.live id) → first = second
  below : ∀ client id : Nat, permits.clients[client]? = some (Phase.live id) → id < concurrency
  /-- An id is marked used exactly while a live permit holds it. -/
  used : ∀ id : Nat, permits.state.ids[id]? = some true ↔
    ∃ client : Nat, permits.clients[client]? = some (Phase.live id)
  /-- No `acquire` call has failed, and none can fail from here. -/
  acquired : ∀ (client : Nat) error, permits.clients[client]? ≠ some (Phase.failed error)
  acquires : ∀ client : Nat, permits.clients[client]? = some Phase.granted →
    ∃ id state, permits.state.findId = .ok (id, state)

theorem WellFormed.allocation (wf : current.WellFormed concurrency) :
    current.Allocation concurrency where
  distinct _ _ _ := wf.distinct
  below client id found := by
    have usedId := (wf.used id).mpr ⟨client, found⟩
    rw [← wf.tableLength]
    exact Table.lt_length_of_getElem? usedId
  used := wf.used
  acquired := wf.acquired
  acquires client found := by
    obtain ⟨id, _, allocated⟩ := wf.findId found
    exact ⟨id, _, allocated⟩

/-- In every interleaving of `acquire` calls, cancellations and drops the live
permits hold distinct ids, the table marks exactly those, and `acquire` never
runs out of ids. -/
theorem allocation_of_reachable {state : Permits} (reachable : (permitMachine concurrency).Reachable state) :
    state.Allocation concurrency :=
  ((wellFormedInvariant concurrency).of_reachable reachable).allocation

/-- Two calls contend for one slot, and the second one takes over the id that
the first one released. -/
theorem allocation_of_contended_slot :
    Allocation 1 ⟨⟨0, [true], false⟩, [.dropped, .live 0]⟩ :=
  allocation_of_reachable ⟨new 1,
    [.acquire, .acquire, .grant 0, .findId 0, .dropBody 0, .dropFields 0, .grant 1, .findId 1],
    rfl, rfl⟩

end Permits
end Solpg.Server.Routes.Build
