import Solpg.Server.Routes.Build.Permit

/-!
# The build route

`build` of `routes/build.rs`: the async handler owns the permit, the work runs
in a blocking task which the handler only awaits. Dropping the handler's future
drops the permit and detaches the task; nothing stops the task. A run of
`buildMachine` is one interleaving of requests, cancellations and blocking tasks.
-/

namespace Solpg.Server.Routes.Build

open Solpg.Std

/-- Where a build is. -/
inductive TaskStatus where
  | queued
  | running
  | finished
  deriving DecidableEq, Repr

/-- One `spawn_blocking` call: `program::build(concurrency_id, &uuid, ..)` on
behalf of the request numbered `client`. -/
structure Task where
  client : Nat
  concurrencyId : Nat
  programName : String
  status : TaskStatus
  deriving DecidableEq, Repr

namespace Task

/-- The build runs. -/
def isRunning (task : Task) : Bool := decide (task.status = .running)

/-- The build has finished. -/
def isFinished (task : Task) : Bool := decide (task.status = .finished)

end Task

/-- The permits, the `uuid` of each request that has passed validation, and
every blocking task spawned so far. -/
structure BuildServer where
  permits : Permits
  programNames : List String
  tasks : List Task
  deriving DecidableEq, Repr

/-- A request, or a step of one, in any order. -/
inductive BuildAction where
  /-- A request whose `uuid` was accepted (or made up) awaits its permit. -/
  | request (programName : String)
  /-- The future is dropped while it awaits its permit. -/
  | cancel (client : Nat)
  | grant (client : Nat)
  | findId (client : Nat)
  | spawn (client : Nat)
  | start (task : Nat)
  | finish (task : Nat)
  /-- The future stops owning its permit: it returns, or it is dropped at the
  `await` of its task. -/
  | dropPermit (client : Nat)
  | dropFields (client : Nat)
  deriving DecidableEq, Repr

namespace BuildServer

/-- A server that has built nothing. -/
def new (concurrency : Nat) : BuildServer where
  permits := Permits.new concurrency
  programNames := []
  tasks := []

/-- The permits change. -/
def withPermits (server : BuildServer) (permits : Permits) : BuildServer :=
  { server with permits }

/-- A task has been spawned for the request. -/
def spawned (server : BuildServer) (client : Nat) : Bool :=
  server.tasks.any fun task => task.client == client

/-- A build takes a step. -/
def setStatus (server : BuildServer) (index : Nat) (task : Task) (status : TaskStatus) :
    BuildServer :=
  { server with tasks := server.tasks.set index { task with status } }

/-- What an action makes of the server; `none` is an action that cannot be taken. -/
def next (server : BuildServer) : BuildAction → Option BuildServer
  | .request programName =>
      some { server with
        permits := { server.permits with clients := server.permits.clients ++ [.waiting] }
        programNames := server.programNames ++ [programName] }
  | .cancel client => (server.permits.next (.cancel client)).map server.withPermits
  | .grant client => (server.permits.next (.grant client)).map server.withPermits
  | .findId client => (server.permits.next (.findId client)).map server.withPermits
  | .spawn client =>
      match server.permits.clients[client]?, server.programNames[client]? with
      | some (.live id), some programName =>
          if server.spawned client then none
          else some { server with tasks := server.tasks ++ [⟨client, id, programName, .queued⟩] }
      | _, _ => none
  | .start index =>
      match server.tasks[index]? with
      | some task => if task.status = .queued then some (server.setStatus index task .running) else none
      | none => none
  | .finish index =>
      match server.tasks[index]? with
      | some task => if task.status = .running then some (server.setStatus index task .finished) else none
      | none => none
  | .dropPermit client =>
      -- There is no await between `acquire` returning and the spawn.
      if server.spawned client then
        (server.permits.next (.dropBody client)).map server.withPermits
      else none
  | .dropFields client => (server.permits.next (.dropFields client)).map server.withPermits

/-- The builds that run. -/
def runningTasks (server : BuildServer) : List Task := server.tasks.filter Task.isRunning

/-- Running builds do not share a slot, a concurrency id or a directory. -/
structure Isolated (concurrency : Nat) (server : BuildServer) : Prop where
  bounded : server.runningTasks.length ≤ concurrency
  ids : (server.runningTasks.map Task.concurrencyId).Nodup
  directories : (server.runningTasks.map Task.programName).Nodup

/-- The future is not dropped at the `await` of a task that has not finished. -/
def attended (server : BuildServer) : BuildAction → Bool
  | .dropPermit client =>
      server.tasks.all fun task => task.client != client || task.isFinished
  | _ => true

/-- The request still awaits its permit or owns it. -/
def inFlight (server : BuildServer) (client : Nat) : Bool :=
  match server.permits.clients[client]? with
  | some phase => phase.inFlight
  | none => false

/-- The request shares no program directory with one that is still in flight;
with a single slot it may. -/
def separate (concurrency : Nat) (server : BuildServer) : BuildAction → Bool
  | .request programName =>
      decide (concurrency ≤ 1) ||
        (List.range server.programNames.length).all fun client =>
          !server.inFlight client || server.programNames[client]? != some programName
  | _ => true

end BuildServer

/-- Every interleaving of `POST /build` requests on one server. -/
def buildMachine (concurrency : Nat) : Machine BuildServer BuildAction where
  Initial state := state = BuildServer.new concurrency
  next := BuildServer.next

namespace BuildServer

variable {concurrency : Nat} {current after : BuildServer} {action : BuildAction}

/-- What one action can do: move the permits by one permit action, or touch
only the tasks. -/
theorem next_permits (stepped : current.next action = some after) :
    (∃ permitAction, current.permits.next permitAction = some after.permits) ∨
      after.permits = current.permits := by
  cases action with
  | request programName =>
      cases stepped
      exact .inl ⟨.acquire, rfl⟩
  | cancel client | grant client | findId client | dropFields client =>
      obtain ⟨permits, moved, rfl⟩ := Option.map_eq_some_iff.mp stepped
      exact .inl ⟨_, moved⟩
  | dropPermit client =>
      simp only [BuildServer.next] at stepped
      split at stepped
      · obtain ⟨permits, moved, rfl⟩ := Option.map_eq_some_iff.mp stepped
        exact .inl ⟨_, moved⟩
      · cases stepped
  | spawn client =>
      simp only [BuildServer.next] at stepped
      split at stepped
      · split at stepped <;> cases stepped
        exact .inr rfl
      · cases stepped
  | start index | finish index =>
      simp only [BuildServer.next] at stepped
      split at stepped
      · split at stepped <;> cases stepped
        exact .inr rfl
      · cases stepped

/-- The server's permits run like permits on their own. -/
def permitSimulation (concurrency : Nat) :
    Machine.Simulation (buildMachine concurrency) (permitMachine concurrency) where
  mapState := BuildServer.permits
  initial := by
    rintro state rfl
    rfl
  step := by
    intro state action after stepped
    rcases next_permits stepped with ⟨permitAction, moved⟩ | unchanged
    · refine ⟨[permitAction], ?_⟩
      change (permitMachine concurrency).next state.permits permitAction = some after.permits at moved
      simp [moved]
    · exact ⟨[], by simp [unchanged]⟩

/-- Whatever happens to the requests, the permits stay consistent. -/
theorem permits_wellFormed {state : BuildServer} (reachable : (buildMachine concurrency).Reachable state) :
    state.permits.WellFormed concurrency :=
  (Permits.wellFormedInvariant concurrency).of_reachable
    ((permitSimulation concurrency).reachable reachable)

/-- In an attended run each unfinished task belongs to a request that owns the
permit with the task's concurrency id. -/
structure Attending (concurrency : Nat) (server : BuildServer) : Prop where
  wellFormed : server.permits.WellFormed concurrency
  named : server.programNames.length = server.permits.clients.length
  owner : ∀ (index : Nat) task, server.tasks[index]? = some task →
    server.programNames[task.client]? = some task.programName
  held : ∀ (index : Nat) task, server.tasks[index]? = some task → task.isFinished = false →
    server.permits.clients[task.client]? = some (Phase.live task.concurrencyId)
  single : ∀ (first second : Nat) left right, server.tasks[first]? = some left →
    server.tasks[second]? = some right → left.client = right.client → first = second

/-- At first every permit is free. -/
theorem new_attending (concurrency : Nat) : (new concurrency).Attending concurrency where
  wellFormed := Permits.new_wellFormed concurrency
  named := rfl
  owner := by simp [new]
  held := by simp [new]
  single := by simp [new]

/-- Moving the permits keeps every unfinished task's permit, unless the action
drops the permit of an unfinished task. -/
theorem Attending.withPermits (att : current.Attending concurrency) {permitAction : PermitAction}
    {permits : Permits} (moved : current.permits.next permitAction = some permits)
    (existing : permitAction ≠ .acquire)
    (finished : ∀ client, permitAction = .dropBody client →
      ∀ task ∈ current.tasks, task.client = client → task.isFinished = true) :
    (current.withPermits permits).Attending concurrency := by
  rcases Permits.next_clients moved with ⟨isAcquire, _⟩ |
    ⟨client, before, phase, found, clients, dropped, _⟩
  · exact absurd isAcquire existing
  constructor
  · exact att.wellFormed.step moved
  · simpa [BuildServer.withPermits, clients] using att.named
  · exact att.owner
  · intro index task foundTask unfinished
    have live := att.held index task foundTask unfinished
    have different : client ≠ task.client := by
      rintro rfl
      rw [found] at live
      cases live
      have done := finished _ (dropped rfl) task (List.mem_of_getElem? foundTask) rfl
      simp [done] at unfinished
    simp only [BuildServer.withPermits, clients, List.getElem?_set_ne different]
    exact live
  · exact att.single

/-- Changing the status of a task keeps the invariant, as a finished task is
never restarted. -/
theorem Attending.setStatus (att : current.Attending concurrency) {index : Nat} {task : Task}
    {status : TaskStatus} (found : current.tasks[index]? = some task)
    (unfinished : task.isFinished = false) :
    (current.setStatus index task status).Attending concurrency := by
  constructor
  · exact att.wellFormed
  · exact att.named
  · intro other entry foundEntry
    rcases Table.getElem?_set_cases foundEntry with ⟨_, rfl⟩ | ⟨_, before⟩
    · exact att.owner index task found
    · exact att.owner other entry before
  · intro other entry foundEntry unfinishedEntry
    rcases Table.getElem?_set_cases foundEntry with ⟨_, rfl⟩ | ⟨_, before⟩
    · exact att.held index task found unfinished
    · exact att.held other entry before unfinishedEntry
  · intro first second left right foundLeft foundRight same
    rcases Table.getElem?_set_cases foundLeft with ⟨rfl, rfl⟩ | ⟨_, beforeLeft⟩ <;>
      rcases Table.getElem?_set_cases foundRight with ⟨rfl, rfl⟩ | ⟨_, beforeRight⟩
    · rfl
    · exact att.single first second task right found beforeRight same
    · exact att.single first second left task beforeLeft found same
    · exact att.single first second left right beforeLeft beforeRight same

/-- A task spawned by a live request that has none yet. -/
theorem Attending.spawn (att : current.Attending concurrency) {client id : Nat}
    {programName : String} (live : current.permits.clients[client]? = some (Phase.live id))
    (name : current.programNames[client]? = some programName)
    (fresh : current.spawned client = false) :
    Attending concurrency
      { current with tasks := current.tasks ++ [⟨client, id, programName, .queued⟩] } := by
  have freshTask : ∀ (index : Nat) task, current.tasks[index]? = some task → task.client ≠ client := by
    intro index task found same
    have := List.any_eq_false.mp fresh task (List.mem_of_getElem? found)
    simp [same] at this
  constructor
  · exact att.wellFormed
  · exact att.named
  · intro index task found
    rcases Table.getElem?_append_singleton_cases found with before | ⟨_, rfl⟩
    · exact att.owner index task before
    · exact name
  · intro index task found unfinished
    rcases Table.getElem?_append_singleton_cases found with before | ⟨_, rfl⟩
    · exact att.held index task before unfinished
    · exact live
  · intro first second left right foundLeft foundRight same
    rcases Table.getElem?_append_singleton_cases foundLeft with beforeLeft | ⟨rfl, rfl⟩ <;>
      rcases Table.getElem?_append_singleton_cases foundRight with beforeRight | ⟨rfl, rfl⟩
    · exact att.single first second left right beforeLeft beforeRight same
    · exact absurd same (freshTask first left beforeLeft)
    · exact absurd same.symm (freshTask second right beforeRight)
    · rfl

/-- A new request has no task yet. -/
theorem Attending.request (att : current.Attending concurrency) (programName : String) :
    Attending concurrency { current with
      permits := { current.permits with clients := current.permits.clients ++ [.waiting] }
      programNames := current.programNames ++ [programName] } := by
  constructor
  · exact att.wellFormed.acquire
  · simp [att.named]
  · intro index task found
    have name := att.owner index task found
    rw [List.getElem?_append_left (Table.lt_length_of_getElem? name)]
    exact name
  · intro index task found unfinished
    have live := att.held index task found unfinished
    rw [List.getElem?_append_left (Table.lt_length_of_getElem? live)]
    exact live
  · exact att.single

/-- Every action of an attended run keeps the invariant. -/
theorem Attending.step (att : current.Attending concurrency)
    (guarded : current.attended action = true) (stepped : current.next action = some after) :
    after.Attending concurrency := by
  cases action with
  | request programName =>
      cases stepped
      exact att.request programName
  | cancel client | grant client | findId client | dropFields client =>
      obtain ⟨permits, moved, rfl⟩ := Option.map_eq_some_iff.mp stepped
      exact att.withPermits moved (by simp) (by simp)
  | spawn client =>
      simp only [BuildServer.next] at stepped
      split at stepped
      next id programName live name =>
        split at stepped <;> cases stepped
        next fresh => exact att.spawn live name (by simpa using fresh)
      next => cases stepped
  | start index =>
      simp only [BuildServer.next] at stepped
      split at stepped
      next task found =>
        split at stepped <;> cases stepped
        next queued => exact att.setStatus found (by simp [Task.isFinished, queued])
      next => cases stepped
  | finish index =>
      simp only [BuildServer.next] at stepped
      split at stepped
      next task found =>
        split at stepped <;> cases stepped
        next running => exact att.setStatus found (by simp [Task.isFinished, running])
      next => cases stepped
  | dropPermit client =>
      simp only [BuildServer.next] at stepped
      split at stepped
      next =>
        obtain ⟨permits, moved, rfl⟩ := Option.map_eq_some_iff.mp stepped
        refine att.withPermits moved (by simp) ?_
        rintro owner same task member rfl
        cases same
        have done := List.all_eq_true.mp guarded task member
        simpa using done
      next => cases stepped

/-- With several slots, requests in flight have pairwise distinct directories. -/
def Separated (concurrency : Nat) (server : BuildServer) : Prop :=
  concurrency ≤ 1 ∨ ∀ (first second : Nat) (programName : String),
    server.inFlight first = true → server.inFlight second = true →
    server.programNames[first]? = some programName →
    server.programNames[second]? = some programName → first = second

/-- No action of an existing request puts a request back in flight. -/
theorem inFlight_withPermits {permitAction : PermitAction} {permits : Permits}
    (moved : current.permits.next permitAction = some permits) (existing : permitAction ≠ .acquire)
    {client : Nat} (flying : (current.withPermits permits).inFlight client = true) :
    current.inFlight client = true := by
  rcases Permits.next_clients moved with ⟨isAcquire, _⟩ |
    ⟨moving, before, phase, found, clients, _, settles⟩
  · exact absurd isAcquire existing
  simp only [inFlight, BuildServer.withPermits, clients] at flying ⊢
  by_cases same : moving = client
  · subst same
    rw [List.getElem?_set_self (Table.lt_length_of_getElem? found)] at flying
    rw [found]
    simp only at flying ⊢
    rw [flying] at settles
    cases flyingBefore : before.inFlight
    · simp [flyingBefore] at settles
    · rfl
  · rwa [List.getElem?_set_ne same] at flying

/-- A change of the permits keeps the builds apart. -/
theorem Separated.withPermits (sep : current.Separated concurrency) {permitAction : PermitAction}
    {permits : Permits} (moved : current.permits.next permitAction = some permits)
    (existing : permitAction ≠ .acquire) : (current.withPermits permits).Separated concurrency := by
  rcases sep with single | distinct
  · exact .inl single
  · refine .inr fun first second programName flyingFirst flyingSecond => ?_
    exact distinct first second programName (inFlight_withPermits moved existing flyingFirst)
      (inFlight_withPermits moved existing flyingSecond)

/-- A request that is admitted under the guard keeps the directories distinct. -/
theorem Separated.request (sep : current.Separated concurrency)
    (named : current.programNames.length = current.permits.clients.length) {programName : String}
    (guarded : current.separate concurrency (.request programName) = true) :
    Separated concurrency { current with
      permits := { current.permits with clients := current.permits.clients ++ [.waiting] }
      programNames := current.programNames ++ [programName] } := by
  rcases sep with single | distinct
  · exact .inl single
  simp only [separate, Bool.or_eq_true, decide_eq_true_eq] at guarded
  rcases guarded with single | unshared
  · exact .inl single
  have fresh : ∀ client, client < current.programNames.length → current.inFlight client = true →
      current.programNames[client]? ≠ some programName := by
    intro client inside flying
    have := List.all_eq_true.mp unshared client (List.mem_range.mpr inside)
    simpa [flying] using this
  have flyingBefore : ∀ client, client < current.programNames.length →
      inFlight { current with
        permits := { current.permits with clients := current.permits.clients ++ [.waiting] }
        programNames := current.programNames ++ [programName] } client = true →
      current.inFlight client = true := by
    intro client inside flying
    rw [named] at inside
    simpa [inFlight, List.getElem?_append_left inside] using flying
  refine .inr fun first second name flyingFirst flyingSecond nameFirst nameSecond => ?_
  rcases Table.getElem?_append_singleton_cases nameFirst with beforeFirst | ⟨rfl, rfl⟩ <;>
    rcases Table.getElem?_append_singleton_cases nameSecond with beforeSecond | ⟨lastSecond, equal⟩
  · exact distinct first second name
      (flyingBefore first (Table.lt_length_of_getElem? beforeFirst) flyingFirst)
      (flyingBefore second (Table.lt_length_of_getElem? beforeSecond) flyingSecond)
      beforeFirst beforeSecond
  · subst equal
    have inside := Table.lt_length_of_getElem? beforeFirst
    exact absurd beforeFirst (fresh first inside (flyingBefore first inside flyingFirst))
  · have inside := Table.lt_length_of_getElem? beforeSecond
    exact absurd beforeSecond (fresh second inside (flyingBefore second inside flyingSecond))
  · exact lastSecond.symm

/-- Every action of a separate run keeps the directories in flight distinct. -/
theorem Separated.step (sep : current.Separated concurrency)
    (named : current.programNames.length = current.permits.clients.length)
    (guarded : current.separate concurrency action = true)
    (stepped : current.next action = some after) : after.Separated concurrency := by
  cases action with
  | request programName =>
      cases stepped
      exact sep.request named guarded
  | cancel client | grant client | findId client | dropFields client =>
      obtain ⟨permits, moved, rfl⟩ := Option.map_eq_some_iff.mp stepped
      exact sep.withPermits moved (by simp)
  | dropPermit client =>
      simp only [BuildServer.next] at stepped
      split at stepped
      · obtain ⟨permits, moved, rfl⟩ := Option.map_eq_some_iff.mp stepped
        exact sep.withPermits moved (by simp)
      · cases stepped
  | spawn client =>
      simp only [BuildServer.next] at stepped
      split at stepped
      · split at stepped <;> cases stepped
        exact sep
      · cases stepped
  | start index | finish index =>
      simp only [BuildServer.next] at stepped
      split at stepped
      · split at stepped <;> cases stepped
        exact sep
      · cases stepped

/-- A build that runs has not finished. -/
theorem Task.unfinished_of_running {task : Task} (running : task.isRunning = true) :
    task.isFinished = false := by
  simp only [Task.isRunning, decide_eq_true_eq] at running
  simp [Task.isFinished, running]

/-- Running tasks are told apart by their concurrency ids. -/
theorem Attending.ids (att : current.Attending concurrency) :
    (current.runningTasks.map Task.concurrencyId).Nodup := by
  apply Table.nodup_map_filter
  intro first second left right foundLeft foundRight runningLeft runningRight sameId
  have liveLeft := att.held first left foundLeft (Task.unfinished_of_running runningLeft)
  have liveRight := att.held second right foundRight (Task.unfinished_of_running runningRight)
  rw [sameId] at liveLeft
  exact att.single first second left right foundLeft foundRight
    (att.wellFormed.distinct liveLeft liveRight)

/-- Every id of a running task is below the number of slots. -/
theorem Attending.id_lt (att : current.Attending concurrency) {index : Nat} {task : Task}
    (found : current.tasks[index]? = some task) (running : task.isRunning = true) :
    task.concurrencyId < concurrency :=
  att.wellFormed.allocation.below _ _ (att.held index task found (Task.unfinished_of_running running))

/-- So running tasks are no more than the slots. -/
theorem Attending.bounded (att : current.Attending concurrency) :
    current.runningTasks.length ≤ concurrency := by
  have below : ∀ id ∈ current.runningTasks.map Task.concurrencyId, id < concurrency := by
    intro id member
    obtain ⟨task, selected, rfl⟩ := List.mem_map.mp member
    obtain ⟨taskMember, running⟩ := List.mem_filter.mp selected
    obtain ⟨index, found⟩ := List.mem_iff_getElem?.mp taskMember
    exact att.id_lt found running
  simpa using Table.length_le_of_nodup_lt att.ids below

/-- Running tasks are told apart by their directories: their requests are in
flight, and one slot has at most one running task. -/
theorem Attending.directories (att : current.Attending concurrency)
    (sep : current.Separated concurrency) :
    (current.runningTasks.map Task.programName).Nodup := by
  apply Table.nodup_map_filter
  intro first second left right foundLeft foundRight runningLeft runningRight sameName
  have liveLeft := att.held first left foundLeft (Task.unfinished_of_running runningLeft)
  have liveRight := att.held second right foundRight (Task.unfinished_of_running runningRight)
  have sameClient : left.client = right.client := by
    rcases sep with single | distinct
    · have boundLeft := att.id_lt foundLeft runningLeft
      have boundRight := att.id_lt foundRight runningRight
      have sameId : left.concurrencyId = right.concurrencyId := by omega
      rw [sameId] at liveLeft
      exact att.wellFormed.distinct liveLeft liveRight
    · have nameLeft := att.owner first left foundLeft
      have nameRight := att.owner second right foundRight
      rw [sameName] at nameLeft
      exact distinct left.client right.client right.programName (by simp [inFlight, liveLeft, Phase.inFlight])
        (by simp [inFlight, liveRight, Phase.inFlight]) nameLeft nameRight
  exact att.single first second left right foundLeft foundRight sameClient

/-- The machine without the two kinds of step that lose isolation: a future
dropped at the `await` of an unfinished task, and a request for a directory
that is in flight while there are several slots. -/
def isolatedMachine (concurrency : Nat) : Machine BuildServer BuildAction :=
  (buildMachine concurrency).restrict fun server action =>
    server.attended action && server.separate concurrency action

/-- In isolated runs the builds stay apart. -/
def isolationInvariant (concurrency : Nat) : (isolatedMachine concurrency).Invariant where
  Inv server := server.Attending concurrency ∧ server.Separated concurrency
  initial := by
    rintro state rfl
    exact ⟨new_attending concurrency, .inr (by simp [new])⟩
  preserved := by
    rintro state action after ⟨att, sep⟩ stepped
    obtain ⟨guarded, moved⟩ := Machine.restrict_next_eq_some.mp stepped
    obtain ⟨attended, separate⟩ := Bool.and_eq_true_iff.mp guarded
    exact ⟨att.step attended moved, sep.step att.named separate moved⟩

/-- In every run without such a step, running builds share no slot, no
concurrency id and no program directory at any moment. -/
theorem isolated_of_reachable {state : BuildServer}
    (reachable : (isolatedMachine concurrency).Reachable state) : state.Isolated concurrency := by
  obtain ⟨att, sep⟩ := (isolationInvariant concurrency).of_reachable reachable
  exact ⟨att.bounded, att.ids, att.directories sep⟩

/-- Two requests on two slots, both running. -/
theorem isolated_of_two_builds : Isolated 2
    ⟨⟨⟨0, [true, true], false⟩, [.live 0, .live 1]⟩, ["a", "b"],
      [⟨0, 0, "a", .running⟩, ⟨1, 1, "b", .running⟩]⟩ :=
  isolated_of_reachable ⟨new 2,
    [.request "a", .request "b", .grant 0, .findId 0, .spawn 0, .start 0,
      .grant 1, .findId 1, .spawn 1, .start 1], rfl, by decide⟩

/-- Each part of isolation fails in some run. A client disconnects from the
only slot and the next build joins the detached one, with its id; and on two
slots two builds of one uuid write one directory without any disconnect. -/
theorem not_isolated :
    (¬ ∀ (concurrency : Nat) (state : BuildServer), (buildMachine concurrency).Reachable state →
      state.runningTasks.length ≤ concurrency) ∧
    (¬ ∀ (concurrency : Nat) (state : BuildServer), (buildMachine concurrency).Reachable state →
      (state.runningTasks.map Task.concurrencyId).Nodup) ∧
    (¬ ∀ (concurrency : Nat) (state : BuildServer), (buildMachine concurrency).Reachable state →
      (state.runningTasks.map Task.programName).Nodup) := by
  have detached : (buildMachine 1).Reachable
      ⟨⟨⟨0, [true], false⟩, [.dropped, .live 0]⟩, ["a", "b"],
        [⟨0, 0, "a", .running⟩, ⟨1, 0, "b", .running⟩]⟩ :=
    ⟨new 1, [.request "a", .grant 0, .findId 0, .spawn 0, .start 0, .dropPermit 0, .dropFields 0,
      .request "b", .grant 1, .findId 1, .spawn 1, .start 1], rfl, rfl⟩
  have shared : (buildMachine 2).Reachable
      ⟨⟨⟨0, [true, true], false⟩, [.live 0, .live 1]⟩, ["a", "a"],
        [⟨0, 0, "a", .running⟩, ⟨1, 1, "a", .running⟩]⟩ :=
    ⟨new 2, [.request "a", .grant 0, .findId 0, .spawn 0, .start 0,
      .request "a", .grant 1, .findId 1, .spawn 1, .start 1], rfl, rfl⟩
  refine ⟨fun bounded => ?_, fun ids => ?_, fun directories => ?_⟩
  · exact absurd (bounded 1 _ detached) (by decide)
  · exact absurd (ids 1 _ detached) (by decide)
  · exact absurd (directories 2 _ shared) (by decide)

end BuildServer
end Solpg.Server.Routes.Build
