import Mathlib.Logic.Function.Basic
import Solpg.Std.Machine
import Solpg.Std.Text

/-!
# The lock of the chain actions

`useProgramActions`: a build, a deploy and an interaction take `chainActionRef`. So
does an instruction that is run from the inline panel, whose component tells when it
starts and when it ends.
-/

namespace Solpg.Client.Learning

open Solpg.Std

/-- The actions on a chain. -/
inductive ChainAction where
  | build
  | deploy
  | interact
  deriving DecidableEq, Repr

/-- The name of the action with a capital first letter. -/
def ChainAction.title : ChainAction → Text
  | .build => "Build".toList
  | .deploy => "Deploy".toList
  | .interact => "Interact".toList

/-- What `chainActionRef` points to. `serial` is the identity of the object. -/
structure ActiveAction where
  action : ChainAction
  workspaceName : Text
  serial : Nat
  deriving DecidableEq, Repr

/-- The references and the state that a chain action writes. `running` are the calls
of `runChainAction` that have not returned, `inline` are the workspaces that the
instructions under test have reported. -/
structure ChainActions where
  activeWorkspaceName : Text
  chainActionRef : Option ActiveAction
  terminalOwner : Option Text
  backgroundAction : Option ActiveAction
  chainAction : Text → Option ChainAction
  created : Nat
  running : List ActiveAction
  inline : List Text

namespace ChainActions

/-- The first render, in which no workspace has a chain action. -/
def initial (activeWorkspaceName : Text) : ChainActions where
  activeWorkspaceName := activeWorkspaceName
  chainActionRef := none
  terminalOwner := none
  backgroundAction := none
  chainAction := fun _ => none
  created := 0
  running := []
  inline := []

variable (chain : ChainActions)

/-- An action takes the chain. -/
def acquire (activeAction : ActiveAction) : ChainActions :=
  { chain with
    chainActionRef := some activeAction
    terminalOwner := some activeAction.workspaceName
    backgroundAction := some activeAction
    chainAction :=
      Function.update chain.chainAction activeAction.workspaceName (some activeAction.action)
    created := chain.created + 1 }

/-- The chain is free again. -/
def release (workspaceName : Text) : ChainActions :=
  { chain with
    chainActionRef := none
    terminalOwner := none
    backgroundAction := none
    chainAction := Function.update chain.chainAction workspaceName none }

/-- `runChainAction` up to the call of its operation, or the message that it returns. -/
def runChainAction (action : ChainAction) : Except Text ChainActions :=
  match chain.chainActionRef with
  | some current =>
      .error (current.action.title ++ " is already in progress for another workspace.".toList)
  | none =>
      let activeAction : ActiveAction := ⟨action, chain.activeWorkspaceName, chain.created⟩
      .ok { chain.acquire activeAction with running := chain.running ++ [activeAction] }

/-- The end of `runChainAction`, whether its operation has succeeded or not. -/
def finish (activeAction : ActiveAction) : ChainActions :=
  { if chain.chainActionRef = some activeAction then chain.release activeAction.workspaceName
    else chain with
    running := chain.running.erase activeAction }

/-- `setInlineInteractionRunning`. -/
def setInlineInteractionRunning (workspaceName : Text) (running : Bool) : ChainActions :=
  if running then chain.acquire ⟨.interact, workspaceName, chain.created⟩
  else
    match chain.chainActionRef with
    | some current =>
        if current.action = .interact ∧ current.workspaceName = workspaceName then
          chain.release workspaceName
        else chain
    | none => chain

/-- What is called, in any order. -/
inductive ChainCall where
  | runChainAction (action : ChainAction)
  | finish (activeAction : ActiveAction)
  /-- `handleTest` of an instruction starts. -/
  | test (workspaceName : Text)
  /-- The `finally` of `handleTest`. -/
  | tested (workspaceName : Text)
  | switchWorkspace (workspaceName : Text)
  deriving DecidableEq, Repr

/-- What a call makes of the chain; `none` is a call that cannot happen. -/
def step : ChainCall → Option ChainActions
  | .runChainAction action =>
      match chain.runChainAction action with
      | .ok started => some started
      | .error _ => some chain
  | .finish activeAction =>
      if activeAction ∈ chain.running then some (chain.finish activeAction) else none
  | .test workspaceName =>
      some { chain.setInlineInteractionRunning workspaceName true with
        inline := chain.inline ++ [workspaceName] }
  | .tested workspaceName =>
      if workspaceName ∈ chain.inline then
        some { chain.setInlineInteractionRunning workspaceName false with
          inline := chain.inline.erase workspaceName }
      else none
  | .switchWorkspace workspaceName => some { chain with activeWorkspaceName := workspaceName }

/-- The chain over time. -/
def machine : Machine ChainActions ChainCall where
  Initial chain := ∃ activeWorkspaceName, chain = initial activeWorkspaceName
  next chain call := chain.step call

/-- The number of chain actions in flight. -/
def inFlight : Nat := chain.running.length + chain.inline.length

/-! ## Mutual exclusion -/

/-- One chain action is in flight at most, and none is shown when none is. -/
structure Exclusive : Prop where
  single : chain.inFlight ≤ 1
  cleared : chain.inFlight = 0 →
    chain.backgroundAction = none ∧ ∀ workspaceName, chain.chainAction workspaceName = none

/-- An instruction is only run from the panel when no chain action is in flight. -/
def Waits (chain : ChainActions) : ChainCall → Prop
  | .test _ => chain.chainActionRef = none
  | _ => True

/-- What is in flight, by what `chainActionRef` points to. -/
def HeldBy : Option ActiveAction → Prop
  | none => chain.running = [] ∧ chain.inline = []
  | some current =>
      (chain.running = [current] ∧ chain.inline = []) ∨
        (current.action = .interact ∧ chain.running = [] ∧
          chain.inline = [current.workspaceName])

/-- What is shown in a workspace, by what `chainActionRef` points to. -/
def shownIn (workspaceName : Text) : Option ActiveAction → Option ChainAction
  | none => none
  | some current => if workspaceName = current.workspaceName then some current.action else none

/-- The lock is held by what is in flight, and only that is shown. -/
structure Locked : Prop where
  held : chain.HeldBy chain.chainActionRef
  background : chain.backgroundAction = chain.chainActionRef
  chainAction : ∀ workspaceName,
    chain.chainAction workspaceName = shownIn workspaceName chain.chainActionRef

variable {chain} {next : ChainActions} {call : ChainCall}

/-- A free chain runs nothing. -/
theorem Locked.free (locked : Locked chain) (free : chain.chainActionRef = none) :
    chain.running = [] ∧ chain.inline = [] := by
  simpa [HeldBy, free] using locked.held

/-- A taken chain runs the action that took it. -/
theorem Locked.taken {current : ActiveAction} (locked : Locked chain)
    (taken : chain.chainActionRef = some current) :
    (chain.running = [current] ∧ chain.inline = []) ∨
      (current.action = .interact ∧ chain.running = [] ∧
        chain.inline = [current.workspaceName]) := by
  simpa [HeldBy, taken] using locked.held

/-- A call of `runChainAction` that has not returned holds the lock. -/
theorem Locked.of_running {activeAction : ActiveAction} (locked : Locked chain)
    (runs : activeAction ∈ chain.running) :
    chain.chainActionRef = some activeAction ∧ chain.running = [activeAction] ∧
      chain.inline = [] := by
  cases holder : chain.chainActionRef with
  | none => simp [(locked.free holder).1] at runs
  | some current =>
      obtain ⟨running, inline⟩ | ⟨-, running, -⟩ := locked.taken holder
      · obtain rfl : activeAction = current := by simpa [running] using runs
        exact ⟨rfl, running, inline⟩
      · simp [running] at runs

/-- An instruction under test holds the lock. -/
theorem Locked.of_inline {workspaceName : Text} (locked : Locked chain)
    (tests : workspaceName ∈ chain.inline) :
    ∃ current, chain.chainActionRef = some current ∧ current.action = .interact ∧
      current.workspaceName = workspaceName ∧ chain.running = [] ∧
      chain.inline = [workspaceName] := by
  cases holder : chain.chainActionRef with
  | none => simp [(locked.free holder).2] at tests
  | some current =>
      obtain ⟨-, inline⟩ | ⟨interacts, running, inline⟩ := locked.taken holder
      · simp [inline] at tests
      · obtain rfl : workspaceName = current.workspaceName := by simpa [inline] using tests
        exact ⟨current, rfl, interacts, rfl, running, inline⟩

/-- A taken chain has one action in flight. -/
theorem Locked.inFlight_of_taken {current : ActiveAction} (locked : Locked chain)
    (taken : chain.chainActionRef = some current) : chain.inFlight = 1 := by
  obtain ⟨running, inline⟩ | ⟨-, running, inline⟩ := locked.taken taken <;>
    simp [inFlight, running, inline]

/-- A locked chain runs one action at a time. -/
theorem Locked.exclusive (locked : Locked chain) : Exclusive chain := by
  cases holder : chain.chainActionRef with
  | none =>
      obtain ⟨running, inline⟩ := locked.free holder
      refine ⟨by simp [inFlight, running, inline], fun _ => ⟨?_, fun workspaceName => ?_⟩⟩
      · rw [locked.background, holder]
      · rw [locked.chainAction, holder, shownIn]
  | some current =>
      have single := locked.inFlight_of_taken holder
      exact ⟨single.le, fun none => absurd (none.symm.trans single) nofun⟩

/-- Who takes a free lock is the only one in flight. -/
theorem Locked.acquire (locked : Locked chain) (free : chain.chainActionRef = none)
    (activeAction : ActiveAction) {running : List ActiveAction} {inline : List Text}
    (held : (running = [activeAction] ∧ inline = []) ∨
      (activeAction.action = .interact ∧ running = [] ∧ inline = [activeAction.workspaceName])) :
    Locked { chain.acquire activeAction with running := running, inline := inline } where
  held := held
  background := rfl
  chainAction workspaceName := by
    have before : chain.chainAction workspaceName = none := by
      rw [locked.chainAction, free, shownIn]
    by_cases own : workspaceName = activeAction.workspaceName
    · simp [ChainActions.acquire, shownIn, own]
    · simp [ChainActions.acquire, shownIn, own, before]

/-- The end of what holds the lock leaves nothing in flight. -/
theorem Locked.release {current : ActiveAction} (locked : Locked chain)
    (taken : chain.chainActionRef = some current) :
    Locked { chain.release current.workspaceName with running := [], inline := [] } where
  held := ⟨rfl, rfl⟩
  background := rfl
  chainAction workspaceName := by
    by_cases own : workspaceName = current.workspaceName
    · simp [ChainActions.release, shownIn, own]
    · simp [ChainActions.release, shownIn, own, locked.chainAction, taken]

/-- An action that starts keeps the lock. -/
theorem Locked.runChainAction (locked : Locked chain) {action : ChainAction}
    (started : chain.runChainAction action = .ok next) : Locked next := by
  simp only [ChainActions.runChainAction] at started
  split at started
  next => cases started
  next free =>
    obtain ⟨running, inline⟩ := locked.free free
    cases started
    have only := locked.acquire free ⟨action, chain.activeWorkspaceName, chain.created⟩
      (.inl ⟨rfl, rfl⟩)
    simpa [ChainActions.acquire, running, inline] using only

/-- An action that finishes keeps the lock. -/
theorem Locked.finish (locked : Locked chain) {activeAction : ActiveAction}
    (runs : activeAction ∈ chain.running) : Locked (chain.finish activeAction) := by
  obtain ⟨taken, running, inline⟩ := locked.of_running runs
  simpa [ChainActions.finish, ChainActions.release, taken, running, inline] using
    locked.release taken

/-- A test that starts on a free chain keeps the lock. -/
theorem Locked.test (locked : Locked chain) (free : chain.chainActionRef = none)
    (workspaceName : Text) :
    Locked { chain.setInlineInteractionRunning workspaceName true with
      inline := chain.inline ++ [workspaceName] } := by
  obtain ⟨running, inline⟩ := locked.free free
  have only := locked.acquire free ⟨.interact, workspaceName, chain.created⟩
    (.inr ⟨rfl, rfl, rfl⟩)
  simpa [setInlineInteractionRunning, ChainActions.acquire, running, inline] using only

/-- A test that ends keeps the lock. -/
theorem Locked.tested (locked : Locked chain) {workspaceName : Text}
    (tests : workspaceName ∈ chain.inline) :
    Locked { chain.setInlineInteractionRunning workspaceName false with
      inline := chain.inline.erase workspaceName } := by
  obtain ⟨current, taken, interacts, rfl, running, inline⟩ := locked.of_inline tests
  simpa [setInlineInteractionRunning, ChainActions.release, taken, interacts, running, inline]
    using locked.release taken

/-- Every call that waits for the chain keeps the lock. -/
theorem locked_step (locked : Locked chain) (waits : Waits chain call)
    (stepped : chain.step call = some next) : Locked next := by
  cases call with
  | runChainAction action =>
      simp only [step] at stepped
      split at stepped
      next started ran =>
        cases stepped
        exact locked.runChainAction ran
      next =>
        cases stepped
        exact locked
  | finish activeAction =>
      simp only [step] at stepped
      split at stepped
      next runs =>
        cases stepped
        exact locked.finish runs
      next => cases stepped
  | test workspaceName =>
      cases stepped
      exact locked.test waits workspaceName
  | tested workspaceName =>
      simp only [step] at stepped
      split at stepped
      next tests =>
        cases stepped
        exact locked.tested tests
      next => cases stepped
  | switchWorkspace workspaceName =>
      cases stepped
      exact ⟨locked.held, locked.background, locked.chainAction⟩

/-- An instruction that takes the lock of a chain action is a second one in flight. -/
theorem waits_of_exclusive (locked : Locked chain) (stepped : chain.step call = some next)
    (exclusive : Exclusive next) : Waits chain call := by
  cases call with
  | test workspaceName =>
      cases stepped
      cases holder : chain.chainActionRef with
      | none => exact holder
      | some current =>
          have before := locked.inFlight_of_taken holder
          have after := exclusive.single
          simp only [inFlight, List.length_append, List.length_singleton,
            setInlineInteractionRunning, ChainActions.acquire, if_true] at before after
          omega
  | _ => trivial

/-- The chain actions exclude one another in exactly the runs in which no instruction is
run from the panel while one of them is in flight. -/
theorem exclusive_iff (activeWorkspaceName : Text) (calls : List ChainCall) :
    machine.Throughout Exclusive (initial activeWorkspaceName) calls ↔
      machine.Meets Waits (initial activeWorkspaceName) calls := by
  have start : Locked (initial activeWorkspaceName) := ⟨⟨rfl, rfl⟩, rfl, fun _ => rfl⟩
  refine Machine.throughout_iff_meets_while Locked Locked.exclusive ?_ locked_step
    waits_of_exclusive calls start
  intro chain call _ stuck
  cases call with
  | test workspaceName => cases stuck
  | _ => trivial

/-- An instruction is run from the panel during a build. -/
theorem not_always_exclusive : ¬ ∀ (activeWorkspaceName : Text) (calls : List ChainCall),
    machine.Throughout Exclusive (initial activeWorkspaceName) calls := by
  intro exclusive
  have after := (exclusive "counter".toList [.runChainAction .build,
    .test "counter".toList]).of_run rfl
  exact absurd after.single (by decide)

end ChainActions
end Solpg.Client.Learning
