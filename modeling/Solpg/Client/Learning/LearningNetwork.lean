import Solpg.Std.Machine
import Solpg.Std.Url
import Solpg.Client.Utils.Common

/-!
# The network of the learning playground

`useLearningNetwork`: connecting to an RPC, saving another one and resetting it.
A step is what runs between two awaits. A callback remembers `surfpoolConnected`
from the render that made it, so a call carries the value that it has seen.
-/

namespace Solpg.Client.Learning

open Solpg.Std Solpg.Client.Utils PgCommon

def SURFPOOL_RPC_URL : Text := "https://holms-subas-mics.txtx.network:8899/".toList

/-- `normalizeRpcUrl`. The errors are not told apart. -/
def normalizeRpcUrl (parseHost : Text → Option Text) (value : Text) : Option Text :=
  (Url.parse parseHost value.trim).map Url.serialize

/-- How far the promise in `connectPromiseRef` is. -/
inductive ConnectPhase where
  | checking
  | settled
  deriving DecidableEq, Repr

structure ConnectPromise where
  endpoint : Text
  phase : ConnectPhase
  deriving DecidableEq, Repr

/-- How the health check ends. -/
inductive Health where
  | unhealthy
  /-- The endpoint is healthy, but the play wallet cannot be read. -/
  | walletFails
  | healthy
  deriving DecidableEq, Repr

/-- The state and the references of the hook, with what it stores elsewhere.
`resets` are the endpoints that `surfnet_resetNetwork` was sent to. -/
structure LearningNetwork where
  surfpoolConnected : Bool
  rpcEndpoint : Text
  connectPromise : Option ConnectPromise
  connectedRpc : Option Text
  settingsEndpoint : Text
  customRpc : Option Text
  resets : List Text
  deriving DecidableEq, Repr

namespace LearningNetwork

/-- The first render. -/
def initial (customRpc : Option Text) (settingsEndpoint : Text) : LearningNetwork where
  surfpoolConnected := false
  rpcEndpoint := ((customRpc.map Text.trim).filter fun saved => !saved.isEmpty).getD SURFPOOL_RPC_URL
  connectPromise := none
  connectedRpc := none
  settingsEndpoint := settingsEndpoint
  customRpc := customRpc
  resets := []

variable (network : LearningNetwork)

/-- The call of `connectRpc` starts a health check. -/
def starts (endpoint : Text) (wasConnected : Bool) : Bool :=
  !(wasConnected && network.connectedRpc == some endpoint) && network.connectPromise.isNone

/-- `connectRpc` up to its first await. -/
def connectRpc (endpoint : Text) (wasConnected : Bool) : LearningNetwork :=
  if network.starts endpoint wasConnected then
    { network with connectPromise := some ⟨endpoint, .checking⟩ }
  else network

/-- `connectRpc` after the health check of its endpoint. -/
def answered (endpoint : Text) : Health → LearningNetwork
  | .unhealthy =>
      { network with
        connectPromise := some ⟨endpoint, .settled⟩
        connectedRpc := none
        surfpoolConnected := false }
  | .walletFails =>
      { network with
        connectPromise := some ⟨endpoint, .settled⟩
        settingsEndpoint := endpoint
        connectedRpc := none
        surfpoolConnected := false }
  | .healthy =>
      { network with
        connectPromise := some ⟨endpoint, .settled⟩
        settingsEndpoint := endpoint
        connectedRpc := some endpoint
        surfpoolConnected := true }

/-- `saveRpcEndpoint` up to the await of `connectRpc`. -/
def saveRpcEndpoint (parseHost : Text → Option Text) (rpcDraft : Text) (wasConnected : Bool) :
    LearningNetwork :=
  match normalizeRpcUrl parseHost rpcDraft with
  | none => network
  | some next =>
      { network with
        customRpc := if next = SURFPOOL_RPC_URL then none else some next
        connectedRpc := none
        surfpoolConnected := false
        rpcEndpoint := next }.connectRpc next wasConnected

def canResetNetwork : Bool :=
  network.surfpoolConnected && appendSlash network.rpcEndpoint != appendSlash SURFPOOL_RPC_URL

/-- `resetNetwork`, as far as it sends a request. -/
def resetNetwork : LearningNetwork :=
  if network.canResetNetwork then
    { network with resets := network.resets ++ [network.rpcEndpoint] }
  else network

inductive NetworkCall where
  | connectRpc (endpoint : Text) (wasConnected : Bool)
  | answer (health : Health)
  /-- The `finally` of the call that started the promise. -/
  | clear
  | saveRpcEndpoint (rpcDraft : Text) (wasConnected : Bool)
  | resetNetwork
  deriving DecidableEq, Repr

def step (parseHost : Text → Option Text) : NetworkCall → Option LearningNetwork
  | .connectRpc endpoint wasConnected => some (network.connectRpc endpoint wasConnected)
  | .answer health =>
      match network.connectPromise with
      | some ⟨endpoint, .checking⟩ => some (network.answered endpoint health)
      | _ => none
  | .clear =>
      match network.connectPromise with
      | some ⟨_, .settled⟩ => some { network with connectPromise := none }
      | _ => none
  | .saveRpcEndpoint rpcDraft wasConnected =>
      some (network.saveRpcEndpoint parseHost rpcDraft wasConnected)
  | .resetNetwork => some network.resetNetwork

def machine (parseHost : Text → Option Text) : Machine LearningNetwork NetworkCall where
  Initial network := ∃ customRpc settingsEndpoint, network = initial customRpc settingsEndpoint
  next network call := network.step parseHost call

/-! ## Connections to other endpoints -/

variable {network} {next : LearningNetwork} {parseHost : Text → Option Text} {call : NetworkCall}

/-- While nothing is under way, the settings have the endpoint that is shown as connected. -/
def Consistent (network : LearningNetwork) : Prop :=
  network.surfpoolConnected = true → network.connectPromise = none →
    network.settingsEndpoint = network.rpcEndpoint

/-- Only the endpoint that is shown is connected to, and no other one is saved while
its health is checked. -/
def Undisturbed (parseHost : Text → Option Text) (network : LearningNetwork) : NetworkCall → Prop
  | .connectRpc endpoint wasConnected =>
      network.starts endpoint wasConnected = true → endpoint = network.rpcEndpoint
  | .saveRpcEndpoint rpcDraft _ =>
      ∀ next, normalizeRpcUrl parseHost rpcDraft = some next →
        ∀ endpoint, network.connectPromise = some ⟨endpoint, .checking⟩ → endpoint = next
  | _ => True

/-- What is checked, and what is connected, is what is shown. -/
structure Aligned (network : LearningNetwork) : Prop where
  checking : ∀ endpoint, network.connectPromise = some ⟨endpoint, .checking⟩ →
    endpoint = network.rpcEndpoint
  connected : network.surfpoolConnected = true → network.settingsEndpoint = network.rpcEndpoint

theorem Aligned.connectRpc {endpoint : Text} {wasConnected : Bool} (aligned : Aligned network)
    (shown : network.starts endpoint wasConnected = true → endpoint = network.rpcEndpoint) :
    Aligned (network.connectRpc endpoint wasConnected) := by
  rw [LearningNetwork.connectRpc]
  split
  next starts =>
    refine ⟨fun other checks => ?_, aligned.connected⟩
    obtain rfl : endpoint = other := by simpa using checks
    exact shown starts
  next => exact aligned

/-- By cases on how the health check ends. -/
theorem Aligned.answered {endpoint : Text} (aligned : Aligned network)
    (checks : network.connectPromise = some ⟨endpoint, .checking⟩) (health : Health) :
    Aligned (network.answered endpoint health) := by
  have shown := aligned.checking endpoint checks
  cases health with
  | unhealthy => exact ⟨by simp [LearningNetwork.answered], by simp [LearningNetwork.answered]⟩
  | walletFails => exact ⟨by simp [LearningNetwork.answered], by simp [LearningNetwork.answered]⟩
  | healthy => exact ⟨by simp [LearningNetwork.answered], fun _ => shown⟩

theorem Aligned.saveRpcEndpoint {rpcDraft : Text} (aligned : Aligned network)
    (undisturbed : ∀ next, normalizeRpcUrl parseHost rpcDraft = some next →
      ∀ endpoint, network.connectPromise = some ⟨endpoint, .checking⟩ → endpoint = next)
    (wasConnected : Bool) : Aligned (network.saveRpcEndpoint parseHost rpcDraft wasConnected) := by
  rw [LearningNetwork.saveRpcEndpoint]
  split
  · exact aligned
  next next normalized =>
    refine Aligned.connectRpc ⟨fun endpoint checks => ?_, fun connected => ?_⟩ fun _ => rfl
    · exact undisturbed next normalized endpoint checks
    · cases connected

theorem aligned_step (aligned : Aligned network) (undisturbed : Undisturbed parseHost network call)
    (stepped : network.step parseHost call = some next) : Aligned next := by
  cases call with
  | connectRpc endpoint wasConnected =>
      cases stepped
      exact aligned.connectRpc undisturbed
  | answer health =>
      simp only [step] at stepped
      split at stepped
      next endpoint checks =>
        cases stepped
        exact aligned.answered checks health
      next => cases stepped
  | clear =>
      simp only [step] at stepped
      split at stepped
      next =>
        cases stepped
        exact ⟨fun _ => nofun, aligned.connected⟩
      next => cases stepped
  | saveRpcEndpoint rpcDraft wasConnected =>
      cases stepped
      exact aligned.saveRpcEndpoint undisturbed wasConnected
  | resetNetwork =>
      cases stepped
      rw [LearningNetwork.resetNetwork]
      split <;> exact ⟨aligned.checking, aligned.connected⟩

/-- In a run without such disturbances, the settings have the endpoint that is shown. -/
theorem consistent_throughout (parseHost : Text → Option Text) (customRpc : Option Text)
    (settingsEndpoint : Text) (calls : List NetworkCall)
    (undisturbed : (machine parseHost).Meets (Undisturbed parseHost)
      (initial customRpc settingsEndpoint) calls) :
    (machine parseHost).Throughout Consistent (initial customRpc settingsEndpoint) calls := by
  have start : Aligned (initial customRpc settingsEndpoint) := ⟨fun _ => nofun, nofun⟩
  have aligned : (machine parseHost).Throughout Aligned _ calls :=
    Machine.throughout_of_meets Aligned aligned_step start undisturbed
  exact aligned.mono fun network aligned connected _ => aligned.connected connected

/-- Host names in lower case, which is all that is asked for below. -/
def lowerHost (host : Text) : Option Text := some (host.map Char.toLower)

/-- Another endpoint is saved after the first one is connected. -/
theorem consistent_after_save :
    (machine lowerHost).Throughout Consistent (initial none "http://localhost:8899".toList)
      [.connectRpc SURFPOOL_RPC_URL false, .answer .healthy, .clear,
        .saveRpcEndpoint "https://api.devnet.solana.com".toList true, .answer .healthy, .clear] := by
  refine consistent_throughout _ _ _ _ ⟨fun _ => rfl, ?_⟩
  rintro _ ⟨⟩
  refine ⟨trivial, ?_⟩
  rintro _ ⟨⟩
  refine ⟨trivial, ?_⟩
  rintro _ ⟨⟩
  refine ⟨fun _ _ _ => nofun, ?_⟩
  rintro _ ⟨⟩
  exact ⟨trivial, fun _ _ => ⟨trivial, fun _ _ => trivial⟩⟩

/-- The connection to the first endpoint is taken for one to the endpoint that is saved
during its health check. -/
theorem not_always_consistent : ¬ ∀ (parseHost : Text → Option Text) (customRpc : Option Text)
    (settingsEndpoint : Text) (calls : List NetworkCall),
    (machine parseHost).Throughout Consistent (initial customRpc settingsEndpoint) calls := by
  intro consistent
  have after := (consistent lowerHost none [] [.connectRpc SURFPOOL_RPC_URL false,
    .saveRpcEndpoint "https://api.devnet.solana.com".toList false, .answer .healthy, .clear]).of_run rfl
  exact absurd (after rfl rfl) (by decide +kernel)

end LearningNetwork
end Solpg.Client.Learning
