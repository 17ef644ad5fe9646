import Solpg.Client.Learning.LearningNetwork

/-!
# The guard of a network reset

`canResetNetwork` compares the endpoint with that of the shared Surfpool as a text.
An endpoint is saved as the URL Standard serializes it, so scheme, host, port and
path have one spelling, but credentials, a query or a fragment are kept.
-/

namespace Solpg.Client.Learning.LearningNetwork

open Solpg.Std Solpg.Client.Utils PgCommon

/-- The shared Surfpool. -/
def surfpool : Url where
  scheme := "https".toList
  username := []
  password := []
  host := "holms-subas-mics.txtx.network".toList
  port := some 8899
  path := [[]]
  query := none
  fragment := none

/-- The URL leads to the shared Surfpool. -/
structure DenotesSurfpool (url : Url) : Prop where
  scheme : url.scheme = surfpool.scheme
  host : url.host = surfpool.host
  port : url.port = surfpool.port
  path : url.path = surfpool.path

/-- The endpoint cannot be reset, and has not been. -/
structure Guarded (endpoint : Text) (network : LearningNetwork) : Prop where
  canResetNetwork : network.rpcEndpoint = endpoint → network.canResetNetwork = false
  unsent : endpoint ∉ network.resets

variable {network next : LearningNetwork} {url : Url} {parseHost : Text → Option Text}
  {rpcDraft endpoint : Text}

theorem surfpool_serialize : surfpool.serialize = SURFPOOL_RPC_URL := by decide +kernel

/-- The address of the shared Surfpool is written without anything else. -/
theorem DenotesSurfpool.address (denotes : DenotesSurfpool url) :
    url.scheme ++ "://".toList ++ url.location = SURFPOOL_RPC_URL := by
  rw [← surfpool_serialize, Url.serialize_eq_iff.mpr ⟨rfl, rfl, rfl, rfl⟩]
  simp only [Url.location, denotes.scheme, denotes.host, denotes.port, denotes.path]

/-- The comparison recognizes exactly the plain URLs of the shared Surfpool. -/
theorem DenotesSurfpool.appendSlash_iff (denotes : DenotesSurfpool url) :
    appendSlash url.serialize = appendSlash SURFPOOL_RPC_URL ↔ url.Plain := by
  have kept : appendSlash SURFPOOL_RPC_URL = SURFPOOL_RPC_URL := rfl
  rw [kept, ← Url.serialize_eq_iff, denotes.address]
  by_cases ends : url.serialize.endsWith slash = true
  · rw [appendSlash_of_endsWith ends]
  · constructor
    · intro same
      -- With a slash it would be too long.
      have lengths := congrArg List.length same
      rw [appendSlash, if_neg ends, ← denotes.address, List.length_append, Url.length_serialize,
        slash, List.length_singleton] at lengths
      omega
    · intro same
      rw [same] at ends
      exact absurd rfl ends

/-! ## Runs -/

/-- A reset was sent only to endpoints that differ from the shared Surfpool. -/
def ResetsOthers (network : LearningNetwork) : Prop :=
  ∀ endpoint ∈ network.resets, appendSlash endpoint ≠ appendSlash SURFPOOL_RPC_URL

@[simp] theorem resets_connectRpc (network : LearningNetwork) (endpoint : Text)
    (wasConnected : Bool) : (network.connectRpc endpoint wasConnected).resets = network.resets := by
  rw [connectRpc]
  split <;> rfl

/-- Only `resetNetwork` sends a reset. -/
theorem resets_step {call : NetworkCall} (stepped : network.step parseHost call = some next) :
    next.resets = network.resets ∨ call = .resetNetwork ∧ next = network.resetNetwork := by
  cases call with
  | connectRpc endpoint wasConnected =>
      cases stepped
      exact .inl (resets_connectRpc network endpoint wasConnected)
  | answer health =>
      simp only [step] at stepped
      split at stepped
      next =>
        cases stepped
        cases health <;> exact .inl rfl
      next => cases stepped
  | clear =>
      simp only [step] at stepped
      split at stepped
      next =>
        cases stepped
        exact .inl rfl
      next => cases stepped
  | saveRpcEndpoint rpcDraft wasConnected =>
      cases stepped
      rw [saveRpcEndpoint]
      split
      next => exact .inl rfl
      next => exact .inl (resets_connectRpc _ _ _)
  | resetNetwork =>
      cases stepped
      exact .inr ⟨rfl, rfl⟩

theorem resetsOthers_step {call : NetworkCall} (others : ResetsOthers network)
    (stepped : network.step parseHost call = some next) : ResetsOthers next := by
  obtain same | ⟨-, rfl⟩ := resets_step stepped
  · rw [ResetsOthers, same]
    exact others
  · rw [resetNetwork]
    split
    next canReset =>
      rw [canResetNetwork, Bool.and_eq_true, bne_iff_ne] at canReset
      intro endpoint member
      obtain before | now := List.mem_append.mp member
      · exact others endpoint before
      · rw [List.mem_singleton.mp now]
        exact canReset.2
    next => exact others

theorem resetsOthers_of_reachable (reachable : (machine parseHost).Reachable network) :
    ResetsOthers network := by
  obtain ⟨_, calls, ⟨customRpc, settingsEndpoint, rfl⟩, ran⟩ := reachable
  exact Machine.run_preserves ResetsOthers resetsOthers_step (by simp [ResetsOthers, initial]) ran

/-- A draft that is saved during a health check is connected to when this succeeds. -/
theorem reachable_connected (saved : normalizeRpcUrl parseHost rpcDraft = some endpoint) :
    ∃ network, (machine parseHost).Reachable network ∧ network.rpcEndpoint = endpoint ∧
      network.surfpoolConnected = true := by
  let checking : LearningNetwork :=
    { initial none [] with connectPromise := some ⟨SURFPOOL_RPC_URL, .checking⟩ }
  have replaced : (machine parseHost).next checking (.saveRpcEndpoint rpcDraft false) = some
      { checking with
        customRpc := if endpoint = SURFPOOL_RPC_URL then none else some endpoint
        rpcEndpoint := endpoint } := by
    change some (checking.saveRpcEndpoint parseHost rpcDraft false) = _
    rw [saveRpcEndpoint, saved]
    rfl
  have reached : (machine parseHost).Reachable checking :=
    ⟨initial none [], [.connectRpc SURFPOOL_RPC_URL false], ⟨none, [], rfl⟩, rfl⟩
  have healthy : ∀ network : LearningNetwork,
      network.connectPromise = some ⟨SURFPOOL_RPC_URL, .checking⟩ →
        (machine parseHost).next network (.answer .healthy) =
          some (network.answered SURFPOOL_RPC_URL .healthy) := by
    intro network checks
    simp only [machine, step, checks]
  exact ⟨_, (reached.next replaced).next (healthy _ rfl), rfl, rfl⟩

/-- A saved endpoint of the shared Surfpool is guarded in every run exactly if it has no
credentials, no query and no fragment. -/
theorem guarded_iff (denotes : DenotesSurfpool url)
    (parsed : Url.parse parseHost rpcDraft.trim = some url) :
    (∀ network, (machine parseHost).Reachable network → Guarded url.serialize network) ↔
      url.Plain := by
  rw [← denotes.appendSlash_iff]
  constructor
  · intro guarded
    have saved : normalizeRpcUrl parseHost rpcDraft = some url.serialize := by
      rw [normalizeRpcUrl, parsed, Option.map_some]
    obtain ⟨network, reachable, shown, connected⟩ := reachable_connected saved
    have closed := (guarded network reachable).canResetNetwork shown
    simpa [canResetNetwork, shown, connected] using closed
  · intro same network reachable
    refine ⟨fun shown => ?_, fun sent => ?_⟩
    · simp [canResetNetwork, shown, same]
    · exact resetsOthers_of_reachable reachable _ sent same

/-- In capitals and without a slash it is guarded. -/
theorem guarded_capitals :
    Url.parse lowerHost (Text.trim " HTTPS://HOLMS-subas-mics.txtx.network:8899".toList) =
      some surfpool ∧
    ∀ network, (machine lowerHost).Reachable network → Guarded SURFPOOL_RPC_URL network := by
  have parsed : Url.parse lowerHost
      (Text.trim " HTTPS://HOLMS-subas-mics.txtx.network:8899".toList) = some surfpool := by
    decide +kernel
  refine ⟨parsed, ?_⟩
  have plain : surfpool.Plain := ⟨rfl, rfl, rfl, rfl⟩
  have guarded := (guarded_iff ⟨rfl, rfl, rfl, rfl⟩ parsed).mpr plain
  rwa [surfpool_serialize] at guarded

/-- The shared Surfpool with an empty query. -/
def surfpoolQuery : Url := { surfpool with query := some [] }

/-- It has been saved and connected. -/
def queryConnected : LearningNetwork where
  surfpoolConnected := true
  rpcEndpoint := surfpoolQuery.serialize
  connectPromise := some ⟨surfpoolQuery.serialize, .settled⟩
  connectedRpc := some surfpoolQuery.serialize
  settingsEndpoint := surfpoolQuery.serialize
  customRpc := some surfpoolQuery.serialize
  resets := []

/-- With a query it is not. -/
theorem not_always_guarded : ¬ ∀ (parseHost : Text → Option Text) (rpcDraft : Text) (url : Url),
    DenotesSurfpool url → Url.parse parseHost rpcDraft.trim = some url →
    ∀ network, (machine parseHost).Reachable network → Guarded url.serialize network := by
  intro guarded
  let rpcDraft : Text := "https://holms-subas-mics.txtx.network:8899?".toList
  have parsed : Url.parse lowerHost rpcDraft.trim = some surfpoolQuery := by decide +kernel
  have ran : (machine lowerHost).run (initial none [])
      [.saveRpcEndpoint rpcDraft false, .answer .healthy] = some queryConnected := by
    decide +kernel
  have reachable : (machine lowerHost).Reachable queryConnected :=
    ⟨initial none [], _, ⟨none, [], rfl⟩, ran⟩
  have denotes : DenotesSurfpool surfpoolQuery := ⟨rfl, rfl, rfl, rfl⟩
  have closed := (guarded lowerHost _ _ denotes parsed _ reachable).canResetNetwork rfl
  exact absurd closed (by decide +kernel)

end Solpg.Client.Learning.LearningNetwork
