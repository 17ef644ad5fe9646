import Mathlib.Data.Bool.AllAny
import Solpg.Client.Learning.ResetGuard
import Solpg.Client.Utils.Wallet.Accounts

/-!
# Where the Surfpool wallet signs

`assertSurfpoolScope` keeps the wallet of the learning network from signing elsewhere. The
endpoint of the connection is the one that the settings save, as it is written there.
-/

namespace Solpg.Client.Utils.Wallet

open Solpg.Std Solpg.Client.Learning PgCommon
open Solpg.Client.Learning.LearningNetwork (DenotesSurfpool surfpool surfpool_serialize)

inductive SigningError (ε : Type) where
  /-- "The Surfpool wallet can only sign on a configured learning network." -/
  | outOfScope
  /-- The signer itself throws. -/
  | signer (error : ε)
  deriving DecidableEq, Repr

/-- What `assertSurfpoolScope` reads besides the account. `saved` is the array that is stored as
the secret of the Surfpool wallet, with the bytes among its items. Where nothing is stored, or
something else than the JSON of an array, it is `none`. -/
structure SigningContext where
  saved : Option (List (Option UInt8))
  rpcEndpoint : Text
  deriving DecidableEq, Repr

/-- The signers of a keypair. -/
structure Signers (Transaction Message Signature ε : Type) where
  signTransaction : Transaction → Except ε Transaction
  signMessage : Message → Except ε Signature

section

variable (context : SigningContext) (account : WalletAccount)

def matchesSurfpoolSecret : Bool :=
  match context.saved with
  | some saved =>
      saved.length == account.kp.length &&
        (saved.zip account.kp).all fun (byte, expected) => byte == some expected
  | none => false

/-- The account is recognized as the Surfpool wallet. -/
def isSurfpoolWallet : Bool :=
  account.name == "Surfpool lab".toList || account.name == "Surfpool wallet".toList ||
    matchesSurfpoolSecret context account

def isLearningNetwork (endpoint : Text) : Bool :=
  appendSlash endpoint == appendSlash SURFPOOL_RPC_URL ||
    endpoint == "http://localhost:8899".toList || endpoint == "http://127.0.0.1:8899".toList

variable {Transaction Message Signature ε : Type}
  (signers : Signers Transaction Message Signature ε)

def assertSurfpoolScope : Except (SigningError ε) Unit :=
  if isSurfpoolWallet context account && !isLearningNetwork context.rpcEndpoint then
    .error .outOfScope
  else .ok ()

def signTransaction (tx : Transaction) : Except (SigningError ε) Transaction := do
  assertSurfpoolScope context account
  (signers.signTransaction tx).mapError .signer

/-- The promises of `signTransaction` are not awaited, so a transaction that cannot be signed
stays as it is. -/
def signAllTransactions (txs : List Transaction) : Except (SigningError ε) (List Transaction) := do
  assertSurfpoolScope context account
  return txs.map fun tx =>
    match signTransaction context account signers tx with
    | .ok signed => signed
    | .error _ => tx

def signMessage (message : Message) : Except (SigningError ε) Signature := do
  assertSurfpoolScope context account
  (signers.signMessage message).mapError .signer

/-- The wallet refuses nothing that it is asked to sign. -/
structure Signs : Prop where
  signTransaction : ∀ tx, signTransaction context account signers tx ≠ .error .outOfScope
  signAllTransactions : ∀ txs,
    signAllTransactions context account signers txs ≠ .error .outOfScope
  signMessage : ∀ message, signMessage context account signers message ≠ .error .outOfScope

/-- The wallet refuses whatever it is asked to sign. -/
structure Refuses : Prop where
  signTransaction : ∀ tx, Wallet.signTransaction context account signers tx = .error .outOfScope
  signAllTransactions : ∀ txs,
    Wallet.signAllTransactions context account signers txs = .error .outOfScope
  signMessage : ∀ message,
    Wallet.signMessage context account signers message = .error .outOfScope

variable {context account signers}

theorem signs_of_learningNetwork (learning : isLearningNetwork context.rpcEndpoint = true) :
    Signs context account signers := by
  have passes : assertSurfpoolScope (ε := ε) context account = .ok () := by
    simp [assertSurfpoolScope, learning]
  have mapped : ∀ {α : Type} (result : Except ε α),
      result.mapError SigningError.signer ≠ .error .outOfScope := by
    intro α result
    cases result <;> nofun
  refine ⟨fun tx => ?_, fun txs => ?_, fun message => ?_⟩
  · rw [signTransaction, passes]
    exact mapped _
  · rw [signAllTransactions, passes]
    nofun
  · rw [signMessage, passes]
    exact mapped _

theorem refuses_of_not_learningNetwork (recognized : isSurfpoolWallet context account = true)
    (other : isLearningNetwork context.rpcEndpoint = false) :
    Refuses context account signers := by
  have refused : assertSurfpoolScope (ε := ε) context account = .error .outOfScope := by
    simp [assertSurfpoolScope, recognized, other]
  refine ⟨fun tx => ?_, fun txs => ?_, fun message => ?_⟩
  · rw [signTransaction, refused]
    rfl
  · rw [signAllTransactions, refused]
    rfl
  · rw [signMessage, refused]
    rfl

/-- No wallet both signs and refuses. -/
theorem Signs.not_refuses (signs : Signs context account signers) :
    ¬ Refuses context account signers :=
  fun refuses => signs.signAllTransactions [] (refuses.signAllTransactions [])

end

/-! ## Saved endpoints -/

/-- The URL leads to a local validator. -/
structure DenotesLocal (url : Url) : Prop where
  scheme : url.scheme = "http".toList
  host : url.host = "localhost".toList ∨ url.host = "127.0.0.1".toList
  port : url.port = some 8899
  path : url.path = [[]]

/-- The URL leads to a learning network. -/
def DenotesLearningNetwork (url : Url) : Prop := DenotesSurfpool url ∨ DenotesLocal url

theorem surfpool_root : surfpool.Root where
  plain := ⟨rfl, rfl, rfl, rfl⟩
  scheme := .inr rfl
  host := ⟨by decide, by decide, List.all_iff_forall_prop.mp (by decide)⟩
  port := nofun
  path := rfl
  unmarked := by
    rw [surfpool_serialize]
    exact List.all_iff_forall_prop.mp (by decide +kernel)

variable {parseHost : Text → Option Text} {url : Url}

/-- Of the endpoints that are saved, the wallet signs for the shared Surfpool alone, as long as
it is written without anything else. -/
theorem isLearningNetwork_serialize_iff (parsed : url.Parsed parseHost)
    (isHost : Url.IsHost url.host) :
    isLearningNetwork url.serialize = true ↔ url = surfpool := by
  have slashes := Url.three_le_count_slash parsed.path
  constructor
  · intro learning
    simp only [isLearningNetwork, Bool.or_eq_true, beq_iff_eq] at learning
    obtain (shared | same) | same := learning
    · by_cases ends : url.serialize.endsWith slash = true
      · rw [appendSlash_of_endsWith ends] at shared
        exact surfpool_root.eq_of_serialize_eq parsed isHost (shared.trans surfpool_serialize.symm)
      · -- It has three slashes without the one that is added.
        rw [appendSlash, if_neg ends] at shared
        have counts := congrArg (List.count '/') shared
        rw [List.count_append] at counts
        have target : (appendSlash SURFPOOL_RPC_URL).count '/' = 3 := by decide +kernel
        have one : slash.count '/' = 1 := rfl
        omega
    · rw [same] at slashes
      exact absurd slashes (by decide +kernel)
    · rw [same] at slashes
      exact absurd slashes (by decide +kernel)
  · rintro rfl
    rw [isLearningNetwork, surfpool_serialize, beq_self_eq_true, Bool.true_or, Bool.true_or]

theorem denotesSurfpool_and_plain_iff : DenotesSurfpool url ∧ url.Plain ↔ url = surfpool := by
  constructor
  · rintro ⟨⟨scheme, host, port, path⟩, ⟨username, password, query, fragment⟩⟩
    cases url
    simp_all [surfpool]
  · rintro rfl
    exact ⟨⟨rfl, rfl, rfl, rfl⟩, surfpool_root.plain⟩

/-- Whatever it is asked, the wallet signs exactly if the URL leads to a learning network. -/
structure ScopeAgrees {Transaction Message Signature ε : Type} (context : SigningContext)
    (account : WalletAccount) (signers : Signers Transaction Message Signature ε) (url : Url) :
    Prop where
  signs : DenotesLearningNetwork url → Signs context account signers
  refuses : ¬ DenotesLearningNetwork url → Refuses context account signers

/-- The Surfpool wallet on a saved endpoint agrees with the URL exactly if this is no local
validator, whose root gets a slash when it is saved, and has no credentials, query or fragment
beside the address of the shared Surfpool. -/
theorem scopeAgrees_iff {Transaction Message Signature ε : Type} {context : SigningContext}
    {account : WalletAccount} {signers : Signers Transaction Message Signature ε} {rpcDraft : Text}
    (hosts : ∀ text host, parseHost text = some host → Url.IsHost host)
    (parsed : Url.parse parseHost rpcDraft.trim = some url)
    (saved : normalizeRpcUrl parseHost rpcDraft = some context.rpcEndpoint)
    (recognized : isSurfpoolWallet context account = true) :
    ScopeAgrees context account signers url ↔
      ¬ DenotesLocal url ∧ (DenotesSurfpool url → url.Plain) := by
  have endpoint : url.serialize = context.rpcEndpoint := by
    simpa [normalizeRpcUrl, parsed] using saved
  have wellFormed := Url.parsed_of_parse parsed
  obtain ⟨text, hosted⟩ := wellFormed.host
  have learning_iff : isLearningNetwork context.rpcEndpoint = true ↔
      DenotesSurfpool url ∧ url.Plain := by
    rw [← endpoint, isLearningNetwork_serialize_iff wellFormed (hosts text _ hosted),
      denotesSurfpool_and_plain_iff]
  have refuses : ¬ (DenotesSurfpool url ∧ url.Plain) → Refuses context account signers := by
    intro other
    refine refuses_of_not_learningNetwork recognized ?_
    rw [← Bool.not_eq_true, learning_iff]
    exact other
  constructor
  · intro agrees
    constructor
    · intro isLocal
      refine (agrees.signs (.inr isLocal)).not_refuses (refuses ?_)
      rintro ⟨shared, -⟩
      have schemes := shared.scheme.symm.trans isLocal.scheme
      exact absurd schemes (by decide)
    · intro shared
      by_contra marked
      exact (agrees.signs (.inl shared)).not_refuses (refuses fun both => marked both.2)
  · rintro ⟨notLocal, plain⟩
    constructor
    · rintro (shared | isLocal)
      · exact signs_of_learningNetwork (learning_iff.mpr ⟨shared, plain shared⟩)
      · exact absurd isLocal notLocal
    · intro other
      exact refuses fun both => other (.inl both.1)

/-- Hosts that are names of letters, digits, dots and hyphens, in lower case. -/
def nameHost (host : Text) : Option Text :=
  let name := host.map Char.toLower
  if name.all fun char => char.isAlphanum || char == '.' || char == '-' then some name else none

theorem isHost_of_nameHost (text host : Text) (named : nameHost text = some host) :
    Url.IsHost host := by
  simp only [nameHost] at named
  split at named
  case isFalse => cases named
  case isTrue plain =>
    cases named
    refine .inr fun char member => ?_
    have allowed := List.all_eq_true.mp plain char member
    simp only [Url.endsHost, Bool.or_eq_false_iff, decide_eq_false_iff_not]
    constructor
    · rintro rfl
      cases allowed
    · rintro rfl
      cases allowed

/-- A wallet by its name, with signers that always sign. -/
def surfpoolAccount : WalletAccount := ⟨[], "Surfpool wallet".toList⟩

def plainSigners : Signers Unit Unit Unit Empty := ⟨fun _ => .ok (), fun _ => .ok ()⟩

/-- In capitals and without a slash the shared Surfpool is signed for. -/
theorem scopeAgrees_capitals :
    ScopeAgrees ⟨none, SURFPOOL_RPC_URL⟩ surfpoolAccount plainSigners surfpool := by
  have parsed : Url.parse nameHost
      (Text.trim " HTTPS://HOLMS-subas-mics.txtx.network:8899".toList) = some surfpool := by
    decide +kernel
  refine (scopeAgrees_iff isHost_of_nameHost parsed ?_ rfl).mpr
    ⟨fun isLocal => ?_, fun _ => surfpool_root.plain⟩
  · rw [normalizeRpcUrl, parsed, Option.map_some, surfpool_serialize]
  · exact absurd isLocal.scheme (by decide)

/-- A local validator. -/
def localhost : Url := ⟨"http".toList, [], [], "localhost".toList, some 8899, [[]], none, none⟩

/-- Once saved, it has a slash that the wallet does not expect. -/
theorem not_always_scopeAgrees : ¬ ∀ (parseHost : Text → Option Text) (rpcDraft : Text) (url : Url)
    (context : SigningContext) (account : WalletAccount),
    (∀ text host, parseHost text = some host → Url.IsHost host) →
    Url.parse parseHost rpcDraft.trim = some url →
    normalizeRpcUrl parseHost rpcDraft = some context.rpcEndpoint →
    isSurfpoolWallet context account = true →
    ScopeAgrees context account plainSigners url := by
  intro agrees
  have parsed : Url.parse nameHost (Text.trim "http://localhost:8899".toList) = some localhost := by
    decide +kernel
  have saved : normalizeRpcUrl nameHost "http://localhost:8899".toList =
      some localhost.serialize := by
    rw [normalizeRpcUrl, parsed, Option.map_some]
  have signs := (agrees nameHost _ localhost ⟨none, localhost.serialize⟩ surfpoolAccount
    isHost_of_nameHost parsed saved rfl).signs (.inr ⟨rfl, .inl rfl, rfl, rfl⟩)
  have other : isLearningNetwork localhost.serialize = false := by decide +kernel
  exact signs.not_refuses (refuses_of_not_learningNetwork rfl other)

end Solpg.Client.Utils.Wallet
