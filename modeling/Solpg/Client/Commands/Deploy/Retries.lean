import Solpg.Client.Utils.Tx

/-!
# Sending with retries

`sendAndConfirmTxWithRetries`, over any way to send a transaction and to check that it
has landed, and what it makes of every sequence of outcomes.
-/

namespace Solpg.Client.Commands.Deploy

open Solpg.Std Solpg.Client.Utils

variable {State Request : Type} {Reply : Request → Type}

/-- `PgTerminal.bold`. -/
def bold (text : Text) : Text := "\x1b[1m".toList ++ text ++ "\x1b[0m".toList

def MAX_RETRIES : Nat := 5

def SLEEP_MULTIPLIER : Rat := 18 / 10

/-- The message of the error after the loop. -/
def exceededMessage (reason : Text) : Text :=
  "Exceeded maximum amount of retries (".toList ++ bold (toString MAX_RETRIES).toList ++
    ").\nThis might be an RPC related issue. Consider changing the endpoint from the settings.\n".toList ++
    if reason.isEmpty then [] else "Reason: ".toList ++ reason

/-- What the statement after the loop throws: `err.message` is read first. -/
def exceeded (err : Thrown) : Thrown :=
  match err.message with
  | some reason => .error (exceededMessage reason)
  | none => .typeError "Cannot read properties of undefined (reading \x27message\x27)".toList

section Source

variable (sendTx : TxM State Reply Text) (checkConfirmation : TxM State Reply Bool)

/-- The statements of the `try`: what they return, or `none` where they fall through. -/
def sendAndConfirm : TxM State Reply (Option (Option Text)) := do
  let txHash ← sendTx
  if txHash.isEmpty then return some none
  let result ← confirm txHash
  if result.isNone then return some (some txHash)
  if ← checkConfirmation then return some (some txHash)
  return none

/-- The loop with the number of its turns that are left. -/
def retryLoop : Nat → Rat → Thrown → TxM State Reply (Option Text)
  | 0, _, err => throw (exceeded err)
  | retries + 1, sleepAmount, err => do
      match ← Async.attempt (sendAndConfirm sendTx checkConfirmation) with
      | .ok (some returned) => pure returned
      | .ok none => retryLoop retries sleepAmount err
      | .error e =>
          if retries = 0 then throw (exceeded e)
          else do
            ask (.sleep sleepAmount)
            retryLoop retries (sleepAmount * SLEEP_MULTIPLIER) e

/-- `err` is `undefined` until something is thrown. -/
def sendAndConfirmTxWithRetries : TxM State Reply (Option Text) :=
  retryLoop sendTx checkConfirmation MAX_RETRIES 1000 .nullish

end Source

section Paths

variable {sendTx : TxM State Reply Text} {checkConfirmation : TxM State Reply Bool}
  {made : TxCall Request → Prop}
  {allowed : (call : TxCall Request) → call.Answer Reply → State → Prop}

/-- Where no confirmation succeeds and no check finds anything, the function does not
return. -/
theorem retryLoop_always
    (sent : ∀ state, sendTx.Always made allowed state
      (Async.split (fun txHash _ => txHash ≠ []) fun _ _ => True))
    (confirms : ∀ txHash, made (.confirmTransaction txHash))
    (sleeps : ∀ amount, made (.sleep amount))
    (unconfirmed : ∀ txHash state, ¬ allowed (.confirmTransaction txHash) (.ok none) state)
    (unfound : ∀ txHash err state, allowed (.confirmTransaction txHash) (.ok (some err)) state →
      checkConfirmation.Always made allowed state
        (Async.split (fun found _ => found = false) fun _ _ => True))
    (retries : Nat) (sleepAmount : Rat) (err : Thrown) (state : State) :
    (retryLoop sendTx checkConfirmation retries sleepAmount err).Always made allowed state
      (Async.split (fun _ _ => False) fun _ _ => True) := by
  induction retries generalizing sleepAmount err state with
  | zero => trivial
  | succ retries ih =>
      have turn : ∀ state, (sendAndConfirm sendTx checkConfirmation).Always made allowed state
          (Async.split (fun returned _ => returned = none) fun _ _ => True) := by
        intro state
        simp only [sendAndConfirm, Async.always_bind]
        refine (sent state).mono ?_
        rintro (error | txHash) state named
        · trivial
        · simp only [Async.split_ok] at named ⊢
          simp only [List.isEmpty_eq_false_iff.mpr named, Bool.false_eq_true, if_false,
            Async.always_bind]
          refine (confirm_always txHash).mpr ⟨confirms txHash, ?_⟩
          rintro (error | _ | reason) state permitted
          · trivial
          · exact absurd permitted (unconfirmed txHash state)
          · simp only [Async.split_ok, Option.isNone_some, Bool.false_eq_true, if_false,
              Async.always_bind]
            refine (unfound txHash reason state permitted).mono ?_
            rintro (error | found) state absent
            · trivial
            · rw [Async.split_ok] at absent
              simp [absent]
      simp only [retryLoop, Async.always_bind, Async.always_attempt]
      refine (turn state).mono ?_
      rintro (error | returned) state fell
      · simp only [Async.split_ok]
        split
        · trivial
        · simp only [Async.always_bind]
          exact ⟨sleeps _, fun _ state _ => ih _ _ state⟩
      · rw [Async.split_ok] at fell
        simpa [fell] using ih _ _ state

end Paths

/-! ## Sequences of outcomes -/

/-- The callbacks that are parameters. -/
inductive Callback where
  | sendTx
  | checkConfirmation
  deriving DecidableEq

abbrev Callback.Answer : Callback → Type
  | .sendTx => Text
  | .checkConfirmation => Bool

/-- What a turn of the loop meets, as far as it comes to ask for it. -/
structure Attempt where
  sent : Except Thrown Text
  confirmed : Except Thrown (Option TransactionError)
  checked : Except Thrown Bool

/-- The turns that have begun, and what the others have answered so far. -/
structure Transcript where
  attempts : Nat
  confirmations : List (Except Thrown (Option TransactionError))
  checks : List (Except Thrown Bool)

def Transcript.start : Transcript := ⟨0, [], []⟩

/-- The answers of a sequence of attempts. -/
def serve (outcomes : Nat → Attempt) : (request : TxCall Callback) → Transcript →
    request.Answer Callback.Answer × Transcript
  | .callback .sendTx, transcript =>
      ((outcomes transcript.attempts).sent,
        { transcript with attempts := transcript.attempts + 1 })
  | .callback .checkConfirmation, transcript =>
      let checked := (outcomes (transcript.attempts - 1)).checked
      (checked, { transcript with checks := checked :: transcript.checks })
  | .confirmTransaction _, transcript =>
      let confirmed := (outcomes (transcript.attempts - 1)).confirmed
      (confirmed, { transcript with confirmations := confirmed :: transcript.confirmations })
  | .sleep _, transcript => ((), transcript)

/-- The run of the function over a sequence of outcomes. -/
def outcomeOf (outcomes : Nat → Attempt) : Option (Except Thrown (Option Text) × Unit × Transcript) :=
  (sendAndConfirmTxWithRetries (request Callback.sendTx)
    (request Callback.checkConfirmation)).run (serve outcomes) () .start

/-- A hash is returned for a reason, an effect that is present is reported as success,
and the only error is that of the function itself. `present` is what `checkConfirmation`
would find once the attempts are used up. -/
structure Reports (outcomes : Nat → Attempt) (present : Bool) (result : Except Thrown (Option Text))
    (transcript : Transcript) : Prop where
  ends : outcomeOf outcomes = some (result, (), transcript)
  sound : ∀ txHash, result = .ok (some txHash) →
    .ok none ∈ transcript.confirmations ∨ .ok true ∈ transcript.checks
  complete : present = true → ∃ returned, result = .ok returned
  ownError : ∀ error, result = .error error → ∃ reason, error = .error (exceededMessage reason)

/-! ## Attempts -/

namespace Attempt

variable (attempt : Attempt)

/-- What the statements of the `try` come to. -/
def result : Except Thrown (Option (Option Text)) :=
  match attempt.sent with
  | .error error => .error error
  | .ok txHash =>
      if txHash.isEmpty then .ok (some none)
      else match attempt.confirmed with
        | .error error => .error error
        | .ok none => .ok (some (some txHash))
        | .ok (some _) =>
            match attempt.checked with
            | .error error => .error error
            | .ok true => .ok (some (some txHash))
            | .ok false => .ok none

/-- The attempt ends the loop: there is no transaction to wait for, or it is confirmed,
or the confirmation is an error and the check finds the effect. -/
def Settles : Prop :=
  ∃ txHash, attempt.sent = .ok txHash ∧ (txHash = [] ∨ attempt.confirmed = .ok none ∨
    (∃ err, attempt.confirmed = .ok (some err)) ∧ attempt.checked = .ok true)

/-- The exception of the attempt: of the first of its steps that throws. -/
def thrown : Option Thrown :=
  match attempt.result with
  | .error error => some error
  | .ok _ => none

end Attempt

theorem Attempt.settles_iff (attempt : Attempt) :
    attempt.Settles ↔ ∃ returned, attempt.result = .ok (some returned) := by
  unfold Attempt.Settles Attempt.result
  cases sent : attempt.sent with
  | error error => simp
  | ok txHash =>
      by_cases empty : txHash = []
      · simp [empty]
      · cases confirmed : attempt.confirmed with
        | error error => simp [empty]
        | ok err =>
            cases err with
            | none => simp [empty]
            | some err => rcases checked : attempt.checked with error | _ | _ <;> simp [empty]

/-- An attempt that does not settle falls through or throws. -/
theorem Attempt.result_of_not_settles {attempt : Attempt} (unsettled : ¬ attempt.Settles) :
    (attempt.result = .ok none ∧ attempt.thrown = none) ∨
      ∃ error, attempt.result = .error error ∧ attempt.thrown = some error := by
  rw [Attempt.settles_iff] at unsettled
  unfold Attempt.thrown
  cases result : attempt.result with
  | error error => exact .inr ⟨error, rfl, rfl⟩
  | ok turn =>
      cases turn with
      | none => exact .inl ⟨rfl, rfl⟩
      | some returned => exact absurd ⟨returned, result⟩ unsettled

/-- `err` after a number of attempts: each exception replaces the one before. -/
def lastThrown (outcomes : Nat → Attempt) : Nat → Nat → Thrown → Thrown
  | _, 0, err => err
  | position, count + 1, err =>
      lastThrown outcomes (position + 1) count ((outcomes position).thrown.getD err)

/-! ## Runs -/

section Runs

variable {outcomes : Nat → Attempt}

/-- A hash that is returned has been confirmed or checked. -/
def Transcript.Justifies (transcript : Transcript) (returned : Option Text) : Prop :=
  ∀ txHash, returned = some txHash →
    .ok none ∈ transcript.confirmations ∨ .ok true ∈ transcript.checks

/-- One turn takes the next attempt, and comes to its result. -/
theorem sendAndConfirm_run (transcript : Transcript) :
    ∃ after, (sendAndConfirm (request Callback.sendTx) (request Callback.checkConfirmation)).run
        (serve outcomes) () transcript = some ((outcomes transcript.attempts).result, (), after) ∧
      after.attempts = transcript.attempts + 1 ∧
      ∀ returned, (outcomes transcript.attempts).result = .ok (some returned) →
        after.Justifies returned := by
  unfold sendAndConfirm Attempt.result
  cases sent : (outcomes transcript.attempts).sent with
  | error error =>
      refine ⟨{ transcript with attempts := transcript.attempts + 1 }, ?_, rfl, nofun⟩
      simp [Async.run_bind, request_run, serve, sent]
  | ok txHash =>
      by_cases empty : txHash = []
      · refine ⟨{ transcript with attempts := transcript.attempts + 1 }, ?_, rfl, ?_⟩
        · simp [Async.run_bind, request_run, serve, sent, empty]
        · rintro returned same
          simp only [empty, List.isEmpty_nil, if_true, Except.ok.injEq, Option.some.injEq] at same
          exact fun txHash found => nomatch same.trans found
      · cases confirmed : (outcomes transcript.attempts).confirmed with
        | error error =>
            refine ⟨⟨transcript.attempts + 1, .error error :: transcript.confirmations,
              transcript.checks⟩, ?_, rfl, by simp [empty]⟩
            simp [Async.run_bind, request_run, confirm_run, serve, sent, empty, confirmed]
        | ok err =>
            cases err with
            | none =>
                refine ⟨⟨transcript.attempts + 1, .ok none :: transcript.confirmations,
                  transcript.checks⟩, ?_, rfl, fun _ _ _ _ => .inl List.mem_cons_self⟩
                simp [Async.run_bind, request_run, confirm_run, serve, sent, empty, confirmed]
            | some err =>
                -- Only here is the check asked for.
                refine ⟨⟨transcript.attempts + 1, .ok (some err) :: transcript.confirmations,
                  (outcomes transcript.attempts).checked :: transcript.checks⟩, ?_, rfl, ?_⟩
                · rcases checked : (outcomes transcript.attempts).checked with error | _ | _ <;>
                    simp [Async.run_bind, request_run, confirm_run, serve, sent, empty, confirmed,
                      checked]
                · rcases checked : (outcomes transcript.attempts).checked with error | _ | _ <;>
                    simp [empty, Transcript.Justifies]

/-- The loop returns with the first attempt that settles, and otherwise throws what the
last exception leads to. -/
theorem retryLoop_run (retries : Nat) (sleepAmount : Rat) (err : Thrown) (transcript : Transcript) :
    ∃ result after, (retryLoop (request Callback.sendTx) (request Callback.checkConfirmation)
        retries sleepAmount err).run (serve outcomes) () transcript = some (result, (), after) ∧
      (∀ returned, result = .ok returned → after.Justifies returned) ∧
      ((∃ k < retries, (outcomes (transcript.attempts + k)).Settles) →
        ∃ returned, result = .ok returned) ∧
      ((¬ ∃ k < retries, (outcomes (transcript.attempts + k)).Settles) →
        result = .error (exceeded (lastThrown outcomes transcript.attempts retries err))) := by
  induction retries generalizing sleepAmount err transcript with
  | zero => exact ⟨.error (exceeded err), transcript, rfl, nofun, by simp, fun _ => rfl⟩
  | succ retries ih =>
      obtain ⟨middle, turn, position, justified⟩ := sendAndConfirm_run transcript
      have shifted : ∀ k, transcript.attempts + (k + 1) = middle.attempts + k := by omega
      have later : (∃ k < retries + 1, (outcomes (transcript.attempts + k)).Settles) ↔
          (outcomes transcript.attempts).Settles ∨
            ∃ k < retries, (outcomes (middle.attempts + k)).Settles := by
        simp only [Nat.exists_lt_succ_left, Nat.add_zero, shifted]
      have last : lastThrown outcomes transcript.attempts (retries + 1) err =
          lastThrown outcomes middle.attempts retries
            ((outcomes transcript.attempts).thrown.getD err) := by
        rw [position, lastThrown]
      rw [later, last]
      unfold retryLoop
      rw [Async.run_bind_ok (Async.run_attempt turn)]
      by_cases settles : (outcomes transcript.attempts).Settles
      · obtain ⟨returned, result⟩ := (Attempt.settles_iff _).mp settles
        rw [result] at turn justified ⊢
        refine ⟨.ok returned, middle, rfl, ?_, fun _ => ⟨returned, rfl⟩, fun none_ => ?_⟩
        · rintro _ ⟨⟩
          exact justified returned rfl
        · exact absurd (.inl settles) none_
      · simp only [settles, false_or]
        rcases Attempt.result_of_not_settles settles with ⟨result, thrown⟩ | ⟨error, result, thrown⟩
        · rw [result, thrown]
          exact ih sleepAmount err middle
        · rw [result, thrown]
          cases retries with
          | zero => exact ⟨.error (exceeded error), middle, rfl, nofun, by simp, fun _ => rfl⟩
          | succ retries => exact ih (sleepAmount * SLEEP_MULTIPLIER) error middle

/-- The function comes to an end, whatever it meets. -/
theorem outcomeOf_spec (outcomes : Nat → Attempt) : ∃ result transcript,
    outcomeOf outcomes = some (result, (), transcript) ∧
      (∀ returned, result = .ok returned → transcript.Justifies returned) ∧
      ((∃ k < MAX_RETRIES, (outcomes k).Settles) → ∃ returned, result = .ok returned) ∧
      ((¬ ∃ k < MAX_RETRIES, (outcomes k).Settles) →
        result = .error (exceeded (lastThrown outcomes 0 MAX_RETRIES .nullish))) := by
  obtain ⟨result, transcript, ran, justified, settled, unsettled⟩ :=
    retryLoop_run MAX_RETRIES 1000 .nullish .start
  simp only [Transcript.start, Nat.zero_add] at settled unsettled
  exact ⟨result, transcript, ran, justified, settled, unsettled⟩

end Runs

/-- After the loop the error of the function itself is thrown when the last exception
has properties, and another one when there was none. -/
theorem exceeded_own_iff (thrown : Thrown) :
    (∃ reason, exceeded thrown = .error (exceededMessage reason)) ↔ thrown ≠ .nullish := by
  cases thrown with
  | nullish => exact ⟨nofun, fun absent => absurd rfl absent⟩
  | error message => exact ⟨fun _ => nofun, fun _ => ⟨message, rfl⟩⟩
  | typeError message => exact ⟨fun _ => nofun, fun _ => ⟨message, rfl⟩⟩

/-- The condition under which the function reports what has happened. -/
def Reportable (outcomes : Nat → Attempt) (present : Bool) : Prop :=
  (∃ k < MAX_RETRIES, (outcomes k).Settles) ∨
    present = false ∧ lastThrown outcomes 0 MAX_RETRIES .nullish ≠ .nullish

theorem Reports.reportable {outcomes : Nat → Attempt} {present : Bool}
    {result : Except Thrown (Option Text)} {transcript : Transcript}
    (reports : Reports outcomes present result transcript) : Reportable outcomes present := by
  obtain ⟨result', transcript', ran, -, -, unsettled⟩ := outcomeOf_spec outcomes
  obtain ⟨rfl, rfl⟩ : result' = result ∧ transcript' = transcript := by
    simpa [ran] using reports.ends
  by_cases settles : ∃ k < MAX_RETRIES, (outcomes k).Settles
  · exact .inl settles
  · have failed := unsettled settles
    refine .inr ⟨?_, (exceeded_own_iff _).mp (reports.ownError _ failed)⟩
    cases present with
    | false => rfl
    | true =>
        obtain ⟨returned, succeeded⟩ := reports.complete rfl
        cases failed.symm.trans succeeded

/-- The function reports what has happened exactly when one of the attempts settles, or no
effect is present after the last one and the last exception has properties. -/
theorem reports_iff (outcomes : Nat → Attempt) (present : Bool) :
    (∃ result transcript, Reports outcomes present result transcript) ↔
      Reportable outcomes present := by
  constructor
  · rintro ⟨_, _, reports⟩
    exact reports.reportable
  · intro condition
    obtain ⟨result, transcript, ran, justified, settled, unsettled⟩ := outcomeOf_spec outcomes
    refine ⟨result, transcript, ran, fun txHash same => justified _ same txHash rfl, ?_, ?_⟩
    · intro here
      rcases condition with settles | ⟨absent, -⟩
      · exact settled settles
      · cases absent.symm.trans here
    · intro error failed
      by_cases settles : ∃ k < MAX_RETRIES, (outcomes k).Settles
      · obtain ⟨returned, succeeded⟩ := settled settles
        cases failed.symm.trans succeeded
      · rcases condition with impossible | ⟨-, thrown⟩
        · exact absurd impossible settles
        · obtain ⟨reason, own⟩ := (exceeded_own_iff _).mpr thrown
          have same : exceeded _ = error := Except.error.inj ((unsettled settles).symm.trans failed)
          exact ⟨reason, same.symm.trans own⟩

/-- Every transaction is sent and has landed, but the confirmations time out: the check is
never asked for, and the effect is reported as a failure. -/
theorem not_always_reports :
    ¬ ∀ outcomes present, ∃ result transcript, Reports outcomes present result transcript := by
  intro always
  obtain ⟨_, _, reports⟩ :=
    always (fun _ => ⟨.ok ['t', 'x'], .error (.error "timeout".toList), .ok true⟩) true
  have condition := reports.reportable
  simp [Reportable, Attempt.Settles] at condition

end Solpg.Client.Commands.Deploy
