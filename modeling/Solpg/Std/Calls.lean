import Mathlib.Order.Filter.AtTopBot.Basic

/-!
# Programs as trees of calls

A program that talks to the outside is a tree: each node is a call, with one
branch for every answer. `Makes` and `Returns` say which calls and results are
possible when each answer is one that `allowed` permits, so a statement about
`Makes` is one about every behaviour of the outside.
-/

namespace Solpg.Std

/-- A program as the calls that it makes: it has ended, or goes on with the answer to a call. -/
inductive Calls (Call : Type) (Answer : Call → Type) (ε α : Type) where
  | done (result : Except ε α)
  | call (request : Call) (next : Answer request → Calls Call Answer ε α)

namespace Calls

variable {Call : Type} {Answer : Call → Type} {ε ε' α β : Type}

/-- End with an error. -/
def fail (error : ε) : Calls Call Answer ε α := .done (.error error)

/-- Go on with the value of the first program, or end with its error. -/
def bind (program : Calls Call Answer ε α) (next : α → Calls Call Answer ε β) :
    Calls Call Answer ε β :=
  match program with
  | .done (.ok value) => next value
  | .done (.error error) => .done (.error error)
  | .call request rest => .call request fun answer => (rest answer).bind next

instance : Monad (Calls Call Answer ε) where
  pure value := .done (.ok value)
  bind := bind

/-- Nothing follows `pure`. -/
theorem bind_pure (program : Calls Call Answer ε α) : program.bind pure = program := by
  induction program with
  | done result => cases result <;> rfl
  | call request rest ih => simp only [bind, ih]

theorem bind_bind {γ : Type} (program : Calls Call Answer ε α) (f : α → Calls Call Answer ε β)
    (g : β → Calls Call Answer ε γ) :
    (program.bind f).bind g = program.bind fun value => (f value).bind g := by
  induction program with
  | done result => cases result <;> rfl
  | call request rest ih => simp only [bind, ih]

instance : LawfulMonad (Calls Call Answer ε) :=
  LawfulMonad.mk' (Calls Call Answer ε) bind_pure (fun _ _ => rfl) bind_bind

/-- The result of a program as a value. -/
def attempt : Calls Call Answer ε α → Calls Call Answer ε' (Except ε α)
  | .done result => .done (.ok result)
  | .call request next => .call request fun answer => (next answer).attempt

/-- `?` into another error type. -/
def mapError (f : ε → ε') : Calls Call Answer ε α → Calls Call Answer ε' α
  | .done result => .done (result.mapError f)
  | .call request next => .call request fun answer => (next answer).mapError f

variable (allowed : (request : Call) → Answer request → Prop)

/-- The program can make the call. -/
def Makes (program : Calls Call Answer ε α) (made : Call) : Prop :=
  match program with
  | .done _ => False
  | .call request next => made = request ∨ ∃ answer, allowed request answer ∧
      (next answer).Makes made

/-- The program can end with the result. -/
def Returns (program : Calls Call Answer ε α) (result : Except ε α) : Prop :=
  match program with
  | .done found => found = result
  | .call request next => ∃ answer, allowed request answer ∧ (next answer).Returns result

/-- All calls that the program can make satisfy `P`, and if it succeeds its
value satisfies `Q`. -/
structure Ensures (P : Call → Prop) (Q : α → Prop) (program : Calls Call Answer ε α) : Prop where
  makes : ∀ made, program.Makes allowed made → P made
  returns : ∀ value, program.Returns allowed (.ok value) → Q value

variable {allowed} {P : Call → Prop} {Q : α → Prop} {program : Calls Call Answer ε α}
  {next : α → Calls Call Answer ε β} {made : Call}

@[simp] theorem makes_pure (value : α) :
    (pure value : Calls Call Answer ε α).Makes allowed made ↔ False := Iff.rfl

@[simp] theorem makes_fail (error : ε) :
    (fail error : Calls Call Answer ε α).Makes allowed made ↔ False := Iff.rfl

@[simp] theorem returns_pure (value : α) (result : Except ε α) :
    (pure value : Calls Call Answer ε α).Returns allowed result ↔ .ok value = result := Iff.rfl

@[simp] theorem returns_fail (error : ε) (result : Except ε α) :
    (fail error : Calls Call Answer ε α).Returns allowed result ↔ .error error = result := Iff.rfl

/-- A sequence makes the calls of its first part, and those of its second part after any value
that the first can return. -/
theorem makes_bind : (program >>= next).Makes allowed made ↔
    program.Makes allowed made ∨
      ∃ value, program.Returns allowed (.ok value) ∧ (next value).Makes allowed made := by
  induction program with
  | done result =>
      cases result with
      | ok value => simp [Bind.bind, bind, Makes, Returns]
      | error error => simp [Bind.bind, bind, Makes, Returns]
  | call request rest ih =>
      simp only [Bind.bind, bind, Makes, Returns] at ih ⊢
      simp only [ih]
      constructor
      · rintro (same | ⟨answer, permitted, first | ⟨value, returned, later⟩⟩)
        · exact .inl (.inl same)
        · exact .inl (.inr ⟨answer, permitted, first⟩)
        · exact .inr ⟨value, ⟨answer, permitted, returned⟩, later⟩
      · rintro ((same | ⟨answer, permitted, first⟩) | ⟨value, ⟨answer, permitted, returned⟩, later⟩)
        · exact .inl same
        · exact .inr ⟨answer, permitted, .inl first⟩
        · exact .inr ⟨answer, permitted, .inr ⟨value, returned, later⟩⟩

/-- The value of a sequence comes from a value of its first part. -/
theorem returns_bind {value : β} (returned : (program >>= next).Returns allowed (.ok value)) :
    ∃ middle, program.Returns allowed (.ok middle) ∧
      (next middle).Returns allowed (.ok value) := by
  induction program with
  | done result =>
      cases result with
      | ok middle => exact ⟨middle, rfl, returned⟩
      | error error => cases returned
  | call request branch ih =>
      obtain ⟨answer, permitted, later⟩ := returned
      obtain ⟨middle, first, rest⟩ := ih answer later
      exact ⟨middle, ⟨answer, permitted, first⟩, rest⟩

/-- After a value of the first part, a sequence can end in whatever way the second part can. -/
theorem returns_bind_ok {value : α} {result : Except ε β}
    (first : program.Returns allowed (.ok value)) (rest : (next value).Returns allowed result) :
    (program >>= next).Returns allowed result := by
  induction program with
  | done found =>
      cases first
      exact rest
  | call request branch ih =>
      obtain ⟨answer, permitted, returned⟩ := first
      exact ⟨answer, permitted, ih answer returned⟩

/-- An error of the first part ends a sequence. -/
theorem returns_bind_error {error : ε} (first : program.Returns allowed (.error error)) :
    (program >>= next).Returns allowed (.error error) := by
  induction program with
  | done found =>
      cases first
      rfl
  | call request branch ih =>
      obtain ⟨answer, permitted, returned⟩ := first
      exact ⟨answer, permitted, ih answer returned⟩

/-- Catching errors makes no other calls. -/
theorem makes_attempt :
    (program.attempt : Calls Call Answer ε' _).Makes allowed made ↔ program.Makes allowed made := by
  induction program with
  | done result => rfl
  | call request branch ih => simp only [attempt, Makes, ih]

/-- Catching errors returns any result as a value. -/
theorem returns_attempt {result : Except ε α} :
    (program.attempt : Calls Call Answer ε' _).Returns allowed (.ok result) ↔
      program.Returns allowed result := by
  induction program with
  | done found => simp [attempt, Returns]
  | call request branch ih => simp only [attempt, Returns, ih]

/-- Renaming errors makes no other calls. -/
theorem makes_mapError {f : ε → ε'} :
    (program.mapError f).Makes allowed made ↔ program.Makes allowed made := by
  induction program with
  | done result => rfl
  | call request branch ih => simp only [mapError, Makes, ih]

/-- Renaming errors keeps the values. -/
theorem returns_mapError_ok {f : ε → ε'} {value : α} :
    (program.mapError f).Returns allowed (.ok value) ↔ program.Returns allowed (.ok value) := by
  induction program with
  | done found => cases found <;> simp [mapError, Returns, Except.mapError]
  | call request branch ih => simp only [mapError, Returns, ih]

/-- An error is returned under its new name. -/
theorem returns_mapError_error {f : ε → ε'} {error : ε}
    (returned : program.Returns allowed (.error error)) :
    (program.mapError f).Returns allowed (.error (f error)) := by
  induction program with
  | done found =>
      cases returned
      rfl
  | call request branch ih =>
      obtain ⟨answer, permitted, later⟩ := returned
      exact ⟨answer, permitted, ih answer later⟩

/-! ## One answer for each call -/

/-- The result, with the calls that are made, when the outside does not change. -/
def run (answer : (request : Call) → Answer request) :
    Calls Call Answer ε α → Except ε α × List Call
  | .done result => (result, [])
  | .call request next =>
      let (result, made) := (next (answer request)).run answer
      (result, request :: made)

section Run

variable {answer : (request : Call) → Answer request} {value : α} {error : ε} {calls : List Call}

@[simp] theorem run_pure : (pure value : Calls Call Answer ε α).run answer = (.ok value, []) := rfl

@[simp] theorem run_fail : (fail error : Calls Call Answer ε α).run answer = (.error error, []) := rfl

/-- After the value of its first part, a sequence runs its second part. -/
theorem run_bind_ok (first : program.run answer = (.ok value, calls)) :
    (program >>= next).run answer =
      (((next value).run answer).1, calls ++ ((next value).run answer).2) := by
  induction program generalizing calls with
  | done result =>
      cases first
      rfl
  | call request rest ih =>
      rcases later : (rest (answer request)).run answer with ⟨result, made⟩
      rw [run, later, Prod.mk.injEq] at first
      obtain ⟨rfl, rfl⟩ := first
      change (((rest (answer request) >>= next).run answer).1,
        request :: ((rest (answer request) >>= next).run answer).2) = _
      rw [ih _ later]
      rfl

/-- A run of a sequence ends with the error of its first part. -/
theorem run_bind_error (first : program.run answer = (.error error, calls)) :
    (program >>= next).run answer = (.error error, calls) := by
  induction program generalizing calls with
  | done result =>
      cases first
      rfl
  | call request rest ih =>
      rcases later : (rest (answer request)).run answer with ⟨result, made⟩
      rw [run, later, Prod.mk.injEq] at first
      obtain ⟨rfl, rfl⟩ := first
      change (((rest (answer request) >>= next).run answer).1,
        request :: ((rest (answer request) >>= next).run answer).2) = _
      rw [ih _ later]

/-- A run that catches errors makes the same calls and gives the result as a value. -/
theorem run_attempt : (program.attempt : Calls Call Answer ε' _).run answer =
    (.ok (program.run answer).1, (program.run answer).2) := by
  induction program with
  | done result => rfl
  | call request rest ih => simp only [attempt, run, ih]

/-- A run that renames errors makes the same calls. -/
theorem run_mapError {f : ε → ε'} : (program.mapError f).run answer =
    ((program.run answer).1.mapError f, (program.run answer).2) := by
  induction program with
  | done result => rfl
  | call request rest ih => simp only [mapError, run, ih]

/-- A sequence makes at least the calls of its first part. -/
theorem le_length_bind {count : Nat} (long : count ≤ (program.run answer).2.length) :
    count ≤ ((program >>= next).run answer).2.length := by
  rcases first : program.run answer with ⟨_ | _, calls⟩
  · rw [run_bind_error first]
    rwa [first] at long
  · rw [first] at long
    rw [run_bind_ok first, List.length_append]
    exact Nat.le_add_right_of_le long

/-- A sequence makes the calls of both parts. -/
theorem le_length_bind_next {count : Nat} (first : program.run answer = (.ok value, calls))
    (long : count ≤ ((next value).run answer).2.length) :
    calls.length + count ≤ ((program >>= next).run answer).2.length := by
  rw [run_bind_ok first, List.length_append]
  omega

end Run

/-! ## Programs with a bound

A program that takes a bound settles when its run is the same for every bound that is large
enough. Then the recursion that the bound cuts off comes to an end by itself.
-/

section Settled

open Filter

variable {answer : (request : Call) → Answer request} {first : Nat → Calls Call Answer ε α}
  {after : Nat → α → Calls Call Answer ε β} {value : α} {error : ε} {calls : List Call}

/-- From some bound on, all runs of the bounded program are the given one. -/
def Settles (answer : (request : Call) → Answer request) (bounded : Nat → Calls Call Answer ε α)
    (run : Except ε α × List Call) : Prop :=
  ∀ᶠ bound in atTop, (bounded bound).run answer = run

/-- From some bound on, the bound makes no difference. -/
def Settled (answer : (request : Call) → Answer request) (bounded : Nat → Calls Call Answer ε α) :
    Prop := ∃ run, Settles answer bounded run

/-- A program without a bound is settled. -/
theorem settled_const (program : Calls Call Answer ε α) : Settled answer fun _ => program :=
  ⟨_, Eventually.of_forall fun _ => rfl⟩

/-- A bounded program is settled when all larger bounds give the run of one of them. -/
theorem settled_iff : Settled answer first ↔
    ∃ bound, ∀ larger, bound ≤ larger → (first larger).run answer = (first bound).run answer := by
  constructor
  · rintro ⟨run, settles⟩
    obtain ⟨bound, same⟩ := eventually_atTop.mp settles
    exact ⟨bound, fun larger above => (same larger above).trans (same bound le_rfl).symm⟩
  · rintro ⟨bound, same⟩
    exact ⟨_, eventually_atTop.mpr ⟨bound, same⟩⟩

/-- One step of the recursion uses up one of the bound. -/
theorem Settled.of_succ (settled : Settled answer fun bound => first (bound + 1)) :
    Settled answer first := by
  obtain ⟨run, settles⟩ := settled
  obtain ⟨bound, same⟩ := eventually_atTop.mp settles
  refine ⟨run, eventually_atTop.mpr ⟨bound + 1, fun larger above => ?_⟩⟩
  obtain ⟨less, rfl⟩ := Nat.exists_eq_add_of_le above
  rw [show bound + 1 + less = bound + less + 1 by omega]
  exact same (bound + less) (Nat.le_add_right bound less)

/-- The final run of a sequence whose first part ends with a value. -/
theorem Settles.bind_ok {run : Except ε β × List Call}
    (settles : Settles answer first (.ok value, calls))
    (rest : Settles answer (fun bound => after bound value) run) :
    Settles answer (fun bound => first bound >>= after bound) (run.1, calls ++ run.2) := by
  filter_upwards [settles, rest] with bound before later
  rw [run_bind_ok before, later]

/-- The final run of a sequence whose first part ends with an error. -/
theorem Settles.bind_error (settles : Settles answer first (.error error, calls)) :
    Settles answer (fun bound => first bound >>= after bound) (.error error, calls) := by
  filter_upwards [settles] with bound before
  exact run_bind_error before

/-- A sequence is settled when its first part is, and its second part after each value of the
first. -/
theorem Settled.bind (settled : Settled answer first)
    (rest : ∀ value calls, Settles answer first (.ok value, calls) →
      Settled answer fun bound => after bound value) :
    Settled answer fun bound => first bound >>= after bound := by
  obtain ⟨⟨result, calls⟩, settles⟩ := settled
  cases result with
  | ok value =>
      obtain ⟨run, later⟩ := rest value calls settles
      exact ⟨_, settles.bind_ok later⟩
  | error error => exact ⟨_, settles.bind_error⟩

/-- The final run of a program whose errors are caught. -/
theorem Settles.attempt {result : Except ε α} (settles : Settles answer first (result, calls)) :
    Settles answer (fun bound => ((first bound).attempt : Calls Call Answer ε' _))
      (.ok result, calls) := by
  filter_upwards [settles] with bound same
  rw [run_attempt, same]

/-- Catching errors keeps a program settled. -/
theorem Settled.attempt (settled : Settled answer first) :
    Settled answer fun bound => ((first bound).attempt : Calls Call Answer ε' _) := by
  obtain ⟨run, settles⟩ := settled
  exact ⟨_, settles.attempt⟩

/-- The final run of a program whose errors are renamed. -/
theorem Settles.mapError {f : ε → ε'} {result : Except ε α}
    (settles : Settles answer first (result, calls)) :
    Settles answer (fun bound => (first bound).mapError f) (result.mapError f, calls) := by
  filter_upwards [settles] with bound same
  rw [run_mapError, same]

/-- Renaming errors keeps a program settled. -/
theorem Settled.mapError {f : ε → ε'} (settled : Settled answer first) :
    Settled answer fun bound => (first bound).mapError f := by
  obtain ⟨run, settles⟩ := settled
  exact ⟨_, settles.mapError⟩

/-- A loop is settled when its body is for every item. -/
theorem Settled.mapM {γ : Type} {items : List γ} {f : Nat → γ → Calls Call Answer ε α}
    (each : ∀ item ∈ items, Settled answer fun bound => f bound item) :
    Settled answer fun bound => items.mapM (f bound) := by
  induction items with
  | nil => exact settled_const _
  | cons item rest ih =>
      simp only [List.mapM_cons]
      refine (each item List.mem_cons_self).bind fun value _ _ => ?_
      refine Settled.bind (ih fun other member => each other (List.mem_cons_of_mem _ member))
        fun values _ _ => ?_
      exact settled_const _

end Settled

/-! ## The result of a run

`Gives` says how a run ends and what holds of its calls, with a rule for each way to make a
program.
-/

section Gives

/-- The run ends with the result, and all its calls satisfy `P`. -/
structure Gives (answer : (request : Call) → Answer request) (P : Call → Prop)
    (result : Except ε α) (program : Calls Call Answer ε α) : Prop where
  result : (program.run answer).1 = result
  calls : ∀ made ∈ (program.run answer).2, P made

variable {answer : (request : Call) → Answer request} {result : Except ε α} {value : α} {error : ε}

/-- A program that has ended gives its value. -/
theorem Gives.pure (value : α) :
    Gives answer P (.ok value) (pure value : Calls Call Answer ε α) where
  result := rfl
  calls := List.forall_mem_nil _

/-- A program that has failed gives its error. -/
theorem Gives.fail (error : ε) :
    Gives answer P (.error error) (fail error : Calls Call Answer ε α) where
  result := rfl
  calls := List.forall_mem_nil _

/-- After a value of the first part, a sequence gives what its second part gives. -/
theorem Gives.bind_ok {end_ : Except ε β} (first : Gives answer P (.ok value) program)
    (rest : Gives answer P end_ (next value)) : Gives answer P end_ (program >>= next) := by
  have whole : (program >>= next).run answer = (_, _) := run_bind_ok (Prod.ext first.result rfl)
  constructor
  · rw [whole, rest.result]
  · intro made member
    rw [whole] at member
    rcases List.mem_append.mp member with before | after
    · exact first.calls made before
    · exact rest.calls made after

/-- A sequence gives the error of its first part. -/
theorem Gives.bind_error (first : Gives answer P (.error error) program) :
    Gives answer P (.error error) (program >>= next) := by
  have whole : (program >>= next).run answer = (.error error, _) :=
    run_bind_error (Prod.ext first.result rfl)
  constructor
  · rw [whole]
  · intro made member
    rw [whole] at member
    exact first.calls made member

/-- What a function makes of the result is given. -/
theorem Gives.map {f : α → β} (first : Gives answer P result program) :
    Gives answer P (result.map f) (program >>= fun value => Pure.pure (f value)) := by
  cases result with
  | ok value => exact first.bind_ok (.pure (f value))
  | error error => exact first.bind_error

/-- Errors are given under their new names. -/
theorem Gives.mapError {f : ε → ε'} (gives : Gives answer P result program) :
    Gives answer P (result.mapError f) (program.mapError f) where
  result := by rw [run_mapError, gives.result]
  calls := by
    rw [run_mapError]
    exact gives.calls

/-- A loop gives what the body gives for the items, up to the first error. -/
theorem Gives.mapM {γ : Type} {items : List γ} {f : γ → Calls Call Answer ε α}
    {g : γ → Except ε α} (each : ∀ item ∈ items, Gives answer P (g item) (f item)) :
    Gives answer P (items.mapM g) (items.mapM f) := by
  induction items with
  | nil => exact .pure []
  | cons item rest ih =>
      have first := each item List.mem_cons_self
      have others := ih fun other member => each other (List.mem_cons_of_mem _ member)
      rw [List.mapM_cons, List.mapM_cons]
      cases found : g item with
      | error error =>
          rw [found] at first
          exact first.bind_error
      | ok value =>
          rw [found] at first
          exact first.bind_ok others.map

end Gives

/-! ## Rules for a specification of a program -/

/-- A program that has ended ensures what holds of its value. -/
theorem Ensures.pure {value : α} (holds : Q value) :
    Ensures allowed P Q (pure value : Calls Call Answer ε α) where
  makes _ impossible := impossible.elim
  returns _ returned := by
    cases returned
    exact holds

/-- A program that has failed ensures anything of its values. -/
theorem Ensures.fail (error : ε) : Ensures allowed P Q (fail error : Calls Call Answer ε α) where
  makes _ impossible := impossible.elim
  returns _ returned := by cases returned

/-- A sequence ensures what its second part does after every value that the first part ensures. -/
theorem Ensures.bind {R : β → Prop} (first : Ensures allowed P Q program)
    (rest : ∀ value, Q value → Ensures allowed P R (next value)) :
    Ensures allowed P R (program >>= next) where
  makes made makes := by
    rcases makes_bind.mp makes with early | ⟨value, returned, late⟩
    · exact first.makes made early
    · exact (rest value (first.returns value returned)).makes made late
  returns value returned := by
    obtain ⟨middle, before, after⟩ := returns_bind returned
    exact (rest middle (first.returns middle before)).returns value after

/-- What is ensured of the values may be weakened. -/
theorem Ensures.mono {R : α → Prop} (ensures : Ensures allowed P Q program)
    (weakens : ∀ value, Q value → R value) : Ensures allowed P R program where
  makes := ensures.makes
  returns value returned := weakens value (ensures.returns value returned)

/-- Catching errors ensures the same of the values. -/
theorem Ensures.attempt (ensures : Ensures allowed P Q program) :
    Ensures allowed P (fun result => ∀ value, result = .ok value → Q value)
      (program.attempt : Calls Call Answer ε' _) where
  makes made makes := ensures.makes made (makes_attempt.mp makes)
  returns _ returned value same := ensures.returns value (returns_attempt.mp (same ▸ returned))

/-- Renaming errors ensures the same of the values. -/
theorem Ensures.mapError {f : ε → ε'} (ensures : Ensures allowed P Q program) :
    Ensures allowed P Q (program.mapError f) where
  makes made makes := ensures.makes made (makes_mapError.mp makes)
  returns value returned := ensures.returns value (returns_mapError_ok.mp returned)

/-- A loop ensures of each value what its body ensures. -/
theorem Ensures.mapM {γ : Type} {items : List γ} {f : γ → Calls Call Answer ε α}
    (each : ∀ item ∈ items, Ensures allowed P Q (f item)) :
    Ensures allowed P (fun values => ∀ value ∈ values, Q value) (items.mapM f) := by
  induction items with
  | nil => exact .pure (by simp)
  | cons item rest ih =>
      rw [List.mapM_cons]
      refine (each item List.mem_cons_self).bind fun value holds => ?_
      refine (ih fun other member => each other (List.mem_cons_of_mem _ member)).bind
        fun values all => ?_
      exact .pure (by simpa using ⟨holds, all⟩)

end Calls
end Solpg.Std
