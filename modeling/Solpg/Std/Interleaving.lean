import Solpg.Std.Async

/-!
# Programs among other events

A program of `Async` as a machine: at each await either its request is answered, or
something else happens to the state and the world. `Always` says what holds of every
path through a program when the answers are permitted ones, and carries over to the
machine step by step.
-/

namespace Solpg.Std

variable {State Call World Reply Event : Type} {Answer : Call → Type} {ε α β : Type}

namespace Stage

/-- Every request on every path is one that `made` permits and every end satisfies `post`,
when each answer is one that `allowed` permits in the state it comes in. -/
def Always (made : Call → Prop) (allowed : (request : Call) → Answer request → State → Prop)
    (stage : Stage State Call Answer α) (post : α → State → Prop) : Prop :=
  match stage with
  | .done state result => post result state
  | .await _ request resume => made request ∧ ∀ answer state, allowed request answer state →
      (resume answer state).Always made allowed post
  | .endless _ => True

variable {made : Call → Prop} {allowed : (request : Call) → Answer request → State → Prop}

/-- A sequence keeps to its calls when both of its stages do. -/
theorem always_bind {stage : Stage State Call Answer α}
    {next : α → State → Stage State Call Answer β} {post : β → State → Prop} :
    (stage.bind next).Always made allowed post ↔
      stage.Always made allowed fun result state => (next result state).Always made allowed post := by
  induction stage with
  | done state result => rfl
  | await state request resume ih => simp only [bind, Always, ih]
  | endless state => rfl

/-- What always holds of the results may be weakened. -/
theorem Always.mono {stage : Stage State Call Answer α} {post weaker : α → State → Prop}
    (always : stage.Always made allowed post)
    (weakens : ∀ result state, post result state → weaker result state) :
    stage.Always made allowed weaker := by
  induction stage with
  | done state result => exact weakens _ _ always
  | await state request resume ih =>
      exact ⟨always.1, fun answer state permitted => ih _ _ (always.2 answer state permitted)⟩
  | endless state => trivial

/-- The state that the stage is left in. -/
def state : Stage State Call Answer α → State
  | .done state _ => state
  | .await state _ _ => state
  | .endless state => state

/-- The stage after others have changed the state. -/
def withState (stage : Stage State Call Answer α) (state : State) : Stage State Call Answer α :=
  match stage with
  | .done _ result => .done state result
  | .await _ request resume => .await state request resume
  | .endless _ => .endless state

/-- What others do to the state does not matter to a statement about results. -/
theorem Always.withState {stage : Stage State Call Answer α} {post : α → Prop}
    (always : stage.Always made allowed fun result _ => post result) (state : State) :
    (stage.withState state).Always made allowed fun result _ => post result := by
  cases stage with
  | done _ result => exact always
  | await _ request resume => exact always
  | endless _ => trivial

end Stage

namespace Async

/-- Whatever the allowed answers are, the program makes only such calls, and its end meets the
condition. -/
def Always (made : Call → Prop) (allowed : (request : Call) → Answer request → State → Prop)
    (program : Async State Call Answer ε α) (state : State) (post : Except ε α → State → Prop) : Prop :=
  (program state).Always made allowed post

variable {made : Call → Prop} {allowed : (request : Call) → Answer request → State → Prop}
  {program : Async State Call Answer ε α} {state : State} {post : Except ε α → State → Prop}

/-- What holds of a result, by whether it is a value or an error. -/
def split (returned : α → State → Prop) (thrown : ε → State → Prop) : Except ε α → State → Prop
  | .ok value => returned value
  | .error error => thrown error

@[simp] theorem split_ok (returned : α → State → Prop) (thrown : ε → State → Prop) (value : α) :
    split returned thrown (.ok value) = returned value := rfl

@[simp] theorem split_error (returned : α → State → Prop) (thrown : ε → State → Prop) (error : ε) :
    split returned thrown (.error error) = thrown error := rfl

@[simp] theorem always_pure (value : α) :
    (pure value : Async State Call Answer ε α).Always made allowed state post ↔
      post (.ok value) state := Iff.rfl

@[simp] theorem always_throw (error : ε) :
    (throw error : Async State Call Answer ε α).Always made allowed state post ↔
      post (.error error) state := Iff.rfl

@[simp] theorem always_endless :
    (endless : Async State Call Answer ε α).Always made allowed state post ↔ True := Iff.rfl

@[simp] theorem always_get {post : Except ε State → State → Prop} :
    (get : Async State Call Answer ε State).Always made allowed state post ↔
      post (.ok state) state := Iff.rfl

@[simp] theorem always_modify (f : State → State) {post : Except ε PUnit → State → Prop} :
    (modify f : Async State Call Answer ε PUnit).Always made allowed state post ↔
      post (.ok ⟨⟩) (f state) := Iff.rfl

@[simp] theorem always_perform {request : Call} {post : Except ε (Answer request) → State → Prop} :
    (perform request : Async State Call Answer ε _).Always made allowed state post ↔
      made request ∧ ∀ answer state, allowed request answer state → post (.ok answer) state := Iff.rfl

/-- A sequence keeps to its calls when its second part does after every value of the first. -/
@[simp] theorem always_bind {next : α → Async State Call Answer ε β} {post : Except ε β → State → Prop} :
    (program >>= next).Always made allowed state post ↔
      program.Always made allowed state
        (split (fun value state => (next value).Always made allowed state post)
          fun error state => post (.error error) state) := by
  refine Stage.always_bind.trans ⟨fun always => always.mono ?_, fun always => always.mono ?_⟩
  · rintro (error | value) state holds <;> exact holds
  · rintro (error | value) state holds <;> exact holds

/-- Catching errors makes no other calls. -/
@[simp] theorem always_attempt {post : Except ε (Except ε α) → State → Prop} :
    program.attempt.Always made allowed state post ↔
      program.Always made allowed state fun result => post (.ok result) :=
  Stage.always_bind

/-- What always holds of the end may be weakened. -/
theorem Always.mono {weaker : Except ε α → State → Prop}
    (always : program.Always made allowed state post)
    (weakens : ∀ result state, post result state → weaker result state) :
    program.Always made allowed state weaker := Stage.Always.mono always weakens

end Async

/-! ## The machine -/

/-- What surrounds a program. A reply resolves how a request is answered, an event is
anything else that happens to the state and the world. -/
structure Outside (State Call : Type) (Answer : Call → Type) (World Reply Event : Type) where
  serve : (request : Call) → Reply → World → Option (Answer request × World)
  happen : Event → State → World → Option (State × World)

/-- What happens next: a call is answered, or something else takes place. -/
inductive Occurrence (Reply Event : Type) where
  | reply (reply : Reply)
  | event (event : Event)

/-- A program that waits in a world. -/
structure Running (State Call : Type) (Answer : Call → Type) (World α : Type) where
  stage : Stage State Call Answer α
  world : World

namespace Outside

/-- The program goes on with a reply, or something happens beside it. -/
def next (outside : Outside State Call Answer World Reply Event)
    (running : Running State Call Answer World α) :
    Occurrence Reply Event → Option (Running State Call Answer World α)
  | .reply reply =>
      match running.stage with
      | .await state request resume =>
          (outside.serve request reply running.world).map fun (answer, world) =>
            ⟨resume answer state, world⟩
      | _ => none
  | .event event =>
      (outside.happen event running.stage.state running.world).map fun (state, world) =>
        ⟨running.stage.withState state, world⟩

variable {outside : Outside State Call Answer World Reply Event}
  {running after : Running State Call Answer World α}

/-- Invert a reply: the program was waiting for it. -/
theorem next_reply {reply : Reply} (stepped : outside.next running (.reply reply) = some after) :
    ∃ state request resume answer, running.stage = .await state request resume ∧
      outside.serve request reply running.world = some (answer, after.world) ∧
      after.stage = resume answer state := by
  unfold next at stepped
  cases stage : running.stage with
  | await state request resume =>
      simp only [stage, Option.map_eq_some_iff] at stepped
      obtain ⟨⟨answer, world⟩, served, rfl⟩ := stepped
      exact ⟨state, request, resume, answer, rfl, served, rfl⟩
  | done state result => simp [stage] at stepped
  | endless state => simp [stage] at stepped

/-- Invert an event: the program stands where it stood. -/
theorem next_event {event : Event} (stepped : outside.next running (.event event) = some after) :
    ∃ state, outside.happen event running.stage.state running.world = some (state, after.world) ∧
      after.stage = running.stage.withState state := by
  simp only [next, Option.map_eq_some_iff] at stepped
  obtain ⟨⟨state, world⟩, happened, rfl⟩ := stepped
  exact ⟨state, happened, rfl⟩

end Outside
end Solpg.Std
