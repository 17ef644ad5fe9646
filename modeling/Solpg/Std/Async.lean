import Solpg.Std.Machine

/-!
# Asynchronous programs

A program runs in blocks: between two awaits it works on the shared state
alone, at an await it asks the world and other programs may run before it
resumes. `Ends` is its weakest precondition when the others keep to a rely
relation; with equality for rely it is the run without interruption.
-/

namespace Solpg.Std

/-- What a block ends with: a result, or a request and the block that follows
the answer. `endless` is where a bound on a recursion was reached. -/
inductive Stage (State Call : Type) (Answer : Call → Type) (α : Type) where
  | done (state : State) (result : α)
  | await (state : State) (request : Call) (resume : Answer request → State → Stage State Call Answer α)
  | endless (state : State)

/-- A program that can throw. -/
def Async (State Call : Type) (Answer : Call → Type) (ε α : Type) : Type :=
  State → Stage State Call Answer (Except ε α)

variable {State Call World : Type} {Answer : Call → Type} {ε α β γ : Type}

/-- What follows runs where the stage is done. -/
def Stage.bind (stage : Stage State Call Answer α) (next : α → State → Stage State Call Answer β) :
    Stage State Call Answer β :=
  match stage with
  | .done state result => next result state
  | .await state request resume =>
      .await state request fun answer state => (resume answer state).bind next
  | .endless state => .endless state

namespace Async

instance : Monad (Async State Call Answer ε) where
  pure value := fun state => .done state (.ok value)
  bind program next := fun state =>
    (program state).bind fun result state =>
      match result with
      | .ok value => next value state
      | .error error => .done state (.error error)

instance : MonadExceptOf ε (Async State Call Answer ε) where
  throw error := fun state => .done state (.error error)
  tryCatch program handler := fun state =>
    (program state).bind fun result state =>
      match result with
      | .ok value => .done state (.ok value)
      | .error error => handler error state

instance : MonadStateOf State (Async State Call Answer ε) where
  get := fun state => .done state (.ok state)
  set state := fun _ => .done state (.ok ())
  modifyGet f := fun state => .done (f state).2 (.ok (f state).1)

/-- `await` a call. -/
def perform (request : Call) : Async State Call Answer ε (Answer request) := fun state =>
  .await state request fun answer state => .done state (.ok answer)

/-- The result of a program as a value. -/
def attempt (program : Async State Call Answer ε α) : Async State Call Answer ε (Except ε α) :=
  fun state => (program state).bind fun result state => .done state (.ok result)

/-- The recursion goes deeper than the model follows. -/
def endless : Async State Call Answer ε α := fun state => .endless state

end Async

/-! ## Weakest preconditions -/

/-- How requests are answered, what other programs may do meanwhile, and what
is granted of a program that reaches the bound of a recursion: `False` asks for
termination, `True` for nothing. -/
structure Setting (State Call : Type) (Answer : Call → Type) (World : Type) where
  serve : (request : Call) → World → Answer request × World
  rely : State → World → State → World → Prop
  cutOff : Prop

variable {setting : Setting State Call Answer World}

/-- The stage comes to a result for which `post` holds, whatever the others do
before and after each answer. -/
def Stage.Ends (setting : Setting State Call Answer World) (stage : Stage State Call Answer α)
    (world : World) (post : α → State → World → Prop) : Prop :=
  match stage with
  | .done state result => post result state world
  | .await state request resume => ∀ state₁ world₁, setting.rely state world state₁ world₁ →
      ∀ state₂ world₂, setting.rely state₁ (setting.serve request world₁).2 state₂ world₂ →
        (resume (setting.serve request world₁).1 state₂).Ends setting world₂ post
  | .endless _ => setting.cutOff

/-- However the others act, the program ends as said, or the cut-off allows that it does not. -/
def Async.Ensures (setting : Setting State Call Answer World) (program : Async State Call Answer ε α)
    (state : State) (world : World) (post : Except ε α → State → World → Prop) : Prop :=
  (program state).Ends setting world post

/-- What holds of a result, by whether it is a value or an error. -/
def either (next : α → State → World → Prop) (failed : ε → State → World → Prop) :
    Except ε α → State → World → Prop
  | .ok value => next value
  | .error error => failed error

@[simp] theorem either_ok (next : α → State → World → Prop) (failed : ε → State → World → Prop)
    (value : α) : either next failed (.ok value) = next value := rfl

@[simp] theorem either_error (next : α → State → World → Prop) (failed : ε → State → World → Prop)
    (error : ε) : either next failed (.error error) = failed error := rfl

/-- An ending may be described less exactly. -/
theorem Stage.Ends.mono {stage : Stage State Call Answer α} {world : World}
    {post weaker : α → State → World → Prop} (ends : stage.Ends setting world post)
    (weakens : ∀ result state world, post result state world → weaker result state world) :
    stage.Ends setting world weaker := by
  induction stage generalizing world with
  | done state result => exact weakens _ _ _ ends
  | await state request resume ih =>
      intro state₁ world₁ before state₂ world₂ after
      exact ih _ _ (ends state₁ world₁ before state₂ world₂ after)
  | endless state => exact ends

/-- Where the bound of a recursion is granted, nothing is asked of a program. -/
theorem Stage.ends_trivial (stage : Stage State Call Answer α) (granted : setting.cutOff)
    (world : World) : stage.Ends setting world fun _ _ _ => True := by
  induction stage generalizing world with
  | done state result => trivial
  | await state request resume ih => exact fun _ _ _ _ _ _ => ih _ _ _
  | endless state => exact granted

/-- Two results of a stage that comes to an end by the first of them. -/
theorem Stage.Ends.and {stage : Stage State Call Answer α} {world : World} {cutOff : Prop}
    {post other : α → State → World → Prop} (ends : stage.Ends setting world post)
    (also : stage.Ends { setting with cutOff } world other) :
    stage.Ends setting world fun result state world =>
      post result state world ∧ other result state world := by
  induction stage generalizing world with
  | done state result => exact ⟨ends, also⟩
  | await state request resume ih =>
      intro state₁ world₁ before state₂ world₂ after
      exact ih _ _ (ends state₁ world₁ before state₂ world₂ after)
        (also state₁ world₁ before state₂ world₂ after)
  | endless state => exact ends

/-- A sequence ends as what follows the first part. -/
theorem Stage.ends_bind {stage : Stage State Call Answer α} {world : World}
    {next : α → State → Stage State Call Answer β} {post : β → State → World → Prop} :
    (stage.bind next).Ends setting world post ↔
      stage.Ends setting world fun result state world =>
        (next result state).Ends setting world post := by
  induction stage generalizing world with
  | done state result => rfl
  | await state request resume ih => simp only [Stage.bind, Stage.Ends, ih]
  | endless state => rfl

namespace Async

variable {program : Async State Call Answer ε α} {next : α → Async State Call Answer ε β}
  {state : State} {world : World} {post : Except ε α → State → World → Prop}
  {middle : Except ε α → State → World → Prop}

@[simp] theorem ensures_pure (value : α) :
    (pure value : Async State Call Answer ε α).Ensures setting state world post ↔
      post (.ok value) state world := Iff.rfl

@[simp] theorem ensures_throw (error : ε) :
    (throw error : Async State Call Answer ε α).Ensures setting state world post ↔
      post (.error error) state world := Iff.rfl

@[simp] theorem ensures_endless :
    (endless : Async State Call Answer ε α).Ensures setting state world post ↔
      setting.cutOff := Iff.rfl

/-- The rule for a sequence: an error of the first part is its end. -/
@[simp] theorem ensures_bind {post : Except ε β → State → World → Prop} :
    (program >>= next).Ensures setting state world post ↔
      program.Ensures setting state world
        (either (fun value state world => (next value).Ensures setting state world post)
          fun error state world => post (.error error) state world) := by
  refine Stage.ends_bind.trans ⟨fun ends => ends.mono ?_, fun ends => ends.mono ?_⟩
  · rintro (error | value) state world holds <;> exact holds
  · rintro (error | value) state world holds <;> exact holds

/-- The rule for a handler: it takes over from an error. -/
@[simp] theorem ensures_tryCatch {handler : ε → Async State Call Answer ε α} :
    (tryCatch program handler).Ensures setting state world post ↔
      program.Ensures setting state world
        (either (fun value state world => post (.ok value) state world)
          fun error state world => (handler error).Ensures setting state world post) := by
  refine Stage.ends_bind.trans ⟨fun ends => ends.mono ?_, fun ends => ends.mono ?_⟩
  · rintro (error | value) state world holds <;> exact holds
  · rintro (error | value) state world holds <;> exact holds

/-- What was thrown is a value. -/
@[simp] theorem ensures_attempt {post : Except ε (Except ε α) → State → World → Prop} :
    program.attempt.Ensures setting state world post ↔
      program.Ensures setting state world fun result state world => post (.ok result) state world :=
  Stage.ends_bind

@[simp] theorem ensures_get {post : Except ε State → State → World → Prop} :
    (get : Async State Call Answer ε State).Ensures setting state world post ↔
      post (.ok state) state world := Iff.rfl

@[simp] theorem ensures_set (other : State) {post : Except ε PUnit → State → World → Prop} :
    (set other : Async State Call Answer ε PUnit).Ensures setting state world post ↔
      post (.ok ⟨⟩) other world := Iff.rfl

@[simp] theorem ensures_modify (f : State → State) {post : Except ε PUnit → State → World → Prop} :
    (modify f : Async State Call Answer ε PUnit).Ensures setting state world post ↔
      post (.ok ⟨⟩) (f state) world := Iff.rfl

/-- The rule for a call: others may act before it is served and after. -/
theorem ensures_perform {request : Call} {post : Except ε (Answer request) → State → World → Prop} :
    (perform request : Async State Call Answer ε _).Ensures setting state world post ↔
      ∀ state₁ world₁, setting.rely state world state₁ world₁ →
        ∀ state₂ world₂, setting.rely state₁ (setting.serve request world₁).2 state₂ world₂ →
          post (.ok (setting.serve request world₁).1) state₂ world₂ := Iff.rfl

/-- What a program ensures may be said less exactly. -/
theorem Ensures.mono {weaker : Except ε α → State → World → Prop}
    (ensures : program.Ensures setting state world post)
    (weakens : ∀ result state world, post result state world → weaker result state world) :
    program.Ensures setting state world weaker :=
  Stage.Ends.mono ensures weakens

/-- What a program ensures by itself holds together with what it ensures if cut off. -/
theorem Ensures.and {cutOff : Prop} {other : Except ε α → State → World → Prop}
    (ensures : program.Ensures setting state world post)
    (also : program.Ensures { setting with cutOff } state world other) :
    program.Ensures setting state world fun result state world =>
      post result state world ∧ other result state world :=
  Stage.Ends.and ensures also

/-- Nothing is asked where the cut-off is granted. -/
theorem ensures_trivial (granted : setting.cutOff) :
    program.Ensures setting state world fun _ _ _ => True :=
  Stage.ends_trivial _ granted _

/-- The rule for a sequence, with what holds between its parts. -/
theorem Ensures.bind {post : Except ε β → State → World → Prop}
    (first : program.Ensures setting state world middle)
    (rest : ∀ value state world, middle (.ok value) state world →
      (next value).Ensures setting state world post)
    (failed : ∀ error state world, middle (.error error) state world →
      post (.error error) state world) :
    (program >>= next).Ensures setting state world post := by
  rw [ensures_bind]
  refine first.mono ?_
  rintro (error | value) state world holds
  · exact failed error state world holds
  · exact rest value state world holds

/-- The rule for a loop over a list: what holds between the turns, by the items
that are left. -/
theorem Ensures.forM {body : β → Async State Call Answer ε PUnit} {items : List β}
    {post : Except ε PUnit → State → World → Prop} (Inv : List β → State → World → Prop)
    (start : Inv items state world)
    (turn : ∀ item rest state world, Inv (item :: rest) state world →
      (body item).Ensures setting state world
        (either (fun _ => Inv rest) fun error state world => post (.error error) state world))
    (finish : ∀ state world, Inv [] state world → post (.ok ⟨⟩) state world) :
    (items.forM body).Ensures setting state world post := by
  induction items generalizing state world with
  | nil => exact finish state world start
  | cons item rest ih =>
      refine Ensures.bind (turn item rest state world start) ?_ ?_
      · exact fun _ state world holds => ih holds
      · exact fun _ _ _ failed => failed

end Async

/-! ## What a program asks for -/

/-- Every request of the stage is allowed in the world that serves it. -/
def Stage.Asks (setting : Setting State Call Answer World) (allowed : Call → World → Prop)
    (stage : Stage State Call Answer α) (world : World) : Prop :=
  match stage with
  | .done _ _ => True
  | .await state request resume => ∀ state₁ world₁, setting.rely state world state₁ world₁ →
      allowed request world₁ ∧
        ∀ state₂ world₂, setting.rely state₁ (setting.serve request world₁).2 state₂ world₂ →
          (resume (setting.serve request world₁).1 state₂).Asks setting allowed world₂
  | .endless _ => True

/-- However the others act, every call that the program makes is allowed. -/
def Async.Asks (setting : Setting State Call Answer World) (allowed : Call → World → Prop)
    (program : Async State Call Answer ε α) (state : State) (world : World) : Prop :=
  (program state).Asks setting allowed world

section Asks

variable {allowed weaker : Call → World → Prop} {world : World}

/-- What comes after is asked for where the first part ends. -/
theorem Stage.Asks.bind {stage : Stage State Call Answer α} {middle : α → State → World → Prop}
    {next : α → State → Stage State Call Answer β} (asks : stage.Asks setting allowed world)
    (ends : stage.Ends { setting with cutOff := True } world middle)
    (rest : ∀ result state world, middle result state world →
      (next result state).Asks setting allowed world) :
    (stage.bind next).Asks setting allowed world := by
  induction stage generalizing world with
  | done state result => exact rest _ _ _ ends
  | await state request resume ih =>
      intro state₁ world₁ before
      refine ⟨(asks state₁ world₁ before).1, fun state₂ world₂ after => ?_⟩
      exact ih _ _ ((asks state₁ world₁ before).2 state₂ world₂ after)
        (ends state₁ world₁ before state₂ world₂ after)
  | endless state => trivial

namespace Async

variable {program : Async State Call Answer ε α} {next : α → Async State Call Answer ε β}
  {state : State}

/-- A single call is allowed in every world that the others leave. -/
theorem asks_perform {request : Call}
    (granted : ∀ state₁ world₁, setting.rely state world state₁ world₁ → allowed request world₁) :
    (perform request : Async State Call Answer ε _).Asks setting allowed state world :=
  fun state₁ world₁ before => ⟨granted state₁ world₁ before, fun _ _ _ => trivial⟩

/-- What follows asks only for what is allowed in the states that the first part ends in. -/
theorem Asks.bind (asks : program.Asks setting allowed state world)
    (ends : program.Ensures { setting with cutOff := True } state world middle)
    (rest : ∀ value state world, middle (.ok value) state world →
      (next value).Asks setting allowed state world) :
    (program >>= next).Asks setting allowed state world := by
  refine Stage.Asks.bind asks ends ?_
  rintro (error | value) state world holds
  · trivial
  · exact rest value state world holds

/-- The handler asks only for what is allowed in the states of the errors. -/
theorem Asks.tryCatch
    {handler : ε → Async State Call Answer ε α} (asks : program.Asks setting allowed state world)
    (ends : program.Ensures { setting with cutOff := True } state world middle)
    (caught : ∀ error state world, middle (.error error) state world →
      (handler error).Asks setting allowed state world) :
    (tryCatch program handler).Asks setting allowed state world := by
  refine Stage.Asks.bind asks ends ?_
  rintro (error | value) state world holds
  · exact caught error state world holds
  · trivial

end Async
end Asks

/-! ## Runs without interruption -/

/-- Answer each request at once. -/
def Stage.run (serve : (request : Call) → World → Answer request × World) :
    Stage State Call Answer α → World → Option (α × State × World)
  | .done state result, world => some (result, state, world)
  | .await state request resume, world =>
      (resume (serve request world).1 state).run serve (serve request world).2
  | .endless _, _ => none

/-- The program alone, with calls that are served at once. -/
def Async.run (serve : (request : Call) → World → Answer request × World)
    (program : Async State Call Answer ε α) (state : State) (world : World) :
    Option (Except ε α × State × World) :=
  (program state).run serve world

section Run

variable {serve : (request : Call) → World → Answer request × World} {state : State} {world : World}
  {program : Async State Call Answer ε α} {next : α → Async State Call Answer ε β}
  {state' : State} {world' : World}

/-- A sequence runs one part after the other. -/
theorem Stage.run_bind (stage : Stage State Call Answer α)
    (next : α → State → Stage State Call Answer β) (world : World) :
    (stage.bind next).run serve world =
      (stage.run serve world).bind fun (result, state, world) => (next result state).run serve world := by
  induction stage generalizing world with
  | done state result => rfl
  | await state request resume ih => exact ih _ _ _
  | endless state => rfl

namespace Async

@[simp] theorem run_pure (value : α) :
    (pure value : Async State Call Answer ε α).run serve state world =
      some (.ok value, state, world) := rfl

@[simp] theorem run_throw (error : ε) :
    (throw error : Async State Call Answer ε α).run serve state world =
      some (.error error, state, world) := rfl

@[simp] theorem run_perform (request : Call) :
    (perform request : Async State Call Answer ε _).run serve state world =
      some (.ok (serve request world).1, state, (serve request world).2) := rfl

/-- A sequence runs the rest unless the first part fails. -/
theorem run_bind (program : Async State Call Answer ε α) (next : α → Async State Call Answer ε β) :
    (program >>= next).run serve state world =
      (program.run serve state world).bind fun (result, state, world) =>
        match result with
        | .ok value => (next value).run serve state world
        | .error error => some (.error error, state, world) := by
  refine (Stage.run_bind _ _ _).trans (congrArg _ (funext fun ⟨result, state, world⟩ => ?_))
  cases result <;> rfl

/-- Continue after a program whose value is known. -/
theorem run_bind_ok {value : α}
    (ran : program.run serve state world = some (.ok value, state', world')) :
    (program >>= next).run serve state world = (next value).run serve state' world' := by
  simp [run_bind, ran]

/-- An error ends a sequence. -/
theorem run_bind_error {error : ε}
    (ran : program.run serve state world = some (.error error, state', world')) :
    (program >>= next).run serve state world = some (.error error, state', world') := by
  simp [run_bind, ran]

/-- An attempt turns an error into a result. -/
theorem run_attempt {result : Except ε α}
    (ran : program.run serve state world = some (result, state', world')) :
    program.attempt.run serve state world = some (.ok result, state', world') := by
  have split : program.attempt.run serve state world = _ := Stage.run_bind _ _ _
  rw [split, show (program state).run serve world = _ from ran]
  rfl

end Async
end Run

/-- Nobody else does anything. -/
def alone (serve : (request : Call) → World → Answer request × World) (cutOff : Prop) :
    Setting State Call Answer World where
  serve := serve
  rely state world state' world' := state' = state ∧ world' = world
  cutOff := cutOff

section Alone

variable {serve : (request : Call) → World → Answer request × World} {cutOff : Prop}
  {program : Async State Call Answer ε α} {state state' : State} {world world' : World}
  {post : Except ε α → State → World → Prop}

@[simp] theorem alone_serve :
    (alone serve cutOff : Setting State Call Answer World).serve = serve := rfl

/-- A stage alone ends as it runs. -/
theorem Stage.ends_alone {stage : Stage State Call Answer α}
    {post : α → State → World → Prop} : stage.Ends (alone serve cutOff) world post ↔
      match stage.run serve world with
      | some (result, state, world) => post result state world
      | none => cutOff := by
  induction stage generalizing world with
  | done state result => rfl
  | await state request resume ih =>
      simp only [Stage.Ends, Stage.run, alone, and_imp, forall_eq_apply_imp_iff, forall_eq]
      exact ih _ _
  | endless state => rfl

/-- A program alone ensures what its run shows. -/
theorem Async.ensures_alone :
    program.Ensures (alone serve cutOff) state world post ↔
      match program.run serve state world with
      | some (result, state, world) => post result state world
      | none => cutOff := by
  rw [Ensures, Stage.ends_alone, run]
  cases (program state).run serve world <;> rfl

/-- What a specification says of a run that is known. -/
theorem Async.Ensures.of_run {result : Except ε α}
    (ensures : program.Ensures (alone serve cutOff) state world post)
    (ran : program.run serve state world = some (result, state', world')) :
    post result state' world' := by
  rw [ensures_alone, ran] at ensures
  exact ensures

/-- A program that is specified to end has a run. -/
theorem Async.Ensures.exists_run (ensures : program.Ensures (alone serve False) state world post) :
    ∃ result state' world', program.run serve state world = some (result, state', world') ∧
      post result state' world' := by
  rw [ensures_alone] at ensures
  cases ran : program.run serve state world with
  | none => simp [ran] at ensures
  | some outcome => exact ⟨_, _, _, rfl, by simpa [ran] using ensures⟩

end Alone

end Solpg.Std
