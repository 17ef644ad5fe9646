import Mathlib.Data.List.Basic
import Mathlib.Logic.Basic

/-!
# Deterministic labelled machines

Every source of nondeterminism (a scheduler, a clock, a client) is recorded in
the label of a step, so a run is a list of labels and is executable. Safety of
a system is proved once, by an `Invariant`; a run whose steps all meet a
condition is a run of the machine restricted to it.
-/

namespace Solpg.Std

universe u v w z

/-- A state machine whose labels resolve every choice. `none` means that the
label is not enabled. -/
structure Machine (State : Type u) (Label : Type v) where
  Initial : State → Prop
  next : State → Label → Option State

namespace Machine

variable {State : Type u} {Label : Type v}

/-- Execute a list of labels, failing at the first one that is not enabled. -/
def run (machine : Machine State Label) : State → List Label → Option State
  | state, [] => some state
  | state, label :: rest => (machine.next state label).bind fun next => machine.run next rest

/-- States at the end of a run from an initial state. -/
def Reachable (machine : Machine State Label) (state : State) : Prop :=
  ∃ start labels, machine.Initial start ∧ machine.run start labels = some state

variable {machine : Machine State Label}

@[simp] theorem run_nil (state : State) : machine.run state [] = some state := rfl

@[simp] theorem run_cons (state : State) (label : Label) (rest : List Label) :
    machine.run state (label :: rest) =
      (machine.next state label).bind fun next => machine.run next rest := rfl

/-- Runs compose at the state where they meet. -/
theorem run_append (state : State) (first second : List Label) :
    machine.run state (first ++ second) =
      (machine.run state first).bind fun middle => machine.run middle second := by
  induction first generalizing state with
  | nil => rfl
  | cons label rest ih =>
      simp only [List.cons_append, run_cons]
      cases machine.next state label with
      | none => rfl
      | some next => exact ih next

/-- Invert a run that starts with a known label. -/
theorem run_cons_eq_some {state finish : State} {label : Label} {rest : List Label} :
    machine.run state (label :: rest) = some finish ↔
      ∃ next, machine.next state label = some next ∧ machine.run next rest = some finish := by
  simp [Option.bind_eq_some_iff]

/-- A predicate that every step preserves is preserved by every run. -/
theorem run_preserves (Inv : State → Prop)
    (preserved : ∀ {state label next}, Inv state → machine.next state label = some next → Inv next)
    {state finish : State} {labels : List Label} (holds : Inv state)
    (ran : machine.run state labels = some finish) : Inv finish := by
  induction labels generalizing state with
  | nil =>
      cases ran
      exact holds
  | cons label rest ih =>
      obtain ⟨next, stepped, tail⟩ := run_cons_eq_some.mp ran
      exact ih (preserved holds stepped) tail

/-- An inductive invariant: it holds initially and every step preserves it. -/
structure Invariant (machine : Machine State Label) where
  Inv : State → Prop
  initial : ∀ {state}, machine.Initial state → Inv state
  preserved : ∀ {state label next}, Inv state → machine.next state label = some next → Inv next

/-- An invariant holds in every reachable state. -/
theorem Invariant.of_reachable (inv : Invariant machine) {state : State}
    (reachable : machine.Reachable state) : inv.Inv state := by
  obtain ⟨start, labels, initial, ran⟩ := reachable
  exact run_preserves inv.Inv inv.preserved (inv.initial initial) ran

/-- One more step from a reachable state. -/
theorem Reachable.next {state next : State} {label : Label} (reachable : machine.Reachable state)
    (stepped : machine.next state label = some next) : machine.Reachable next := by
  obtain ⟨start, labels, initial, ran⟩ := reachable
  refine ⟨start, labels ++ [label], initial, ?_⟩
  simp [run_append, ran, stepped]

/-- The machine with only those steps that meet `guard`, a condition on the
state before the step and its label. -/
def restrict (machine : Machine State Label) (guard : State → Label → Bool) :
    Machine State Label where
  Initial := machine.Initial
  next state label := if guard state label then machine.next state label else none

/-- A restricted machine takes the steps that its guard lets through. -/
theorem restrict_next_eq_some {guard : State → Label → Bool} {state next : State} {label : Label} :
    (machine.restrict guard).next state label = some next ↔
      guard state label = true ∧ machine.next state label = some next := by
  by_cases met : guard state label <;> simp [restrict, met]

/-- Every step of the run that the labels describe meets the condition. -/
def Meets (machine : Machine State Label) (guard : State → Label → Prop) :
    State → List Label → Prop
  | _, [] => True
  | state, label :: rest =>
      guard state label ∧ ∀ next, machine.next state label = some next → machine.Meets guard next rest

variable {guard : State → Label → Prop} {P : State → Prop} {state : State} {labels : List Label}

/-- Steps that meet a condition meet a weaker one. -/
theorem Meets.mono {guard weaker : State → Label → Prop}
    (meets : machine.Meets guard state labels)
    (weakens : ∀ state label, guard state label → weaker state label) :
    machine.Meets weaker state labels := by
  induction labels generalizing state with
  | nil => trivial
  | cons label rest ih =>
      exact ⟨weakens state label meets.1, fun next stepped => ih (meets.2 next stepped)⟩

/-- Conditions that say the same wherever an invariant holds are met along the same runs. -/
theorem meets_congr {guard other : State → Label → Prop} (Inv : State → Prop)
    (preserved : ∀ {state label next}, Inv state → machine.next state label = some next → Inv next)
    (agree : ∀ {state label}, Inv state → (guard state label ↔ other state label))
    (labels : List Label) (inv : Inv state) :
    machine.Meets guard state labels ↔ machine.Meets other state labels := by
  induction labels generalizing state with
  | nil => rfl
  | cons label rest ih =>
      refine and_congr (agree inv) (forall_congr' fun next => ?_)
      exact imp_congr_right fun stepped => ih (preserved inv stepped)

/-- A predicate that every step under the condition preserves is preserved by
every run whose steps all meet it. -/
theorem run_preserves_of_meets (Inv : State → Prop)
    (preserved : ∀ {state label next}, Inv state → guard state label →
      machine.next state label = some next → Inv next)
    {state finish : State} (holds : Inv state)
    (meets : machine.Meets guard state labels)
    (ran : machine.run state labels = some finish) : Inv finish := by
  induction labels generalizing state with
  | nil =>
      cases ran
      exact holds
  | cons label rest ih =>
      obtain ⟨next, stepped, tail⟩ := run_cons_eq_some.mp ran
      exact ih (preserved holds meets.1 stepped) (meets.2 next stepped) tail

/-- A predicate holds at the start of a run and after each of its steps. -/
def Throughout (machine : Machine State Label) (P : State → Prop) : State → List Label → Prop
  | state, [] => P state
  | state, label :: rest =>
      P state ∧ ∀ next, machine.next state label = some next → machine.Throughout P next rest

/-- What holds throughout a run holds in its first state. -/
theorem Throughout.head (throughout : machine.Throughout P state labels) : P state := by
  cases labels with
  | nil => exact throughout
  | cons label rest => exact throughout.1

/-- A predicate that holds throughout a run holds where the run ends. -/
theorem Throughout.of_run {state finish : State}
    (throughout : machine.Throughout P state labels)
    (ran : machine.run state labels = some finish) : P finish := by
  induction labels generalizing state with
  | nil =>
      cases ran
      exact throughout
  | cons label rest ih =>
      obtain ⟨next, stepped, tail⟩ := run_cons_eq_some.mp ran
      exact ih (throughout.2 next stepped) tail

/-- What holds throughout a run may be weakened. -/
theorem Throughout.mono {P Q : State → Prop}
    (throughout : machine.Throughout P state labels) (weakens : ∀ state, P state → Q state) :
    machine.Throughout Q state labels := by
  induction labels generalizing state with
  | nil => exact weakens state throughout
  | cons label rest ih =>
      exact ⟨weakens state throughout.1, fun next stepped => ih (throughout.2 next stepped)⟩

/-- Two predicates that hold throughout a run hold together. -/
theorem Throughout.and {P Q : State → Prop}
    (first : machine.Throughout P state labels) (second : machine.Throughout Q state labels) :
    machine.Throughout (fun state => P state ∧ Q state) state labels := by
  induction labels generalizing state with
  | nil => exact ⟨first, second⟩
  | cons label rest ih =>
      exact ⟨⟨first.1, second.1⟩, fun next stepped =>
        ih (first.2 next stepped) (second.2 next stepped)⟩

/-- The steps from states where a predicate holds meet what follows from it. -/
theorem Throughout.meets (throughout : machine.Throughout P state labels)
    (weakens : ∀ state label, P state → guard state label) :
    machine.Meets guard state labels := by
  induction labels generalizing state with
  | nil => trivial
  | cons label rest ih =>
      exact ⟨weakens state label throughout.1, fun next stepped => ih (throughout.2 next stepped)⟩

/-- A predicate that every step preserves holds throughout every run. -/
theorem throughout_of_preserved (P : State → Prop)
    (preserved : ∀ {state label next}, P state → machine.next state label = some next → P next)
    (labels : List Label) (holds : P state) :
    machine.Throughout P state labels := by
  induction labels generalizing state with
  | nil => exact holds
  | cons label rest ih => exact ⟨holds, fun next stepped => ih (preserved holds stepped)⟩

/-- A predicate that every step under a condition preserves holds throughout every
run whose steps all meet the condition. -/
theorem throughout_of_meets (P : State → Prop)
    (preserved : ∀ {state label next}, P state → guard state label →
      machine.next state label = some next → P next)
    (holds : P state)
    (meets : machine.Meets guard state labels) : machine.Throughout P state labels := by
  induction labels generalizing state with
  | nil => exact holds
  | cons label rest ih =>
      exact ⟨holds, fun next stepped =>
        ih (preserved holds meets.1 stepped) (meets.2 next stepped)⟩

/-- When the steps under a condition preserve an invariant, and the other steps break a
predicate that follows from it, the predicate holds throughout exactly the runs whose
steps all meet the condition. -/
theorem throughout_iff_meets_while (Inv : State → Prop) (holds : ∀ {state}, Inv state → P state)
    (disabled : ∀ {state label}, Inv state → machine.next state label = none → guard state label)
    (preserved : ∀ {state label next}, Inv state → guard state label →
      machine.next state label = some next → Inv next)
    (breaks : ∀ {state label next}, Inv state → machine.next state label = some next →
      P next → guard state label)
    (labels : List Label) (inv : Inv state) :
    machine.Throughout P state labels ↔ machine.Meets guard state labels := by
  constructor
  · intro throughout
    induction labels generalizing state with
    | nil => trivial
    | cons label rest ih =>
        have met : guard state label := by
          cases stepped : machine.next state label with
          | none => exact disabled inv stepped
          | some next => exact breaks inv stepped (throughout.2 next stepped).head
        exact ⟨met, fun next stepped =>
          ih (preserved inv met stepped) (throughout.2 next stepped)⟩
  · intro meets
    exact (throughout_of_meets Inv preserved inv meets).mono fun _ => holds

/-- When exactly the steps under a condition preserve a predicate, it holds
throughout exactly the runs whose steps all meet the condition. -/
theorem throughout_iff_meets (Inv : State → Prop)
    (enabled : ∀ state label, ∃ next, machine.next state label = some next)
    (preserved : ∀ {state label next}, Inv state → machine.next state label = some next → Inv next)
    (decides : ∀ {state label next}, Inv state → P state →
      machine.next state label = some next → (P next ↔ guard state label))
    (labels : List Label) (inv : Inv state) (holds : P state) :
    machine.Throughout P state labels ↔ machine.Meets guard state labels := by
  refine throughout_iff_meets_while (fun state => Inv state ∧ P state) And.right ?_ ?_ ?_ labels
    ⟨inv, holds⟩
  · intro state label _ stuck
    obtain ⟨next, stepped⟩ := enabled state label
    exact absurd (stuck.symm.trans stepped) nofun
  · intro state label next both met stepped
    exact ⟨preserved both.1 stepped, (decides both.1 both.2 stepped).mpr met⟩
  · intro state label next both stepped there
    exact (decides both.1 both.2 stepped).mp there

/-- When the condition on a step says that the step itself is good and that a predicate
holds afterwards, both hold along exactly the runs whose steps all meet the condition. -/
theorem throughout_and_meets_iff {guard good : State → Label → Prop}
    (decides : ∀ {state label}, P state →
      (guard state label ↔
        (∀ next, machine.next state label = some next → P next) ∧ good state label))
    (labels : List Label) (holds : P state) :
    machine.Throughout P state labels ∧ machine.Meets good state labels ↔
      machine.Meets guard state labels := by
  induction labels generalizing state with
  | nil => exact ⟨fun _ => trivial, fun _ => ⟨holds, trivial⟩⟩
  | cons label rest ih =>
      constructor
      · rintro ⟨throughout, meets⟩
        have after : ∀ next, machine.next state label = some next → P next :=
          fun next stepped => (throughout.2 next stepped).head
        refine ⟨(decides holds).mpr ⟨after, meets.1⟩, fun next stepped => ?_⟩
        exact (ih (after next stepped)).mp ⟨throughout.2 next stepped, meets.2 next stepped⟩
      · intro meets
        obtain ⟨after, good⟩ := (decides holds).mp meets.1
        have tail : ∀ next, machine.next state label = some next →
            machine.Throughout P next rest ∧ machine.Meets _ next rest :=
          fun next stepped => (ih (after next stepped)).mpr (meets.2 next stepped)
        exact ⟨⟨holds, fun next stepped => (tail next stepped).1⟩,
          ⟨good, fun next stepped => (tail next stepped).2⟩⟩

/-- A functional simulation: each step of `concrete` is matched by a run of
`abstract` between the images of its states. -/
structure Simulation {AbsState : Type w} {AbsLabel : Type z} (concrete : Machine State Label)
    (abstract : Machine AbsState AbsLabel) where
  mapState : State → AbsState
  initial : ∀ {state}, concrete.Initial state → abstract.Initial (mapState state)
  step : ∀ {state label next}, concrete.next state label = some next →
    ∃ labels, abstract.run (mapState state) labels = some (mapState next)

/-- The image of a reachable state is reachable, so every invariant of the
abstract machine holds of the concrete one. -/
theorem Simulation.reachable {AbsState : Type w} {AbsLabel : Type z}
    {abstract : Machine AbsState AbsLabel} (simulation : Simulation machine abstract)
    (reachable : machine.Reachable state) :
    abstract.Reachable (simulation.mapState state) := by
  obtain ⟨start, labels, initial, ran⟩ := reachable
  have reached : abstract.Reachable (simulation.mapState start) :=
    ⟨simulation.mapState start, [], simulation.initial initial, rfl⟩
  refine run_preserves (fun current => abstract.Reachable (simulation.mapState current))
    ?_ reached ran
  rintro current label next ⟨origin, before, originInitial, ranBefore⟩ stepped
  obtain ⟨matching, ranMatching⟩ := simulation.step stepped
  refine ⟨origin, before ++ matching, originInitial, ?_⟩
  simp [run_append, ranBefore, ranMatching]

end Machine
end Solpg.Std
