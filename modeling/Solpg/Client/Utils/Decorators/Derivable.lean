import Solpg.Std.Machine
import Mathlib.Data.List.Nodup

/-!
# Derivable properties

The `derivable` decorator, for one property: change events start derivations through one
debounce timer, and each derivation assigns and dispatches its value when it resolves,
in whatever order they do.
-/

namespace Solpg.Client.Utils.Decorators

open Solpg.Std

/-- The declaration of a property. `Value` is what `===` compares. -/
structure Derivable (Value : Type) where
  undefined : Value
  null : Value
  infallible : Bool
  noCache : Bool

/-- How the `derive` method of a property ends. -/
inductive DeriveOutcome (Value : Type) where
  | returned (value : Value)
  | threw
  deriving DecidableEq, Repr

/-- What has become of the derivation of the last change event. -/
inductive Latest (Value : Type) where
  | none
  | running
  | resolved (value : Value)
  | rejected
  deriving DecidableEq, Repr

/-- The property and its events. Derivations are numbered in the order they start, and
`derivations` are those that have not ended. `dispatched` is the value of the last change
event. -/
structure Property (Value : Type) where
  isInitialized : Bool
  timer : Bool
  started : Nat
  derivations : List Nat
  value : Value
  cache : Value
  dispatched : Option Value
  latest : Latest Value
  deriving DecidableEq, Repr

inductive PropertyEvent (Value : Type) where
  /-- All `init` functions of the class have run. -/
  | initialized
  /-- A source of the property changes. -/
  | change
  | timerFires
  | deriveEnds (derivation : Nat) (outcome : DeriveOutcome Value)

variable {Value : Type}

/-- The property when a derivation has ended. -/
def Property.ended (property : Property Value) (derivation : Nat) (latest : Latest Value) :
    Property Value :=
  { property with derivations := property.derivations.erase derivation, latest }

variable [DecidableEq Value]

namespace Derivable

variable (derivable : Derivable Value)

/-- The wrapper `derive`, which turns an exception into `null`. Nothing is assigned when it
throws. -/
def derive : DeriveOutcome Value → Option Value
  | .returned value => some value
  | .threw => if derivable.infallible then none else some derivable.null

/-- `_dispatchChangeEvent` of the property. -/
def dispatchChangeEvent (property : Property Value) : Property Value :=
  if !property.isInitialized then property
  else if property.cache = property.value then property
  else
    { property with
      cache := if derivable.noCache then property.cache else property.value
      dispatched := some property.value }

/-- The callback of `batchChanges` after its await. -/
def assign (property : Property Value) (value : Value) : Property Value :=
  derivable.dispatchChangeEvent { property with value := value }

def next (property : Property Value) : PropertyEvent Value → Option (Property Value)
  | .initialized => some { property with isInitialized := true }
  | .change => some { property with timer := true }
  | .timerFires =>
      if property.timer then
        some { property with
          timer := false
          started := property.started + 1
          derivations := property.derivations ++ [property.started]
          latest := .running }
      else none
  | .deriveEnds derivation outcome =>
      if derivation ∈ property.derivations then
        let last := derivation + 1 = property.started
        some (match derivable.derive outcome with
          | some value =>
              derivable.assign (property.ended derivation
                (if last then .resolved value else property.latest)) value
          | none => property.ended derivation (if last then .rejected else property.latest))
      else none

/-- Nothing has been derived yet. -/
def machine : Machine (Property Value) (PropertyEvent Value) where
  Initial property := property = ⟨false, false, 0, [], derivable.undefined, derivable.undefined,
    none, .none⟩
  next := derivable.next

end Derivable

namespace Property

variable (property : Property Value)

def Idle : Prop := property.timer = false ∧ property.derivations = []

/-- When nothing is pending, the property and its last change event have the value that the
derivation of the last change event has resolved to. -/
def Converged : Prop :=
  property.Idle → property.latest = .none ∨ property.latest = .rejected ∨
    ∃ value, property.latest = .resolved value ∧ property.value = value ∧
      property.dispatched = some value

end Property

namespace Derivable

variable (derivable : Derivable Value)

/-- No derivation ends after the one that was started last has resolved. And that one
resolves once the class is initialized, and not to `undefined`. -/
def InOrder (property : Property Value) : PropertyEvent Value → Prop
  | .deriveEnds derivation outcome =>
      (∀ value, property.latest ≠ .resolved value) ∧
        (derivation + 1 = property.started → ∀ value, derivable.derive outcome = some value →
          property.isInitialized = true ∧ value ≠ derivable.undefined)
  | _ => True

variable {derivable} {property after : Property Value}

/-- The derivations are those under way, the cache is what was dispatched last, and a
resolved last derivation has been assigned and dispatched. -/
structure Inv (derivable : Derivable Value) (property : Property Value) : Prop where
  distinct : property.derivations.Nodup
  early : ∀ derivation ∈ property.derivations, derivation < property.started
  idle : property.latest = .none → property.started = 0
  running : property.latest = .running → property.started - 1 ∈ property.derivations
  cached : property.cache ≠ derivable.undefined → property.dispatched = some property.cache
  uncached : derivable.noCache = true → property.cache = derivable.undefined
  resolved : ∀ value, property.latest = .resolved value →
    property.value = value ∧ property.dispatched = some value

/-- What an assignment leaves: the cache goes with the last event. -/
theorem assign_cases (derivable : Derivable Value) (property : Property Value) (value : Value) :
    derivable.assign property value = { property with value := value } ∧
        (property.isInitialized = false ∨ property.cache = value) ∨
      derivable.assign property value = { property with
          value := value
          cache := if derivable.noCache then property.cache else value
          dispatched := some value } ∧
        property.isInitialized = true ∧ property.cache ≠ value := by
  unfold assign dispatchChangeEvent
  cases initialized : property.isInitialized with
  | false => simp
  | true =>
      by_cases same : property.cache = value
      · simp [same]
      · simp [same]

/-- An assignment keeps the cache in step with the events. -/
theorem assign_cache (cached : property.cache ≠ derivable.undefined →
      property.dispatched = some property.cache)
    (uncached : derivable.noCache = true → property.cache = derivable.undefined) (value : Value) :
    ((derivable.assign property value).cache ≠ derivable.undefined →
        (derivable.assign property value).dispatched = some (derivable.assign property value).cache) ∧
      (derivable.noCache = true → (derivable.assign property value).cache = derivable.undefined) := by
  rcases assign_cases derivable property value with ⟨same, -⟩ | ⟨same, -, -⟩
  · rw [same]
    exact ⟨cached, uncached⟩
  · rw [same]
    cases caches : derivable.noCache with
    | false => exact ⟨fun _ => rfl, nofun⟩
    | true => exact ⟨fun known => absurd (uncached caches) known, fun _ => uncached caches⟩

/-- A defined value that is assigned after the initialization is the last one dispatched. -/
theorem assign_dispatched (cached : property.cache ≠ derivable.undefined →
      property.dispatched = some property.cache)
    (initialized : property.isInitialized = true) {value : Value} (defined : value ≠ derivable.undefined) :
    (derivable.assign property value).value = value ∧
      (derivable.assign property value).dispatched = some value := by
  rcases assign_cases derivable property value with ⟨same, unchanged⟩ | ⟨same, -, -⟩
  · rw [same]
    rcases unchanged with uninitialized | equal
    · cases initialized.symm.trans uninitialized
    · exact ⟨rfl, equal ▸ cached (equal ▸ defined)⟩
  · rw [same]
    exact ⟨rfl, rfl⟩

theorem assign_rest (derivable : Derivable Value) (property : Property Value) (value : Value) :
    (derivable.assign property value).derivations = property.derivations ∧
      (derivable.assign property value).started = property.started ∧
      (derivable.assign property value).latest = property.latest := by
  rcases assign_cases derivable property value with ⟨same, -⟩ | ⟨same, -, -⟩ <;> rw [same] <;>
    exact ⟨rfl, rfl, rfl⟩

omit [DecidableEq Value] in
/-- The derivations that are left when one ends. -/
theorem mem_erase_iff (inv : Inv derivable property) {derivation other : Nat} :
    other ∈ property.derivations.erase derivation ↔
      other ∈ property.derivations ∧ other ≠ derivation := by
  rw [inv.distinct.mem_erase_iff, and_comm]

omit [DecidableEq Value] in
/-- A derivation that is not the last one ends. -/
theorem Inv.ended (inv : Inv derivable property) {derivation : Nat}
    (under : derivation ∈ property.derivations) (notLast : derivation + 1 ≠ property.started) :
    Inv derivable (property.ended derivation property.latest) := by
  refine ⟨inv.distinct.erase _, ?_, inv.idle, ?_, inv.cached, inv.uncached, inv.resolved⟩
  · exact fun other member => inv.early other ((mem_erase_iff inv).mp member).1
  · intro running
    have early := inv.early derivation under
    have different : property.started - 1 ≠ derivation := by omega
    exact (mem_erase_iff inv).mpr ⟨inv.running running, different⟩

/-- An assignment while the last derivation has not resolved. -/
theorem Inv.assign (inv : Inv derivable property)
    (unresolved : ∀ value, property.latest ≠ .resolved value) (value : Value) :
    Inv derivable (derivable.assign property value) := by
  obtain ⟨derivations, started, latest⟩ := assign_rest derivable property value
  obtain ⟨cached, uncached⟩ := assign_cache inv.cached inv.uncached value
  refine ⟨?_, ?_, ?_, ?_, cached, uncached, ?_⟩
  · rw [derivations]
    exact inv.distinct
  · rw [derivations, started]
    exact inv.early
  · rw [latest, started]
    exact inv.idle
  · rw [latest, started, derivations]
    exact inv.running
  · intro found resolved
    rw [latest] at resolved
    exact absurd resolved (unresolved found)

/-- The derivation that was started last resolves. -/
theorem Inv.last (inv : Inv derivable property) (derivation : Nat)
    (initialized : property.isInitialized = true) {value : Value}
    (defined : value ≠ derivable.undefined) :
    Inv derivable (derivable.assign (property.ended derivation (.resolved value)) value) := by
  obtain ⟨derivations, started, latest⟩ :=
    assign_rest derivable (property.ended derivation (.resolved value)) value
  have ended : (property.ended derivation (.resolved value)).cache ≠ derivable.undefined →
      (property.ended derivation (.resolved value)).dispatched = some property.cache := inv.cached
  obtain ⟨cached, uncached⟩ := assign_cache ended inv.uncached value
  refine ⟨?_, ?_, ?_, ?_, cached, uncached, ?_⟩
  · rw [derivations]
    exact inv.distinct.erase _
  · rw [derivations, started]
    exact fun other member => inv.early other ((mem_erase_iff inv).mp member).1
  · rw [latest]
    exact nofun
  · rw [latest]
    exact nofun
  · intro found resolved
    rw [latest] at resolved
    obtain rfl : value = found := Latest.resolved.inj resolved
    exact assign_dispatched ended initialized defined

theorem step_inv {event : PropertyEvent Value} (inv : Inv derivable property)
    (inOrder : derivable.InOrder property event)
    (stepped : derivable.next property event = some after) : Inv derivable after := by
  cases event with
  | initialized =>
      cases stepped
      exact ⟨inv.1, inv.2, inv.3, inv.4, inv.5, inv.6, inv.7⟩
  | change =>
      cases stepped
      exact ⟨inv.1, inv.2, inv.3, inv.4, inv.5, inv.6, inv.7⟩
  | timerFires =>
      simp only [next] at stepped
      split at stepped
      · cases stepped
        refine ⟨?_, ?_, nofun, fun _ => by simp, inv.cached, inv.uncached, nofun⟩
        · have fresh : property.started ∉ property.derivations := by
            intro member
            exact absurd (inv.early _ member) (Nat.lt_irrefl _)
          exact List.nodup_append.mpr ⟨inv.distinct, List.nodup_singleton _, by
            rintro other member _ single rfl
            exact fresh (List.mem_singleton.mp single ▸ member)⟩
        · intro derivation member
          rcases List.mem_append.mp member with before | now
          · exact Nat.lt_succ_of_lt (inv.early derivation before)
          · rw [List.mem_singleton.mp now]
            exact Nat.lt_succ_self _
      · cases stepped
  | deriveEnds derivation outcome =>
      simp only [next] at stepped
      split at stepped
      case isFalse => cases stepped
      case isTrue under =>
        obtain ⟨unresolved, settles⟩ := inOrder
        by_cases last : derivation + 1 = property.started
        · cases result : derivable.derive outcome with
          | none =>
              simp only [result, last, if_true] at stepped
              cases stepped
              refine ⟨inv.distinct.erase _, ?_, nofun, nofun, inv.cached, inv.uncached, nofun⟩
              exact fun other member => inv.early other ((mem_erase_iff inv).mp member).1
          | some value =>
              simp only [result, last, if_true] at stepped
              cases stepped
              obtain ⟨initialized, defined⟩ := settles last value result
              exact inv.last derivation initialized defined
        · cases result : derivable.derive outcome with
          | none =>
              simp only [result, last, if_false] at stepped
              cases stepped
              exact inv.ended under last
          | some value =>
              simp only [result, last, if_false] at stepped
              cases stepped
              exact (inv.ended under last).assign unresolved value

theorem initial_inv (initial : derivable.machine.Initial property) : Inv derivable property := by
  rw [show property = _ from initial]
  exact ⟨List.nodup_nil, nofun, fun _ => rfl, nofun, fun known => absurd rfl known, fun _ => rfl, nofun⟩

omit [DecidableEq Value] in
theorem Inv.converged (inv : Inv derivable property) : property.Converged := by
  rintro ⟨-, none_⟩
  cases latest : property.latest with
  | none => exact .inl rfl
  | running =>
      have under := inv.running latest
      rw [none_] at under
      cases under
  | resolved value => exact .inr (.inr ⟨value, rfl, inv.resolved value latest⟩)
  | rejected => exact .inr (.inl rfl)

/-- A property converges throughout every run in which no derivation outlasts the one that
was started last. -/
theorem converged_of_inOrder (derivable : Derivable Value) (start : Property Value)
    (events : List (PropertyEvent Value)) (initial : derivable.machine.Initial start)
    (inOrder : derivable.machine.Meets derivable.InOrder start events) :
    derivable.machine.Throughout Property.Converged start events :=
  (Machine.throughout_of_meets (Inv derivable) step_inv (initial_inv initial) inOrder).mono
    fun _ => Inv.converged

/-- A property of numbers. -/
def counter : Derivable Nat := ⟨0, 1, false, false⟩

def underived : Property Nat := ⟨false, false, 0, [], 0, 0, none, .none⟩

/-- Two changes, whose derivations end in the order they started. -/
theorem counter_converges : counter.machine.Throughout Property.Converged underived
    [.initialized, .change, .timerFires, .change, .timerFires, .deriveEnds 0 (.returned 5),
      .deriveEnds 1 (.returned 6)] := by
  refine converged_of_inOrder counter underived _ rfl ?_
  refine ⟨trivial, ?_⟩
  rintro _ ⟨⟩
  refine ⟨trivial, ?_⟩
  rintro _ ⟨⟩
  refine ⟨trivial, ?_⟩
  rintro _ ⟨⟩
  refine ⟨trivial, ?_⟩
  rintro _ ⟨⟩
  refine ⟨trivial, ?_⟩
  rintro _ ⟨⟩
  refine ⟨⟨nofun, nofun⟩, ?_⟩
  rintro _ ⟨⟩
  refine ⟨⟨nofun, ?_⟩, fun _ _ => trivial⟩
  rintro - _ ⟨⟩
  exact ⟨rfl, by decide⟩

/-- The first derivation ends last, and its value stays. -/
theorem not_always_converged : ¬ ∀ (derivable : Derivable Nat) (start : Property Nat)
    (events : List (PropertyEvent Nat)), derivable.machine.Initial start →
      derivable.machine.Throughout Property.Converged start events := by
  intro always
  obtain ⟨finish, ran, idle, latest, stale⟩ : ∃ finish, counter.machine.run underived
      [.initialized, .change, .timerFires, .change, .timerFires, .deriveEnds 1 (.returned 6),
        .deriveEnds 0 (.returned 5)] = some finish ∧ finish.Idle ∧
      finish.latest = .resolved 6 ∧ finish.value = 5 :=
    ⟨_, rfl, ⟨rfl, rfl⟩, rfl, rfl⟩
  rcases (always counter underived _ rfl).of_run ran idle with none_ | rejected | ⟨value, resolved, same, -⟩
  · cases latest.symm.trans none_
  · cases latest.symm.trans rejected
  · obtain rfl : 6 = value := Latest.resolved.inj (latest.symm.trans resolved)
    cases stale.symm.trans same

end Derivable

end Solpg.Client.Utils.Decorators
