import Mathlib.Data.Fintype.EquivFin
import Mathlib.Data.Set.Finite.Basic
import Mathlib.Logic.Relation
import Mathlib.Order.RelClasses

/-!
# Recursion on demand

A function that asks for its own values at other arguments, unrolled to a depth. It settles at an
argument exactly when no chain of demands from there goes on for ever, and where finitely many
arguments are demanded in all, exactly when none of them leads back to itself.
-/

namespace Solpg.Std

variable {α β : Type} {body : (α → Option β) → α → Option β} {asks : α → α → Prop}
  {argument other : α} {value : β} {depth deeper : Nat}

/-- The function, as far as its calls are not nested deeper. -/
def unroll (body : (α → Option β) → α → Option β) : Nat → α → Option β
  | 0, _ => none
  | depth + 1, argument => body (unroll body depth) argument

/-- Some depth is enough. -/
def Settles (body : (α → Option β) → α → Option β) (argument : α) : Prop :=
  ∃ depth, (unroll body depth argument).isSome = true

/-- The second function has all values of the first one. -/
def Extends (known more : α → Option β) : Prop :=
  ∀ {argument value}, known argument = some value → more argument = some value

/-- More known values make no difference to the values of the body. -/
def KeepsValues (body : (α → Option β) → α → Option β) : Prop :=
  ∀ {known more : α → Option β}, Extends known more → Extends (body known) (body more)

/-- A greater depth finds what a smaller one does. -/
theorem unroll_extends (monotone : KeepsValues body) (bound : depth ≤ deeper) :
    Extends (unroll body depth) (unroll body deeper) := by
  induction depth generalizing deeper with
  | zero => exact fun same => by cases same
  | succ depth ih =>
      cases deeper with
      | zero => exact absurd bound (by omega)
      | succ deeper => exact monotone (ih (by omega))

/-- Which values the body asks for: it needs them all, and they are enough. -/
structure Demands (body : (α → Option β) → α → Option β) (asks : α → α → Prop) : Prop where
  needed : ∀ {depth argument other}, (unroll body (depth + 1) argument).isSome = true →
    asks argument other → (unroll body depth other).isSome = true
  enough : ∀ {argument}, (∀ other, asks argument other → Settles body other) →
    Settles body argument

/-- A recursion settles when what it asks for ends. -/
theorem Demands.settles_iff_acc (demands : Demands body asks) :
    Settles body argument ↔ Acc (fun other argument => asks argument other) argument := by
  constructor
  · rintro ⟨depth, settled⟩
    induction depth generalizing argument with
    | zero => cases settled
    | succ depth ih => exact ⟨_, fun other asked => ih (demands.needed settled asked)⟩
  · intro acc
    induction acc with
    | intro argument _ ih => exact demands.enough ih

/-- The demands of an argument lead back to one of them. -/
def Cyclic (asks : α → α → Prop) (argument : α) : Prop :=
  ∃ other, Relation.ReflTransGen asks argument other ∧ Relation.TransGen asks other other

/-- What ends has no cycle. -/
theorem not_cyclic_of_acc (acc : Acc (fun other argument => asks argument other) argument) :
    ¬ Cyclic asks argument := by
  rintro ⟨other, reached, back⟩
  have there : Acc (fun other argument => asks argument other) other := by
    clear back
    induction reached with
    | refl => exact acc
    | tail _ asked ih => exact ih.inv asked
  have irreflexive : ∀ {other}, Acc (Relation.TransGen fun other argument => asks argument other) other →
      ¬ Relation.TransGen (fun other argument => asks argument other) other other := by
    intro other acc
    induction acc with
    | intro other _ ih => exact fun loop => ih other loop loop
  exact irreflexive there.transGen (Relation.transGen_swap.mpr back)

/-- A finite part without a cycle ends. -/
theorem acc_of_not_cyclic (finite : {other | Relation.ReflTransGen asks argument other}.Finite)
    (acyclic : ¬ Cyclic asks argument) : Acc (fun other argument => asks argument other) argument := by
  let Reached := {other // Relation.ReflTransGen asks argument other}
  have : Finite Reached := finite
  let below (first second : Reached) : Prop := Relation.TransGen asks second.1 first.1
  have trans : IsTrans Reached below := ⟨fun _ _ _ first second => second.trans first⟩
  have irreflexive : Std.Irrefl below := ⟨fun other loop => acyclic ⟨other.1, other.2, loop⟩⟩
  have wellFounded : WellFounded below := Finite.wellFounded_of_trans_of_irrefl below
  have all : ∀ other : Reached, Acc (fun other argument => asks argument other) other.1 := by
    intro other
    induction other using wellFounded.induction with
    | _ other ih =>
        exact ⟨_, fun next asked => ih ⟨next, other.2.tail asked⟩ (.single asked)⟩
  exact all ⟨argument, .refl⟩

/-- The function settles exactly where no demand leads back to itself. -/
theorem Demands.settles_iff (demands : Demands body asks)
    (finite : {other | Relation.ReflTransGen asks argument other}.Finite) :
    Settles body argument ↔ ¬ Cyclic asks argument :=
  demands.settles_iff_acc.trans ⟨not_cyclic_of_acc, acc_of_not_cyclic finite⟩

end Solpg.Std
