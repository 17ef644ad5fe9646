import Mathlib.Data.Nat.Init
import Mathlib.Data.Int.Init

/-!
# Counting loops with a computed bound

The bound of a loop is a rounded quotient, which is infinite where the divisor is zero, so
that the loop may never end. Its rules are about any invariant of an index and a state.
-/

namespace Solpg.Std

universe u

/-- A whole number or infinity. -/
inductive Count where
  | finite (value : Int)
  | infinite
  deriving DecidableEq, Repr

namespace Count

/-- `index < count` -/
def above : Count → Nat → Bool
  | finite value, index => index < value
  | infinite, _ => true

/-- `Math.floor(dividend / divisor)`, for a positive dividend. -/
def floorDiv (dividend divisor : Int) : Count :=
  if divisor = 0 then infinite else finite (dividend.fdiv divisor)

/-- `Math.ceil(dividend / divisor)`, for a positive dividend. -/
def ceilDiv (dividend : Int) : Count → Count
  | finite divisor => if divisor = 0 then infinite else finite (-(-dividend).fdiv divisor)
  | infinite => finite 0

/-- Rows of a positive size are as many as the items need. -/
theorem above_ceilDiv {size items : Nat} (positive : 0 < size) (rows : Nat) :
    (ceilDiv items (finite size)).above rows = true ↔ rows * size < items := by
  have nonzero : (size : Int) ≠ 0 := by omega
  rw [ceilDiv, if_neg nonzero, above, decide_eq_true_eq,
    Int.fdiv_eq_ediv_of_nonneg _ (Int.natCast_nonneg size), Int.lt_neg_iff,
    Int.ediv_lt_iff_lt_mul (by omega), Int.neg_mul, Int.neg_lt_neg_iff]
  norm_cast

/-- A divisor that is not positive leaves no turn to a loop. -/
theorem above_ceilDiv_floorDiv {dividend divisor : Int} (positive : 0 < dividend)
    (divides : divisor ≤ 0) (items index : Nat) :
    (ceilDiv items (floorDiv dividend divisor)).above index = false := by
  rw [floorDiv]
  by_cases none : divisor = 0
  · rw [if_pos none, ceilDiv, above, decide_eq_false_iff_not]
    omega
  · have below : dividend.fdiv divisor < 0 := by
      rw [← Int.neg_fdiv_neg]
      exact Int.fdiv_neg_of_neg_of_pos (by omega) (by omega)
    have rows : 0 ≤ (-(items : Int)).fdiv (dividend.fdiv divisor) :=
      Int.fdiv_nonneg_of_nonpos_of_nonpos (by omega) (by omega)
    rw [if_neg none, ceilDiv, if_neg (by omega), above, decide_eq_false_iff_not]
    omega

end Count

/-- What a program that may throw and may not end has come to: `none` is that it is not at
its end. -/
abbrev Looping (ε α : Type u) := ExceptT ε Option α

namespace Looping

variable {ε σ : Type u}

/-- The loop goes on with a value. -/
def ok (value : σ) : Looping ε σ := (some (.ok value) : Option (Except ε σ))

/-- `for (let index = start; index < count; ++index)`, for so many turns. -/
def forLoop (count : Count) (body : Nat → σ → Looping ε σ) : Nat → Nat → σ → Looping ε σ
  | 0, _, _ => (none : Option (Except ε σ))
  | fuel + 1, index, state =>
      if count.above index then do
        let next ← body index state
        forLoop count body fuel (index + 1) next
      else ok state

variable {count : Count} {body : Nat → σ → Looping ε σ} {fuel index : Nat} {state finish : σ}

/-- Loops that go on do so with equal values. -/
@[simp] theorem ok_inj {value other : σ} : (ok value : Looping ε σ) = ok other ↔ value = other := by
  constructor
  · intro same
    cases same
    rfl
  · rintro rfl
    rfl

/-- A sequence goes on when both of its parts do. -/
theorem bind_eq_ok {α β : Type u} {first : Looping ε α} {next : α → Looping ε β} {value : β} :
    first >>= next = ok value ↔ ∃ middle, first = ok middle ∧ next middle = ok value := by
  constructor
  · intro returns
    match first with
    | none => cases returns
    | some (.error _) => cases returns
    | some (.ok middle) => exact ⟨middle, rfl, returns⟩
  · rintro ⟨middle, rfl, rest⟩
    exact rest

/-- Where a loop returns, an invariant holds at an index that is not below the bound. -/
theorem forLoop_returns (Inv : Nat → σ → Prop)
    (preserves : ∀ {index state next}, Inv index state → count.above index = true →
      body index state = ok next → Inv (index + 1) next)
    (holds : Inv index state) (returns : forLoop count body fuel index state = ok finish) :
    ∃ last, Inv last finish ∧ count.above last = false := by
  induction fuel generalizing index state with
  | zero => cases returns
  | succ fuel ih =>
      rw [forLoop] at returns
      split at returns
      next goes =>
        obtain ⟨next, turned, rest⟩ := bind_eq_ok.mp returns
        exact ih (preserves holds goes turned) rest
      next ends =>
        cases returns
        exact ⟨index, holds, by simpa using ends⟩

/-- A loop without a turn leaves the state as it is. -/
theorem forLoop_none (ends : count.above index = false)
    (returns : forLoop count body fuel index state = ok finish) : finish = state := by
  cases fuel with
  | zero => cases returns
  | succ fuel =>
      rw [forLoop, if_neg (by simp [ends])] at returns
      exact (ok_inj.mp returns).symm

/-- A loop with a finite bound returns when each of its turns does. -/
theorem forLoop_ends (Inv : Nat → σ → Prop) {bound : Nat}
    (preserves : ∀ {index state next}, Inv index state → count.above index = true →
      body index state = ok next → Inv (index + 1) next)
    (turns : ∀ {index state}, Inv index state → count.above index = true →
      ∃ next, body index state = ok next)
    (bounded : ∀ index, count.above index = true → index < bound)
    (holds : Inv index state) (enough : bound - index < fuel) :
    ∃ finish, forLoop count body fuel index state = ok finish := by
  induction fuel generalizing index state with
  | zero => exact absurd enough (Nat.not_lt_zero _)
  | succ fuel ih =>
      rw [forLoop]
      split
      next goes =>
        obtain ⟨next, turned⟩ := turns holds goes
        have below := bounded index goes
        obtain ⟨finish, rest⟩ := ih (preserves holds goes turned) (by omega)
        exact ⟨finish, bind_eq_ok.mpr ⟨next, turned, rest⟩⟩
      next => exact ⟨state, rfl⟩

end Looping
end Solpg.Std
