import Mathlib.Data.List.Forall2

/-!
# Functions that draw random numbers

A function that draws random numbers is the tree of its draws: each one is below a bound that the
function gives, and what comes next depends on it. `Gives` says which results can come out.
-/

namespace Solpg.Std

universe u v

/-- A function that draws, and that can fail. -/
inductive Random (ε : Type) (α : Type u) where
  | pure (value : α)
  | throw (error : ε)
  | pick (bound : Nat) (next : Nat → Random ε α)

namespace Random

variable {ε : Type} {α : Type u} {β : Type v}

/-- Draw for the first part, and go on with its value. -/
def bind (draws : Random ε α) (next : α → Random ε β) : Random ε β :=
  match draws with
  | .pure value => next value
  | .throw error => .throw error
  | .pick bound rest => .pick bound fun draw => (rest draw).bind next

/-- What a function makes of the value. -/
def map (f : α → β) (draws : Random ε α) : Random ε β := draws.bind fun value => .pure (f value)

/-- A number between zero and the bound, which it can be. -/
def upTo (bound : Nat) : Random ε Nat := .pick bound .pure

/-- One after the other. -/
def collect : List (Random ε α) → Random ε (List α)
  | [] => .pure []
  | first :: rest => first.bind fun value => (collect rest).map (value :: ·)

/-- What does not draw. -/
def ofExcept : Except ε α → Random ε α
  | .ok value => .pure value
  | .error error => .throw error

/-- The result can come out. -/
def Gives : Random ε α → Except ε α → Prop
  | .pure value, result => result = .ok value
  | .throw error, result => result = .error error
  | .pick bound next, result => ∃ draw ≤ bound, (next draw).Gives result

variable {draws : Random ε α} {next : α → Random ε β} {value : α} {result : Except ε β}

@[simp] theorem gives_pure {result : Except ε α} :
    (pure value : Random ε α).Gives result ↔ result = .ok value := Iff.rfl

@[simp] theorem gives_throw {error : ε} {result : Except ε α} :
    (throw error : Random ε α).Gives result ↔ result = .error error := Iff.rfl

/-- A sequence gives what its second part gives, or the error of its first. -/
theorem gives_bind : (draws.bind next).Gives result ↔
    (∃ value, draws.Gives (.ok value) ∧ (next value).Gives result) ∨
      ∃ error, draws.Gives (.error error) ∧ result = .error error := by
  induction draws with
  | pure value => simp [bind]
  | throw error => simp [bind]
  | pick bound rest ih =>
      simp only [bind, Gives, ih]
      constructor
      · rintro ⟨draw, within, ⟨value, gives, after⟩ | ⟨error, gives, fails⟩⟩
        · exact .inl ⟨value, ⟨draw, within, gives⟩, after⟩
        · exact .inr ⟨error, ⟨draw, within, gives⟩, fails⟩
      · rintro (⟨value, ⟨draw, within, gives⟩, after⟩ | ⟨error, ⟨draw, within, gives⟩, fails⟩)
        · exact ⟨draw, within, .inl ⟨value, gives, after⟩⟩
        · exact ⟨draw, within, .inr ⟨error, gives, fails⟩⟩

/-- The value of a sequence comes from a value of its first part. -/
theorem gives_bind_ok {value : β} : (draws.bind next).Gives (.ok value) ↔
    ∃ first, draws.Gives (.ok first) ∧ (next first).Gives (.ok value) := by
  rw [gives_bind]
  simp

/-- The values of a map are what the function makes of the values. -/
theorem gives_map_ok {f : α → β} {value : β} : (draws.map f).Gives (.ok value) ↔
    ∃ first, draws.Gives (.ok first) ∧ value = f first := by
  simp [map, gives_bind_ok]

@[simp] theorem gives_upTo {bound draw : Nat} :
    (upTo bound : Random ε Nat).Gives (.ok draw) ↔ draw ≤ bound := by
  simp [upTo, Gives]

end Random

end Solpg.Std
