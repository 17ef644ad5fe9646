import Mathlib.Data.List.Forall2

/-!
# Specifications of fallible functions

`Ensures x onOk onError` says what holds of the value of `x` if it succeeds and
of its error if it fails. The rules follow the do-block of a function, so a
specification is walked statement by statement.
-/

namespace Solpg.Std.Outcome

universe u v w

variable {ε : Type u} {α β : Type v}

/-- Fail unless the condition holds. -/
def require (condition : Prop) [Decidable condition] (error : ε) : Except ε Unit :=
  if condition then .ok () else .error error

/-- A value meets the one condition, an error the other. -/
def Ensures {α : Type w} (x : Except ε α) (onOk : α → Prop) (onError : ε → Prop) : Prop :=
  match x with
  | .ok value => onOk value
  | .error error => onError error

variable {x : Except ε α} {onOk : α → Prop} {onError : ε → Prop}

/-- A value ensures what holds of it. -/
theorem Ensures.ok {value : α} (holds : onOk value) : Ensures (.ok value) onOk onError := holds

/-- A returned value ensures what holds of it. -/
theorem Ensures.pure {value : α} (holds : onOk value) :
    Ensures (pure value : Except ε α) onOk onError := holds

/-- An error ensures what holds of it. -/
theorem Ensures.error {error : ε} (holds : onError error) :
    Ensures (.error error : Except ε α) onOk onError := holds

/-- A sequence ensures what its second part does after every value of the first. -/
theorem Ensures.bind {next : α → Except ε β} {middle : α → Prop} {onOk : β → Prop}
    (first : Ensures x middle onError)
    (rest : ∀ value, middle value → Ensures (next value) onOk onError) :
    Ensures (x >>= next) onOk onError := by
  cases x with
  | ok value => exact rest value first
  | error error => exact first

/-- What is ensured of the value may be weakened. -/
theorem Ensures.mono {weaker : α → Prop} (ensures : Ensures x onOk onError)
    (weakens : ∀ value, onOk value → weaker value) : Ensures x weaker onError := by
  cases x with
  | ok value => exact weakens value ensures
  | error error => exact ensures

/-- Behind a check its condition holds. -/
theorem Ensures.require {condition : Prop} [Decidable condition] {error : ε}
    (fails : ¬ condition → onError error) :
    Ensures (require condition error) (fun _ => condition) onError := by
  by_cases holds : condition
  · simp [Outcome.require, Ensures, holds]
  · simp [Outcome.require, Ensures, holds, fails]

/-- An error of another kind becomes one that is permitted. -/
theorem Ensures.mapError {δ : Type w} {y : Except δ α} {f : δ → ε}
    (permitted : ∀ error, onError (f error)) :
    Ensures (y.mapError f) (fun value => y = .ok value) onError := by
  cases y with
  | ok value => exact .ok rfl
  | error error => exact .error (permitted error)

/-- The errors of a specified function, renamed. -/
theorem Ensures.rename {δ : Type w} {y : Except δ α} {f : δ → ε} {before : δ → Prop}
    (ensures : Ensures y onOk before) (renames : ∀ error, before error → onError (f error)) :
    Ensures (y.mapError f) onOk onError := by
  cases y with
  | ok value => exact .ok ensures
  | error error => exact .error (renames error ensures)

/-- A step of which nothing is used. -/
theorem Ensures.any (x : Except ε α) : Ensures x (fun _ => True) fun _ => True := by
  cases x with
  | ok value => exact trivial
  | error error => exact trivial

/-- Its errors do not matter any more. -/
theorem Ensures.anyError (ensures : Ensures x onOk onError) : Ensures x onOk fun _ => True := by
  cases x with
  | ok value => exact ensures
  | error error => exact trivial

/-- What the successful runs of a specified function satisfy. -/
theorem Ensures.of_ok {value : α} (ensures : Ensures x onOk onError) (succeeded : x = .ok value) :
    onOk value := by
  subst succeeded
  exact ensures

/-- What the failed runs of a specified function satisfy. -/
theorem Ensures.of_error {error : ε} (ensures : Ensures x onOk onError)
    (failed : x = .error error) : onError error := by
  subst failed
  exact ensures

/-- Each branch ensures the condition where it is taken. -/
theorem Ensures.split {condition : Prop} [Decidable condition] {y : Except ε α}
    (holds : condition → Ensures x onOk onError)
    (fails : ¬ condition → Ensures y onOk onError) :
    Ensures (if condition then x else y) onOk onError := by
  by_cases decided : condition
  · rw [if_pos decided]
    exact holds decided
  · rw [if_neg decided]
    exact fails decided

/-- A check passes when its condition holds. -/
theorem require_eq_ok {condition : Prop} [Decidable condition] {error : ε} :
    require condition error = .ok () ↔ condition := by
  by_cases holds : condition <;> simp [require, holds]

/-- A check before the rest of a function. -/
theorem bind_eq_ok {ε : Type u} {α : Type} {first : Except ε Unit} {next : Except ε α} {value : α} :
    (first >>= fun _ => next) = .ok value ↔ first = .ok () ∧ next = .ok value := by
  cases first with
  | error error => simp [Bind.bind, Except.bind]
  | ok _ => simp [Bind.bind, Except.bind]

/-- Behind a value the rest goes on. -/
theorem ok_bind {ε : Type u} {α β : Type v} (value : α) (next : α → Except ε β) :
    (Except.ok value >>= next) = next value := rfl

/-- A sequence succeeds when both of its parts do. -/
theorem bind_ok_iff {ε : Type u} {α β : Type v} {first : Except ε α} {next : α → Except ε β}
    {result : β} :
    (first >>= next) = .ok result ↔ ∃ value, first = .ok value ∧ next value = .ok result := by
  cases first with
  | error error => simp [Bind.bind, Except.bind]
  | ok value => simp [Bind.bind, Except.bind]

/-! ## Lists -/

section

variable {α : Type w} {β ε : Type u} {f : α → Except ε β} {items : List α}

/-- A loop succeeds with the results of its items. -/
theorem mapM_eq_ok_iff {results : List β} : items.mapM f = .ok results ↔
    List.Forall₂ (fun item result => f item = .ok result) items results := by
  induction items generalizing results with
  | nil =>
      constructor
      · intro all
        cases all
        exact .nil
      · intro all
        cases all
        rfl
  | cons item rest ih =>
      rw [List.mapM_cons, List.forall₂_cons_left_iff]
      constructor
      · intro all
        cases first : f item with
        | error error =>
            rw [first] at all
            cases all
        | ok value =>
            cases later : rest.mapM f with
            | error error =>
                rw [first, later] at all
                cases all
            | ok values =>
                rw [first, later] at all
                cases all
                exact ⟨value, values, rfl, ih.mp later, rfl⟩
      · rintro ⟨value, values, first, later, rfl⟩
        rw [first, ih.mpr later]
        rfl

/-- The results of a function that succeeds on all of them. -/
theorem mapM_ok {g : α → β} (known : ∀ item ∈ items, f item = .ok (g item)) :
    items.mapM f = .ok (items.map g) := by
  rw [mapM_eq_ok_iff, List.forall₂_map_right_iff, List.forall₂_same]
  exact known

/-- A loop succeeds when its body does for every item. -/
theorem exists_mapM_ok : (∃ results, items.mapM f = .ok results) ↔
    ∀ item ∈ items, ∃ result, f item = .ok result := by
  simp only [mapM_eq_ok_iff]
  induction items with
  | nil => exact ⟨fun _ => nofun, fun _ => ⟨[], .nil⟩⟩
  | cons item rest ih =>
      rw [List.forall_mem_cons, ← ih]
      constructor
      · rintro ⟨results, all⟩
        obtain ⟨value, values, first, later, rfl⟩ := List.forall₂_cons_left_iff.mp all
        exact ⟨⟨value, first⟩, values, later⟩
      · rintro ⟨⟨value, first⟩, values, later⟩
        exact ⟨value :: values, .cons first later⟩

/-- What an item has become is among the results. -/
theorem exists_of_mapM_ok {results : List β} {item : α} (all : items.mapM f = .ok results)
    (among : item ∈ items) : ∃ result ∈ results, f item = .ok result := by
  induction mapM_eq_ok_iff.mp all with
  | nil => cases among
  | cons first _ ih =>
      rcases List.mem_cons.mp among with rfl | among
      · exact ⟨_, List.mem_cons_self, first⟩
      · obtain ⟨result, member, same⟩ := ih (mapM_eq_ok_iff.mpr ‹_›) among
        exact ⟨result, List.mem_cons_of_mem _ member, same⟩

/-- A result comes from one of the items. -/
theorem exists_of_mem_results {results : List β} {result : β} (all : items.mapM f = .ok results)
    (among : result ∈ results) : ∃ item ∈ items, f item = .ok result := by
  induction mapM_eq_ok_iff.mp all with
  | nil => cases among
  | cons first _ ih =>
      rcases List.mem_cons.mp among with rfl | among
      · exact ⟨_, List.mem_cons_self, first⟩
      · obtain ⟨item, member, same⟩ := ih (mapM_eq_ok_iff.mpr ‹_›) among
        exact ⟨item, List.mem_cons_of_mem _ member, same⟩

/-- A loop depends on its body for the items only. -/
theorem mapM_congr {m : Type u → Type v} [Monad m] [LawfulMonad m] {f g : α → m β}
    (same : ∀ item ∈ items, f item = g item) : items.mapM f = items.mapM g := by
  induction items with
  | nil =>
      rw [List.mapM_nil, List.mapM_nil]
  | cons item rest ih =>
      rw [List.mapM_cons, List.mapM_cons, same item List.mem_cons_self,
        ih fun other member => same other (List.mem_cons_of_mem _ member)]

/-- A fold over what the items become, one item at a time. -/
theorem foldlM_map_eq {γ : Type u} {gather : γ → β → γ} (gathered : γ) :
    items.foldlM (fun gathered item => (f item).map (gather gathered)) gathered =
      (items.mapM f).map fun values => values.foldl gather gathered := by
  induction items generalizing gathered with
  | nil => rfl
  | cons item rest ih =>
      rw [List.foldlM_cons, List.mapM_cons]
      cases f item with
      | error error => rfl
      | ok value =>
          refine (ih (gather gathered value)).trans ?_
          cases rest.mapM f <;> rfl

/-! Whether all of them succeed, without the errors. -/

/-- The value of a sequence is that of its second part after the value of the first. -/
theorem toOption_bind {α β : Type u} {ε : Type v} (first : Except ε α) (next : α → Except ε β) :
    (first >>= next).toOption = first.toOption.bind fun value => (next value).toOption := by
  cases first <;> rfl

/-- A fold has the values of a fold whose steps have the same values. -/
theorem toOption_foldlM {ε : Type v} {γ : Type u} {step : γ → α → Except ε γ} {other : γ → α → Option γ}
    (same : ∀ item ∈ items, ∀ gathered, (step gathered item).toOption = other gathered item)
    (gathered : γ) : (items.foldlM step gathered).toOption = items.foldlM other gathered := by
  induction items generalizing gathered with
  | nil => rfl
  | cons item rest ih =>
      obtain ⟨here, later⟩ := List.forall_mem_cons.mp same
      rw [List.foldlM_cons, List.foldlM_cons, toOption_bind, here]
      exact Option.bind_congr fun next _ => ih later next

/-- A step that fails whatever was gathered makes all of it fail. -/
theorem toOption_foldlM_eq_none {ε : Type v} {γ : Type u} {step : γ → α → Except ε γ} {item : α}
    (among : item ∈ items) (fails : ∀ gathered, (step gathered item).toOption = none) (gathered : γ) :
    (items.foldlM step gathered).toOption = none := by
  induction items generalizing gathered with
  | nil => cases among
  | cons first rest ih =>
      rw [List.foldlM_cons, toOption_bind]
      rcases List.mem_cons.mp among with rfl | among
      · rw [fails]
        rfl
      · cases (step gathered first).toOption with
        | none => rfl
        | some next => exact ih among next

/-- A fold ends when each of its steps does. -/
theorem foldlM_isSome {γ : Type u} {step : γ → α → Option γ}
    (each : ∀ item ∈ items, ∀ gathered, (step gathered item).isSome = true) (gathered : γ) :
    (items.foldlM step gathered).isSome = true := by
  induction items generalizing gathered with
  | nil => rfl
  | cons first rest ih =>
      obtain ⟨here, later⟩ := List.forall_mem_cons.mp each
      obtain ⟨next, stepped⟩ := Option.isSome_iff_exists.mp (here gathered)
      rw [List.foldlM_cons, stepped]
      exact ih later next

/-- The values of a loop are those of its body. -/
theorem toOption_mapM : (items.mapM f).toOption = items.mapM fun item => (f item).toOption := by
  induction items with
  | nil => rfl
  | cons item rest ih =>
      rw [List.mapM_cons, List.mapM_cons, ← ih]
      cases f item with
      | error error => rfl
      | ok value => cases rest.mapM f <;> rfl

/-- Two loops, the one over the results of the other, are one loop. -/
theorem mapM_option_bind {α : Type w} {β γ : Type u} (f : α → Option β) (g : β → Option γ)
    (items : List α) :
    ((items.mapM f).bind fun values => values.mapM g) = items.mapM fun item => (f item).bind g := by
  induction items with
  | nil => rfl
  | cons item rest ih =>
      rw [List.mapM_cons, List.mapM_cons, ← ih]
      cases f item with
      | none => rfl
      | some value =>
          cases rest.mapM f with
          | none => cases first : g value <;> simp [first]
          | some values => simp

end

end Solpg.Std.Outcome
