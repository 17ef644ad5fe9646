import Solpg.Std.Calls
import Solpg.Std.FileSystem

/-!
# Calls performed on files

A tree of calls says what a program asks for, and a program over a tree of files says what
becomes of it. With the operation that each call stands for, the first turns into the second,
part by part.
-/

namespace Solpg.Std.Calls

open FileM

variable {Call Content ε ε' α β : Type} {Answer : Call → Type}

/-- The program with each of its calls performed on the files. -/
def perform (serve : (request : Call) → World Content → Answer request × World Content) :
    Calls Call Answer ε α → FileM Content ε α
  | .done result => fun world => (result, world)
  | .call request next => fun world =>
      (next (serve request world).1).perform serve (serve request world).2

variable {serve : (request : Call) → World Content → Answer request × World Content}
  {program : Calls Call Answer ε α} {next : α → Calls Call Answer ε β}

@[simp] theorem perform_pure (value : α) :
    (pure value : Calls Call Answer ε α).perform serve = pure value := rfl

@[simp] theorem perform_fail (error : ε) :
    (fail error : Calls Call Answer ε α).perform serve = FileM.fail error := rfl

/-- A sequence is performed part by part. -/
@[simp] theorem perform_bind : (program >>= next).perform serve =
    (program.perform serve >>= fun value => (next value).perform serve) := by
  funext world
  induction program generalizing world with
  | done result => cases result <;> rfl
  | call request rest ih => exact ih (serve request world).1 (serve request world).2

/-- Renaming errors changes nothing of what is performed. -/
@[simp] theorem perform_mapError {f : ε → ε'} :
    (program.mapError f).perform serve = (program.perform serve).mapError f := by
  funext world
  induction program generalizing world with
  | done result => cases result <;> rfl
  | call request rest ih => exact ih (serve request world).1 (serve request world).2

/-- Taking the result as a value changes nothing of what is performed. -/
@[simp] theorem perform_attempt :
    (program.attempt : Calls Call Answer ε' _).perform serve = (program.perform serve).attempt := by
  funext world
  induction program generalizing world with
  | done result => rfl
  | call request rest ih => exact ih (serve request world).1 (serve request world).2

/-- A loop is performed turn by turn. -/
theorem perform_forM (items : List α) (body : α → Calls Call Answer ε Unit) :
    (items.forM body).perform serve = items.forM fun item => (body item).perform serve := by
  induction items with
  | nil => rfl
  | cons item rest ih =>
      have first : ((item :: rest).forM body).perform serve =
          ((body item).perform serve >>= fun _ => (rest.forM body).perform serve) := perform_bind
      rw [first, ih]
      rfl

end Solpg.Std.Calls
