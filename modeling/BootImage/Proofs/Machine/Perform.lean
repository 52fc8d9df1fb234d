import BootImage.Copy
import BootImage.Machine

/-!
Work on a machine. `Machine.perform` runs work and gives its answer together with the machine
behind it; the lemmas say what each way of putting work together comes to, so that no proof has to
look into the monad.
-/

namespace BootImage.Machine

variable {ε δ α β : Type}

/-- What work comes to on a machine: the answer, and the machine behind it. -/
def perform (machine : Machine) (work : ExceptT ε (StateM Machine) α) : Except ε α × Machine :=
  work.run.run machine

@[simp] theorem perform_pure (machine : Machine) (value : α) :
    machine.perform (pure value : ExceptT ε (StateM Machine) α) = (.ok value, machine) := rfl

@[simp] theorem perform_throw (machine : Machine) (reason : ε) :
    machine.perform (throw reason : ExceptT ε (StateM Machine) α) = (.error reason, machine) := rfl

/-- Work goes on where the first part succeeds. -/
theorem perform_bind_ok {machine after : Machine} {work : ExceptT ε (StateM Machine) α} {value : α}
    (first : machine.perform work = (.ok value, after)) (next : α → ExceptT ε (StateM Machine) β) :
    machine.perform (work >>= next) = after.perform (next value) := by
  have step : machine.perform (work >>= next) =
      (ExceptT.bindCont next (machine.perform work).1).run (machine.perform work).2 := rfl
  rw [step, first]
  rfl

/-- Work ends where the first part fails. -/
theorem perform_bind_error {machine after : Machine} {work : ExceptT ε (StateM Machine) α}
    {reason : ε} (first : machine.perform work = (.error reason, after))
    (next : α → ExceptT ε (StateM Machine) β) :
    machine.perform (work >>= next) = (.error reason, after) := by
  have step : machine.perform (work >>= next) =
      (ExceptT.bindCont next (machine.perform work).1).run (machine.perform work).2 := rfl
  rw [step, first]
  rfl

/-- What succeeds in two parts succeeds in each of them. -/
theorem perform_bind_eq_ok {machine after : Machine} {work : ExceptT ε (StateM Machine) α}
    {next : α → ExceptT ε (StateM Machine) β} {value : β}
    (done : machine.perform (work >>= next) = (.ok value, after)) :
    ∃ first between, machine.perform work = (.ok first, between) ∧
      between.perform (next first) = (.ok value, after) := by
  rcases begun : machine.perform work with ⟨answer, between⟩
  cases answer with
  | error reason =>
      rw [perform_bind_error begun] at done
      cases done
  | ok first =>
      rw [perform_bind_ok begun] at done
      exact ⟨first, between, rfl, done⟩

theorem perform_bind_pure (machine : Machine) (work : ExceptT ε (StateM Machine) α) (f : α → β) :
    machine.perform (work >>= fun value => pure (f value)) =
      ((machine.perform work).1.map f, (machine.perform work).2) := by
  rcases done : machine.perform work with ⟨answer, after⟩
  cases answer with
  | error reason => exact perform_bind_error done _
  | ok value => exact perform_bind_ok done _

/-- Renaming failures changes the answer and nothing else. -/
@[simp] theorem perform_adapt (machine : Machine) (work : ExceptT ε (StateM Machine) α)
    (rename : ε → δ) :
    machine.perform (work.adapt rename) =
      ((machine.perform work).1.mapError rename, (machine.perform work).2) := by
  rfl

theorem perform_adapt_eq {machine after : Machine} {work : ExceptT ε (StateM Machine) α}
    {answer : Except ε α} (done : machine.perform work = (answer, after)) (rename : ε → δ) :
    machine.perform (work.adapt rename) = (answer.mapError rename, after) := by
  rw [perform_adapt, done]

theorem perform_attempt_eq {machine after : Machine}
    {operation : ExceptT Failure (StateM Machine) α} {answer : Except Failure α}
    (done : machine.perform operation = (answer, after)) (activity : Activity) :
    machine.perform (attempt activity operation) =
      (answer.mapError fun failure => .error (.failed activity failure), after) :=
  perform_adapt_eq done _

end BootImage.Machine
