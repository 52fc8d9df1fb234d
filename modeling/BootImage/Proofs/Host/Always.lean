import BootImage.Machine
import BootImage.Proofs.Machine.Perform

/-!
What holds of work on every host. An answer always has a property when the work can be done so that
a proof comes with each answer; nothing is assumed of what a host does, so reading, writing and
making files may fail at any time and in any way.

* `Always.bind`, `Ends.bind`: what holds of two pieces of work holds of one behind the other.
* `always_iff_run`: on a machine it is what holds of the answer from every state.
-/

namespace BootImage

variable {m : Type → Type} [Monad m] {α β ε δ : Type}

/-- Work whose answers all have a property: it is the answers of work that proves it of each. -/
def Always (property : α → Prop) (work : m α) : Prop :=
  ∃ proved : m { answer : α // property answer }, Subtype.val <$> proved = work

/-- Work that gives values of one sort, or stops for reasons of another. -/
def Ends (value : α → Prop) (reason : ε → Prop) (work : ExceptT ε m α) : Prop :=
  Always (fun
    | .ok found => value found
    | .error stop => reason stop) work.run

section Laws

variable [LawfulMonad m] {property : α → Prop} {other : β → Prop}

theorem Always.of_forall (holds : ∀ answer, property answer) (work : m α) :
    Always property work :=
  ⟨(fun answer => ⟨answer, holds answer⟩) <$> work, by simp⟩

theorem Always.pure {answer : α} (holds : property answer) :
    Always property (Pure.pure answer : m α) :=
  ⟨Pure.pure ⟨answer, holds⟩, by rw [map_pure]⟩

/-- What is done with an answer may rely on its property. -/
theorem Always.bind {work : m α} {next : α → m β} (first : Always property work)
    (rest : ∀ answer, property answer → Always other (next answer)) :
    Always other (work >>= next) := by
  obtain ⟨proved, rfl⟩ := first
  refine ⟨proved >>= fun answer => (rest answer.1 answer.2).choose, ?_⟩
  rw [map_bind, bind_map_left]
  exact bind_congr fun answer => (rest answer.1 answer.2).choose_spec

theorem Always.map {work : m α} {f : α → β} (first : Always property work)
    (holds : ∀ answer, property answer → other (f answer)) : Always other (f <$> work) := by
  rw [← bind_pure_comp]
  exact first.bind fun answer had => .pure (holds answer had)

end Laws

/-- On a machine, what always holds is what holds of the answer from every state. -/
theorem always_iff_run {property : α → Prop} {work : StateM Machine α} :
    Always property work ↔ ∀ machine, property (work.run machine).1 := by
  constructor
  · rintro ⟨proved, rfl⟩ machine
    exact (StateT.run proved machine).1.2
  · intro holds
    exact ⟨fun machine => (⟨(work.run machine).1, holds machine⟩, (work.run machine).2), rfl⟩

namespace Ends

section Laws

variable [LawfulMonad m] {value : α → Prop} {result : β → Prop} {reason : ε → Prop}
  {stop : δ → Prop}

theorem pure {found : α} (holds : value found) :
    Ends value reason (Pure.pure found : ExceptT ε m α) :=
  Always.pure holds

theorem throw {failure : ε} (holds : reason failure) :
    Ends value reason (MonadExcept.throw failure : ExceptT ε m α) :=
  Always.pure holds

/-- What is done with a value may rely on what holds of it. -/
theorem bind {work : ExceptT ε m α} {next : α → ExceptT ε m β} (first : Ends value reason work)
    (rest : ∀ found, value found → Ends result reason (next found)) :
    Ends result reason (work >>= next) := by
  refine Always.bind first ?_
  intro answer holds
  cases answer with
  | ok found => exact rest found holds
  | error failure => exact Always.pure holds

/-- Renaming the reasons to stop. -/
theorem adapt {work : ExceptT δ m α} {rename : δ → ε} (ends : Ends value stop work)
    (renamed : ∀ failure, stop failure → reason (rename failure)) :
    Ends value reason (work.adapt rename) := by
  refine Always.map ends ?_
  intro answer holds
  cases answer with
  | ok found => exact holds
  | error failure => exact renamed failure holds

/-- Work that gives any value, and stops for any reason. -/
theorem any (work : ExceptT ε m α) : Ends (fun _ => True) (fun _ => True) work :=
  Always.of_forall (fun answer => by cases answer <;> trivial) _

/-- Work that cannot stop. -/
theorem lift (work : m α) : Ends (fun _ => True) reason (ExceptT.lift work) := by
  refine Always.map (Always.of_forall (fun _ => trivial) work) ?_
  intro answer _
  trivial

end Laws

end Ends

end BootImage
