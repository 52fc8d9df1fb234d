import BootImage.Proofs.Program.Source

/-!
Runs that write nothing. A source is opened and its header accepted before anything is made, and
with `--info` nothing is made at all, so such a run leaves every place of the file tree as it was:
no file is emptied, and the target directory is not made either.

* `Program.perform_run_of_refused`: a source without a header ends the run, with the reason.
* `Program.execute_keeps_files`: no file and no directory is made or changed.
-/

namespace BootImage.Program

open CommandLine (Invocation)

variable {arguments : List Bytes} {invocation : Invocation} {reason : RunError}

/-- There is no image to work on: the source cannot be opened, or it cannot be read, or what stands
at its start is not accepted as a header. -/
inductive Refused (files : FileTree) (source : Path) : RunError → Prop where
  | unopened {failure : Failure} : files.openToRead source = .error failure →
      Refused files source (.openSource source failure)
  | headless {place : Location} {cause : Error} : files.openToRead source = .ok place →
      (files.contentAt place).header = .error cause →
        Refused files source (.readHeader source cause)

/-- The run ends where the source is refused, before anything is made. -/
theorem perform_run_of_refused {machine : Machine}
    (refused : Refused machine.files invocation.source reason) :
    ∃ after, machine.perform (run invocation) = (.error (.error reason), after) ∧
      after.files = machine.files := by
  cases refused with
  | @unopened failure missing =>
      have step : machine.perform (.mk (Host.openSource invocation.source)) =
          (.error failure, machine) := by
        change machine.openSource invocation.source = _
        rw [Machine.openSource, missing]
      exact ⟨machine, Machine.perform_bind_error (Machine.perform_adapt_eq step _) _, rfl⟩
  | @headless place cause opens none =>
      have step : machine.perform (.mk (Host.openSource invocation.source)) =
          (.ok (), opened machine place) := openSource_eq opens
      have answer : ((opened machine place).perform Image.accept).1 = .error (.error cause) := by
        rw [Image.answer_accept rfl rfl, show (opened machine place).content.header = _ from none]
        rfl
      have files := (Machine.harmless_accept (opened machine place)).files
      rcases looked : (opened machine place).perform Image.accept with ⟨given, ready⟩
      rw [looked] at answer files
      cases answer
      refine ⟨ready, ?_, files⟩
      rw [run, Machine.perform_bind_ok (Machine.perform_adapt_eq step _),
        Machine.perform_bind_error (Machine.perform_adapt_eq looked _)]
      rfl

/-- With `--info` there is only something to be printed. -/
theorem files_run_of_info (info : invocation.info = true) (machine : Machine) :
    (machine.perform (run invocation)).2.files = machine.files := by
  cases opens : machine.files.openToRead invocation.source with
  | error failure =>
      obtain ⟨after, ran, files⟩ := perform_run_of_refused (.unopened opens)
      rw [ran]
      exact files
  | ok place =>
      rw [files_run opens]
      cases ((opened machine place).perform Image.accept).1 with
      | error reason => rfl
      | ok image => exact if_pos info

/-- The exit code is the one of the run. -/
theorem exitCode_execute (parsed : CommandLine.parse arguments = .ok invocation)
    (machine : Machine) :
    (execute arguments machine).exitCode = exitCode (machine.perform (run invocation)).1 := by
  rw [execute, parsed]
  rfl

/-- **Nothing is written before the header is accepted.** Whatever else is asked for, a run that is
to print, or whose source cannot be opened or read or has no acceptable header, leaves the whole
file tree as it was, also without a target directory; and without a header the run fails. -/
theorem execute_keeps_files (parsed : CommandLine.parse arguments = .ok invocation)
    (machine : Machine) :
    ((invocation.info = true ∨ ∃ reason, Refused machine.files invocation.source reason) →
      (execute arguments machine).machine.files = machine.files) ∧
    ∀ reason, Refused machine.files invocation.source reason →
      (execute arguments machine).exitCode = 1 := by
  constructor
  · rw [machine_execute parsed]
    rintro (info | ⟨reason, refused⟩)
    · exact files_run_of_info info machine
    · obtain ⟨after, ran, files⟩ := perform_run_of_refused refused
      rw [ran]
      exact files
  · intro reason refused
    obtain ⟨after, ran, -⟩ := perform_run_of_refused refused
    rw [exitCode_execute parsed, ran]
    rfl

/-- A target directory that would have to be made is not made: not for printing, and not for the
working directory as a source, which can be opened but not read. -/
theorem execute_makes_no_directory :
    let name := Utf8.encode "boot.img"
    let elsewhere := [Utf8.encode "--dest-dir", Utf8.encode "out/deep"]
    let printing := [Utf8.encode "--src", name, Utf8.encode "--info"] ++ elsewhere
    let unpacking := [Utf8.encode "--src", Path.dot] ++ elsewhere
    (execute printing (besides name)).machine.files = (besides name).files ∧
      (execute unpacking (besides name)).machine.files = (besides name).files ∧
      (execute unpacking (besides name)).exitCode = 1 := by
  intro name elsewhere printing unpacking
  let target := some (Utf8.encode "out/deep")
  have asked : CommandLine.parse printing =
      .ok ⟨name, target, false, true, false, .info, Plan.standard⟩ := by decide +kernel
  have ordered : CommandLine.parse unpacking =
      .ok ⟨Path.dot, target, false, false, false, .info, Plan.standard⟩ := by decide +kernel
  have opens : (besides name).files.openToRead Path.dot = .ok [] := rfl
  have refused : Refused (besides name).files Path.dot
      (.readHeader Path.dot (.failed .readHeader .isADirectory)) := .headless opens rfl
  have printed := execute_keeps_files asked (besides name)
  have unpacked := execute_keeps_files ordered (besides name)
  exact ⟨printed.1 (.inl rfl), unpacked.1 (.inr ⟨_, refused⟩), unpacked.2 _ refused⟩

end BootImage.Program
