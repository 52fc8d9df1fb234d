import BootImage.Proofs.Print.Terminated
import BootImage.Proofs.Shell.Quoting

/-!
Parameters in print, as one line for a shell. Flags need no quotes, and every value without a NUL
can be quoted so that a shell reads it back; so the line is one command that has every flag and
every value as a word of its own, with all the bytes that the value holds.

* `Parameter.exists_shellLine`: any parameters without a NUL, with flags that need no quotes.
* `Program.print_shellLine`: what the program puts out.
-/

namespace BootImage

namespace Parameter

/-- A flag that needs no quotes. -/
def Plain (parameter : Parameter) : Prop :=
  Shell.Bare (Utf8.encode parameter.flag) ∧ Utf8.encode parameter.flag ≠ []

/-- A flag stands for itself, and the quoted value for the value. -/
theorem exists_quoted {parameter : Parameter} (plain : parameter.Plain)
    (free : 0 ∉ parameter.value) :
    ∃ written, quoted parameter = .ok written ∧
      List.Forall₂ Shell.Spells written [Utf8.encode parameter.flag, parameter.value] := by
  obtain ⟨bare, nonempty⟩ := plain
  obtain ⟨value, quotes⟩ := Shell.exists_quote free
  refine ⟨[Utf8.encode parameter.flag, value], ?_, ?_⟩
  · simp [quoted, quotes]
  · exact .cons (Shell.spells_bare bare nonempty) (.cons (Shell.spells_quote quotes) .nil)

/-- Parameter by parameter, the words that are written spell flags and values. -/
theorem exists_mapM_quoted {parameters : List Parameter}
    (plain : ∀ parameter ∈ parameters, parameter.Plain)
    (free : ∀ parameter ∈ parameters, 0 ∉ parameter.value) :
    ∃ written, parameters.mapM quoted = .ok written ∧
      List.Forall₂ Shell.Spells written.flatten (words parameters) := by
  induction parameters with
  | nil => exact ⟨[], rfl, .nil⟩
  | cons parameter rest ih =>
      obtain ⟨first, later⟩ := List.forall_mem_cons.mp plain
      obtain ⟨free, freeLater⟩ := List.forall_mem_cons.mp free
      obtain ⟨written, quoted, spelled⟩ := exists_quoted first free
      obtain ⟨others, mapped, spelledLater⟩ := ih later freeLater
      refine ⟨written :: others, ?_, ?_⟩
      · rw [List.mapM_cons, quoted, mapped]
        rfl
      · exact List.rel_append spelled spelledLater

/-- Parameters whose values hold no NUL make a line that a shell reads as one command. -/
theorem exists_shellLine {parameters : List Parameter} (nonempty : parameters ≠ [])
    (plain : ∀ parameter ∈ parameters, parameter.Plain)
    (free : ∀ parameter ∈ parameters, 0 ∉ parameter.value) :
    ∃ text, shellLine parameters = .ok text ∧ Shell.commands? text = some [words parameters] := by
  obtain ⟨written, mapped, spelled⟩ := exists_mapM_quoted plain free
  refine ⟨[0x20].intercalate written.flatten ++ [0x0A], ?_, ?_⟩
  · rw [shellLine, mapped]
    rfl
  · exact Shell.commands?_line spelled (words_ne_nil nonempty)

/-- All flags that are passed are plain. -/
theorem plain_parameters (header : Header) (names : FileNames) :
    ∀ parameter ∈ parameters header names, parameter.Plain := by
  have known : (parameters header names).map flag ⊆ quotedFlags ++ numberFlags := by
    rw [parameters]
    cases header.hasSecond <;> simp [ofText, quotedFlags, numberFlags]
  have flags : ∀ flag ∈ quotedFlags ++ numberFlags,
      Shell.Bare (Utf8.encode flag) ∧ Utf8.encode flag ≠ [] := by decide +kernel
  intro parameter member
  exact flags _ (known (List.mem_map_of_mem member))

end Parameter

namespace Program

open CommandLine (Invocation)

/-- **A shell reads the printed line back.** Asked for a line, the program never fails to quote a
value, whatever the header holds, and puts out a text that a shell reads as exactly one command: the
flags and values of the parameters, in their order. Quotes, `$`, backslashes, newlines, blanks, bytes
that are no text and nothing at all are kept in the values. -/
theorem print_shellLine {invocation : Invocation} (format : invocation.format = .mkbootimg)
    (null : invocation.null = false)
    (paths : ∀ path ∈ [invocation.plan.names.kernel, invocation.plan.names.ramdisk,
      invocation.plan.names.second, invocation.plan.names.output], 0 ∉ path)
    (image : Image) (machine : Machine) :
    ∃ text, machine.perform (printResult (infoText invocation image)) =
        (.ok (), machine.record (.output text)) ∧
      Shell.commands? text =
        some [Parameter.words (parameters image.header invocation.plan.names)] := by
  have free := Parameter.nulFree_parameters image.header paths
  obtain ⟨text, line, read⟩ := Parameter.exists_shellLine
    (Script.parameters_ne_nil image.header invocation.plan.names)
    (Parameter.plain_parameters image.header invocation.plan.names)
    (fun parameter member => (free parameter member).2)
  refine ⟨text, ?_, read⟩
  have shown : infoText invocation image = .ok text := by
    rw [infoText, format]
    simp only [null, line]
    rfl
  rw [shown]
  rfl

/-- A board name of nothing but what a shell would expand, a command line with both quotes, a
backslash, a newline and a byte that is no text, an empty path, a path of `^` and `'`, and a second
stage. -/
theorem print_shellLine_of_hard_values :
    let header : Header :=
      ⟨1, 0x8000, 2, 0, 3, 0, 0x100, 2048, 0, ⟨402653574⟩, .padded 16 [0x24, 0x60, 0x21, 0x5E],
        .padded 512 [0x27, 0x22, 0x5C, 0x0A, 0x24], ⟨.padded 32 []⟩, .padded 1024 [0xFF, 0x20]⟩
    let names : FileNames := { FileNames.standard with kernel := [], second := [0x5E, 0x27] }
    let invocation : Invocation :=
      ⟨Utf8.encode "boot.img", none, false, true, false, .mkbootimg,
        { Plan.standard with names := names }⟩
    let machine := Machine.ofFiles ⟨.empty, [], []⟩
    header.board = [0x24, 0x60, 0x21, 0x5E] ∧
      header.commandLine = [0x27, 0x22, 0x5C, 0x0A, 0x24, 0xFF, 0x20] ∧
      ∀ layout, ∃ text, machine.perform (printResult (infoText invocation ⟨header, layout⟩)) =
          (.ok (), machine.record (.output text)) ∧
        Shell.commands? text = some [Parameter.words (parameters header names)] := by
  intro header names invocation machine
  refine ⟨by decide, by decide, fun layout => ?_⟩
  have paths : ∀ path ∈ [names.kernel, names.ramdisk, names.second, names.output], 0 ∉ path := by
    decide
  have format : invocation.format = .mkbootimg := rfl
  exact print_shellLine format rfl paths ⟨header, layout⟩ machine

end Program

end BootImage
