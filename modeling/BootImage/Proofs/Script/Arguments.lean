import BootImage.Proofs.OsRelease
import BootImage.Script

/-!
The rebuild script as a rendering of the parameters. The script is written line by line from the
header; here its lines turn out to be the parameters in their order, each as a flag and a value,
with quotes around the value for some of the flags.

* `Script.map_flatten_lines`: the lines behind the first two are the parameters.
* `Script.text_eq_arguments`: the whole text.
-/

namespace BootImage

/-- The flags whose values stand between double quotes. -/
def quotedFlags : List String :=
  ["--kernel", "--ramdisk", "--second", "--cmdline", "--os_version", "--os_patch_level", "--board",
    "--output"]

/-- What stands behind a line that goes on in the next one. -/
def lineJoin : Bytes := Utf8.encode " \\\n"

namespace Parameter

def words (parameters : List Parameter) : List Bytes :=
  parameters.flatMap fun parameter => [Utf8.encode parameter.flag, parameter.value]

theorem words_ne_nil {parameters : List Parameter} (nonempty : parameters ≠ []) :
    words parameters ≠ [] := by
  cases parameters with
  | nil => exact absurd rfl nonempty
  | cons first rest => exact List.cons_ne_nil _ _

/-- The value, between double quotes or bare. -/
def written (parameter : Parameter) : Bytes :=
  if parameter.flag ∈ quotedFlags then Utf8.encode "\"" ++ parameter.value ++ Utf8.encode "\""
  else parameter.value

/-- A blank, the flag, a blank and the value. -/
def argument (parameter : Parameter) : Bytes :=
  Utf8.encode " " ++ Utf8.encode parameter.flag ++ Utf8.encode " " ++ parameter.written

/-- One line for every parameter; all but the last go on in the next line. -/
def argumentLines : List Parameter → List Bytes
  | [] => []
  | [last] => [last.argument ++ Utf8.encode "\n"]
  | parameter :: next :: rest => (parameter.argument ++ lineJoin) :: argumentLines (next :: rest)

theorem argumentLines_cons (parameter : Parameter) {rest : List Parameter} (nonempty : rest ≠ []) :
    argumentLines (parameter :: rest) = (parameter.argument ++ lineJoin) :: argumentLines rest := by
  cases rest with
  | nil => exact absurd rfl nonempty
  | cons next others => rfl

/-- Joined, the lines are the arguments with a continuation between any two of them. -/
theorem flatten_argumentLines {parameters : List Parameter} (nonempty : parameters ≠ []) :
    (argumentLines parameters).flatten =
      lineJoin.intercalate (parameters.map argument) ++ Utf8.encode "\n" := by
  induction parameters with
  | nil => exact absurd rfl nonempty
  | cons parameter rest ih =>
      cases rest with
      | nil =>
          rw [argumentLines, List.flatten_singleton, List.map_singleton,
            List.intercalate_singleton]
      | cons next others =>
          have more : next :: others ≠ [] := List.cons_ne_nil _ _
          rw [argumentLines_cons _ more, List.flatten_cons, ih more]
          simp only [List.map_cons, List.intercalate_cons_cons, List.append_assoc]

end Parameter

namespace Script

/-! ### Single lines -/

theorem flatten_quotedLine {flag : String} (quoted : flag ∈ quotedFlags) (value : Bytes) :
    (quotedLine flag value).flatten = Parameter.argument ⟨flag, value⟩ ++ lineJoin := by
  have marks : Utf8.encode " \"" = Utf8.encode " " ++ Utf8.encode "\"" := rfl
  have close : Utf8.encode "\" \\\n" = Utf8.encode "\"" ++ lineJoin := rfl
  simp only [quotedLine, List.flatten_cons, List.flatten_nil, List.append_nil, Parameter.argument,
    Parameter.written, quoted, if_true, Utf8.encode_append, marks, close, List.append_assoc]

theorem flatten_textLine {flag : String} (quoted : flag ∈ quotedFlags) (text : String) :
    (textLine flag text).flatten = (Parameter.ofText flag text).argument ++ lineJoin := by
  rw [Parameter.ofText, ← flatten_quotedLine quoted]
  simp only [textLine, quotedLine, List.flatten_cons, List.flatten_nil, List.append_nil,
    Utf8.encode_append, List.append_assoc]

theorem flatten_numberLine {flag : String} (bare : flag ∉ quotedFlags) (word : UInt32) :
    (numberLine flag word).flatten =
      (Parameter.ofText flag (Numeral.hex word.toNat)).argument ++ lineJoin := by
  simp only [numberLine, List.flatten_singleton, Parameter.argument, Parameter.written,
    Parameter.ofText, bare, if_false, Utf8.encode_append, lineJoin]

/-- The last line does not go on. -/
theorem flatten_outputLine (value : Bytes) :
    [Utf8.encode " --output \"", value, Utf8.encode "\"\n"].flatten =
      Parameter.argument ⟨"--output", value⟩ ++ Utf8.encode "\n" := by
  have front : Utf8.encode " --output \"" =
      Utf8.encode " " ++ Utf8.encode "--output" ++ Utf8.encode " " ++ Utf8.encode "\"" := rfl
  have close : Utf8.encode "\"\n" = Utf8.encode "\"" ++ Utf8.encode "\n" := rfl
  have quoted : "--output" ∈ quotedFlags := by decide
  simp only [List.flatten_cons, List.flatten_nil, List.append_nil, Parameter.argument,
    Parameter.written, quoted, if_true, front, close, List.append_assoc]

/-! ### All lines -/

/-- **The script passes the parameters**, one in a line and in their order. -/
theorem map_flatten_lines (script : Script) :
    script.lines.map List.flatten =
      Utf8.encode "#!/bin/sh\n" :: (Utf8.encode script.command ++ lineJoin) ::
        Parameter.argumentLines (parameters script.header script.names) := by
  have command : Utf8.encode (script.command ++ " \\\n") = Utf8.encode script.command ++ lineJoin :=
    Utf8.encode_append _ _
  rw [lines, parameters]
  dsimp only
  simp only [List.map_append, List.map_cons, List.map_nil]
  rw [List.flatten_singleton, List.flatten_singleton, command, flatten_outputLine,
    flatten_quotedLine (by decide) script.names.kernel,
    flatten_quotedLine (by decide) script.names.ramdisk,
    flatten_quotedLine (by decide) script.header.commandLine,
    flatten_quotedLine (by decide) script.header.board, flatten_textLine (by decide),
    flatten_textLine (by decide), flatten_numberLine (by decide), flatten_numberLine (by decide),
    flatten_numberLine (by decide), flatten_numberLine (by decide), flatten_numberLine (by decide),
    flatten_numberLine (by decide)]
  cases script.header.hasSecond with
  | false => rfl
  | true =>
      simp only [if_true, List.map_singleton]
      rw [flatten_quotedLine (by decide) script.names.second]
      rfl

/-- The text by its lines: which pieces they are written in does not matter. -/
theorem text_eq_lines (script : Script) :
    script.text =
      Utf8.encode "#!/bin/sh\n" ++ (Utf8.encode script.command ++ lineJoin) ++
        (Parameter.argumentLines (parameters script.header script.names)).flatten := by
  rw [text, pieces, List.flatten_flatten, map_flatten_lines, List.flatten_cons, List.flatten_cons,
    ← List.append_assoc]

theorem parameters_ne_nil (header : Header) (names : FileNames) : parameters header names ≠ [] := by
  rw [parameters]
  exact List.append_ne_nil_of_right_ne_nil _ (List.cons_ne_nil _ _)

/-- **Script and parameters are the same.** Behind the first line and the command come the
parameters, all of them and in their order, each as a flag and its value with a continuation of the
line to the next one. -/
theorem text_eq_arguments (script : Script) :
    script.text =
      Utf8.encode "#!/bin/sh\n" ++ Utf8.encode script.command ++ Utf8.encode " \\\n" ++
        (Utf8.encode " \\\n").intercalate
          ((parameters script.header script.names).map Parameter.argument) ++
        Utf8.encode "\n" := by
  have passed := Parameter.flatten_argumentLines (parameters_ne_nil script.header script.names)
  rw [text_eq_lines, passed]
  simp only [lineJoin, List.append_assoc]

end Script

end BootImage
