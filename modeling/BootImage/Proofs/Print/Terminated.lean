import BootImage.Program
import BootImage.Proofs.Header.Strings
import BootImage.Proofs.Machine.Perform
import BootImage.Proofs.Script.Reading

/-!
Parameters in print, every flag and every value ended by a NUL. No flag and no value holds a NUL as
long as the paths hold none: header strings end at their first NUL, and numbers and releases are
written in digits. So the text can be cut at its NULs in one way only, and empty values, values with
blanks or newlines and bytes that are no text come back as they are.

* `Parameter.splitOn_nulTerminated`: cutting undoes writing, for any words without a NUL.
* `Program.print_nulTerminated`: what the program puts out.
-/

namespace BootImage

/-- A separator behind the last piece is one before an empty piece. -/
theorem intercalate_snoc_nil {α : Type} (separator : α) {pieces : List (List α)}
    (nonempty : pieces ≠ []) :
    [separator].intercalate (pieces ++ [[]]) = [separator].intercalate pieces ++ [separator] := by
  induction pieces with
  | nil => exact absurd rfl nonempty
  | cons piece rest ih =>
      cases rest with
      | nil => simp
      | cons next others =>
          rw [List.cons_append, List.intercalate_cons_of_ne_nil (by simp),
            ih (List.cons_ne_nil _ _), List.intercalate_cons_cons]
          simp only [List.append_assoc]

namespace Parameter

variable {header : Header} {names : FileNames}

def NulFree (parameter : Parameter) : Prop :=
  0 ∉ Utf8.encode parameter.flag ∧ 0 ∉ parameter.value

/-- Cut at the NULs, the text gives the words back, and nothing behind the last of them. -/
theorem splitOn_nulTerminated {parameters : List Parameter} (nonempty : parameters ≠ [])
    (free : ∀ parameter ∈ parameters, parameter.NulFree) :
    (nulTerminated parameters).splitOn 0 = words parameters ++ [[]] := by
  have some : words parameters ≠ [] := words_ne_nil nonempty
  have apart : ∀ word ∈ words parameters ++ [[]], (0 : UInt8) ∉ word := by
    intro word among
    rcases List.mem_append.mp among with inside | behind
    · obtain ⟨parameter, member, either⟩ := List.mem_flatMap.mp inside
      obtain ⟨flag, value⟩ := free parameter member
      rcases List.mem_cons.mp either with rfl | other
      · exact flag
      · rw [List.mem_singleton.mp other]
        exact value
    · rw [List.mem_singleton.mp behind]
      exact List.not_mem_nil
  have text : nulTerminated parameters = [0].intercalate (words parameters ++ [[]]) :=
    (intercalate_snoc_nil 0 some).symm
  rw [text, List.splitOn_intercalate 0 apart (List.append_ne_nil_of_left_ne_nil some _)]

/-- No flag that is passed holds a NUL, so only the value counts. -/
theorem nulFree_of_value {flag : String} (known : flag ∈ quotedFlags ++ numberFlags) {value : Bytes}
    (free : 0 ∉ value) : NulFree ⟨flag, value⟩ := by
  have flags : ∀ flag ∈ quotedFlags ++ numberFlags, 0 ∉ Utf8.encode flag := by decide
  exact ⟨flags flag known, free⟩

theorem zero_notMem_of_bare {bytes : Bytes} (bare : Shell.Bare bytes) : 0 ∉ bytes :=
  bare.notMem (by decide +kernel)

/-- Whatever the fields of a header hold, only a path can bring a NUL into the parameters. -/
theorem nulFree_parameters (header : Header)
    (paths : ∀ path ∈ [names.kernel, names.ramdisk, names.second, names.output], 0 ∉ path) :
    ∀ parameter ∈ parameters header names, parameter.NulFree := by
  simp only [List.forall_mem_cons] at paths
  obtain ⟨kernel, ramdisk, second, output, -⟩ := paths
  have holds := @nulFree_of_value
  have number : ∀ {flag : String}, flag ∈ quotedFlags ++ numberFlags → ∀ word : UInt32,
      NulFree (.ofText flag (Numeral.hex word.toNat)) :=
    fun {flag} known word => holds known (zero_notMem_of_bare (bare_number flag word))
  have version := zero_notMem_of_bare header.osRelease.info.bare_versionText
  have level := zero_notMem_of_bare header.osRelease.info.bare_patchLevelText
  have board : 0 ∉ header.board := Bytes.zero_notMem_untilNul _
  have loader : ∀ parameter ∈ (if header.hasSecond then
      [(⟨"--second", names.second⟩ : Parameter)] else []), parameter.NulFree := by
    split
    · exact List.forall_mem_singleton.mpr (holds (by decide) second)
    · exact List.forall_mem_nil _
  rw [parameters]
  simp only [List.forall_mem_append, List.forall_mem_cons]
  refine ⟨⟨⟨holds (by decide) kernel, holds (by decide) ramdisk, List.forall_mem_nil _⟩, loader⟩,
    holds (by decide) header.zero_notMem_commandLine, ?_⟩
  exact ⟨number (by decide) 0, number (by decide) header.kernelAddr,
    number (by decide) header.ramdiskAddr, number (by decide) header.secondAddr,
    holds (by decide) version, holds (by decide) level, number (by decide) header.tagsAddr,
    holds (by decide) board, number (by decide) header.pageSize, holds (by decide) output,
    List.forall_mem_nil _⟩

/-- A flag and a value for each of thirteen parameters, and for the second stage where there is
one. -/
theorem length_words_parameters (header : Header) (names : FileNames) :
    (words (parameters header names)).length = if header.hasSecond then 28 else 26 := by
  rw [words, parameters]
  cases header.hasSecond <;> rfl

end Parameter

namespace Program

open CommandLine (Invocation)

/-- **Arguments that are ended by NULs can be told apart.** Asked for them, the program puts out a
text that ends with a NUL; cut at the NULs it is the flags and values of the parameters, in their
order, with nothing behind the last one. There are 28 with a second stage and 26 without, whatever
the header holds: strings with a NUL inside, with bytes behind it, or with none at all. -/
theorem print_nulTerminated {invocation : Invocation} (format : invocation.format = .mkbootimg)
    (null : invocation.null = true)
    (paths : ∀ path ∈ [invocation.plan.names.kernel, invocation.plan.names.ramdisk,
      invocation.plan.names.second, invocation.plan.names.output], 0 ∉ path)
    (image : Image) (machine : Machine) :
    let passed := Parameter.words (parameters image.header invocation.plan.names)
    ∃ text, machine.perform (printResult (infoText invocation image)) =
        (.ok (), machine.record (.output text)) ∧
      text.getLast? = some 0 ∧ text.splitOn 0 = passed ++ [[]] ∧
      passed.length = if image.header.hasSecond then 28 else 26 := by
  intro passed
  have shown : infoText invocation image =
      .ok (Parameter.nulTerminated (parameters image.header invocation.plan.names)) := by
    rw [infoText, format]
    exact if_pos null
  refine ⟨Parameter.nulTerminated (parameters image.header invocation.plan.names), ?_,
    List.getLast?_concat, ?_, Parameter.length_words_parameters _ _⟩
  · rw [shown]
    rfl
  · exact Parameter.splitOn_nulTerminated (Script.parameters_ne_nil _ _)
      (Parameter.nulFree_parameters image.header paths)

/-- A board name that is empty because a NUL comes first, a command line with a newline, a NUL and
bytes behind it, a second part that is no text, a path with a blank and a newline, and a second
stage. -/
theorem print_nulTerminated_of_hard_values :
    let header : Header :=
      ⟨1, 0x8000, 2, 0, 3, 0, 0x100, 2048, 0, ⟨402653574⟩, .padded 16 [0, 0x78],
        .padded 512 [0x61, 0x0A, 0x20, 0, 0x62], ⟨.padded 32 []⟩, .padded 1024 [0xFF, 0x20]⟩
    let names : FileNames := { FileNames.standard with kernel := [0x6B, 0x20, 0x0A, 0xFF] }
    let invocation : Invocation :=
      ⟨Utf8.encode "boot.img", none, false, true, true, .mkbootimg,
        { Plan.standard with names := names }⟩
    let machine := Machine.ofFiles ⟨.empty, [], []⟩
    header.board = [] ∧ header.commandLine = [0x61, 0x0A, 0x20, 0xFF, 0x20] ∧
      ∀ layout, ∃ text, machine.perform (printResult (infoText invocation ⟨header, layout⟩)) =
          (.ok (), machine.record (.output text)) ∧
        text.getLast? = some 0 ∧
        text.splitOn 0 = Parameter.words (parameters header names) ++ [[]] ∧
        (Parameter.words (parameters header names)).length = 28 := by
  intro header names invocation machine
  refine ⟨by decide, by decide, fun layout => ?_⟩
  have paths : ∀ path ∈ [names.kernel, names.ramdisk, names.second, names.output], 0 ∉ path := by
    decide
  have format : invocation.format = .mkbootimg := rfl
  exact print_nulTerminated format rfl paths ⟨header, layout⟩ machine

end Program

end BootImage
