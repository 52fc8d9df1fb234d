import BootImage.Proofs.Script.Arguments
import BootImage.Proofs.Shell.Reading

/-!
What a shell makes of the rebuild script. The values of numbers and of the release need no quotes at
all; the others stand between double quotes, where all but five bytes stand for themselves. As long
as paths, command line and board name keep to those, the script is one command, with every flag and
every value as a word of its own (`Script.commands_text`).
-/

namespace BootImage

open Shell (Bare Literal Reading readFrom)

/-! ### Values that need no quotes -/

namespace Numeral

theorem bare_digits {base : Nat} (two : 1 < base) (sixteen : base ≤ 16) (width n : Nat) :
    Bare (Utf8.encode (String.ofList (digits base width n))) := by
  have all : ∀ d < 16, Bare (String.utf8EncodeChar (Nat.digitChar d)) := by
    decide +kernel
  exact forall_mem_encode_digits two sixteen all

theorem bare_decimal (n : Nat) : Bare (Utf8.encode (decimal n)) :=
  bare_digits (by decide) (by decide) 0 n

theorem bare_paddedDecimal (width n : Nat) : Bare (Utf8.encode (paddedDecimal width n)) :=
  bare_digits (by decide) (by decide) width n

theorem bare_hex (n : Nat) : Bare (Utf8.encode (hex n)) := by
  rw [hex, Utf8.encode_append]
  exact Bare.append (by decide +kernel) (bare_digits (by decide) (by decide) 0 n)

theorem encode_hex_ne_nil (n : Nat) : Utf8.encode (hex n) ≠ [] := by
  rw [hex, Utf8.encode_append]
  exact List.append_ne_nil_of_left_ne_nil (by decide) _

end Numeral

namespace ReleaseInfo

theorem bare_versionText (info : ReleaseInfo) : Bare (Utf8.encode info.versionText) := by
  have point : Bare (Utf8.encode ".") := by decide +kernel
  simp only [versionText_eq, Utf8.encode_append]
  exact (((Numeral.bare_decimal _).append point).append (Numeral.bare_decimal _)).append point
    |>.append (Numeral.bare_decimal _)

theorem bare_patchLevelText (info : ReleaseInfo) : Bare (Utf8.encode info.patchLevelText) := by
  have dash : Bare (Utf8.encode "-") := by decide +kernel
  simp only [patchLevelText_eq, Utf8.encode_append]
  exact (((Numeral.bare_paddedDecimal _ _).append dash).append
    (Numeral.bare_paddedDecimal _ _)).append dash |>.append (Numeral.bare_paddedDecimal _ _)

end ReleaseInfo

/-! ### Single parameters -/

namespace Parameter

/-- The flags whose values are numbers, and stand bare. -/
def numberFlags : List String :=
  ["--base", "--kernel_offset", "--ramdisk_offset", "--second_offset", "--tags_offset",
    "--pagesize"]

/-- A parameter that a shell reads as it is: the flag needs no quotes, and the value stands for
itself in the way it is written. -/
structure Readable (parameter : Parameter) : Prop where
  flag_bare : Bare (Utf8.encode parameter.flag)
  flag_ne_nil : Utf8.encode parameter.flag ≠ []
  value_literal : parameter.flag ∈ quotedFlags → Literal parameter.value
  value_bare : parameter.flag ∉ quotedFlags → Bare parameter.value ∧ parameter.value ≠ []

theorem readable_of_quoted {flag : String} (quoted : flag ∈ quotedFlags) {value : Bytes}
    (literal : Literal value) : Readable ⟨flag, value⟩ := by
  have flags : ∀ flag ∈ quotedFlags, Bare (Utf8.encode flag) ∧ Utf8.encode flag ≠ [] := by
    decide +kernel
  obtain ⟨bare, nonempty⟩ := flags flag quoted
  exact ⟨bare, nonempty, fun _ => literal, absurd quoted⟩

theorem ofText_value (flag text : String) : (ofText flag text).value = Utf8.encode text := rfl

/-- A number needs no quotes. -/
theorem bare_number (flag : String) (word : UInt32) :
    Bare (ofText flag (Numeral.hex word.toNat)).value := by
  rw [ofText_value]
  exact Numeral.bare_hex _

theorem readable_number {flag : String} (number : flag ∈ numberFlags) (word : UInt32) :
    Readable (.ofText flag (Numeral.hex word.toNat)) := by
  have flags : ∀ flag ∈ numberFlags, flag ∉ quotedFlags ∧ Bare (Utf8.encode flag) ∧
      Utf8.encode flag ≠ [] := by decide +kernel
  obtain ⟨unquoted, bare, nonempty⟩ := flags flag number
  refine ⟨bare, nonempty, fun quoted => absurd quoted unquoted, fun _ => ?_⟩
  refine ⟨bare_number flag word, ?_⟩
  rw [ofText_value]
  exact Numeral.encode_hex_ne_nil _

variable {before : List Bytes} {commands : List (List Bytes)}

/-- Reading a flag and its value, up to the end of the value. -/
theorem readFrom_argument {parameter : Parameter} (readable : parameter.Readable) (rest : Bytes) :
    readFrom .plain ⟨none, before, commands⟩ (parameter.argument ++ rest) =
      readFrom .plain ⟨some parameter.value, before ++ [Utf8.encode parameter.flag], commands⟩
        rest := by
  have blank : Utf8.encode " " = [0x20] := rfl
  have quote : Utf8.encode "\"" = [0x22] := rfl
  have flag := Shell.readFrom_bare (Reading.mk none before commands)
    (0x20 :: (parameter.written ++ rest)) readable.flag_bare readable.flag_ne_nil
  simp only [argument, blank, List.append_assoc, List.cons_append, List.nil_append]
  rw [Shell.readFrom_blank, Reading.endWord_none, flag, Reading.push_none, Shell.readFrom_blank,
    Reading.endWord_some, written]
  split
  · rename_i quoted
    have value := Shell.readFrom_quoted
      (Reading.mk none (before ++ [Utf8.encode parameter.flag]) commands) rest
      (readable.value_literal quoted)
    rw [Reading.push_none] at value
    simpa [quote] using value
  · rename_i unquoted
    obtain ⟨bare, nonempty⟩ := readable.value_bare unquoted
    rw [Shell.readFrom_bare _ _ bare nonempty, Reading.push_none]

/-- A continued line is over with its last word. -/
theorem readFrom_lineJoin (word rest : Bytes) :
    readFrom .plain ⟨some word, before, commands⟩ (lineJoin ++ rest) =
      readFrom .plain ⟨none, before ++ [word], commands⟩ rest := by
  have marks : lineJoin = [0x20, 0x5C, 0x0A] := rfl
  rw [marks, List.cons_append, Shell.readFrom_blank, Reading.endWord_some, List.cons_append,
    List.cons_append, Shell.readFrom_joined]
  rfl

/-- **Readable parameters end their command**: it goes on with flag and value of each, and is over
behind the last one. -/
theorem readFrom_argumentLines {parameters : List Parameter} (nonempty : parameters ≠ [])
    (readable : ∀ parameter ∈ parameters, parameter.Readable) :
    readFrom .plain ⟨none, before, commands⟩ (argumentLines parameters).flatten =
      some ⟨none, [], commands ++ [before ++ words parameters]⟩ := by
  induction parameters generalizing before with
  | nil => exact absurd rfl nonempty
  | cons parameter rest ih =>
      obtain ⟨first, later⟩ := List.forall_mem_cons.mp readable
      cases rest with
      | nil =>
          have newline : Utf8.encode "\n" = [0x0A] := rfl
          rw [argumentLines, List.flatten_singleton, readFrom_argument first, newline,
            Shell.readFrom_newline, Reading.endCommand_some, readFrom, Reading.endCommand_none]
          simp [words]
      | cons next others =>
          rw [argumentLines, List.flatten_cons, List.append_assoc, readFrom_argument first,
            readFrom_lineJoin, ih (List.cons_ne_nil _ _) later]
          simp [words]

end Parameter

namespace Script

/-! ### The command -/

/-- Reading the words of the packing command, and the join behind them. -/
theorem readFrom_command {words : List Bytes} (nonempty : words ≠ [])
    (plain : ∀ word ∈ words, word ≠ [] ∧ Bare word) (before : List Bytes) (rest : Bytes) :
    readFrom .plain ⟨none, before, []⟩ ([0x20].intercalate words ++ lineJoin ++ rest) =
      readFrom .plain ⟨none, before ++ words, []⟩ rest := by
  have spelled : List.Forall₂ Shell.Spells words words := by
    apply List.forall₂_same.mpr
    intro word member
    obtain ⟨filled, bare⟩ := plain word member
    exact Shell.spells_bare bare filled
  rw [List.append_assoc, Shell.readFrom_words spelled nonempty, Parameter.readFrom_lineJoin,
    List.append_assoc, List.dropLast_concat_getLast]

/-- Every parameter is readable when the bytes that come from outside are literal. -/
theorem readable_parameters {header : Header} {names : FileNames}
    (paths : ∀ path ∈ [names.kernel, names.ramdisk, names.second, names.output], Literal path)
    (commandLine : Literal header.commandLine) (board : Literal header.board) :
    ∀ parameter ∈ parameters header names, parameter.Readable := by
  simp only [List.forall_mem_cons] at paths
  obtain ⟨kernel, ramdisk, second, output, -⟩ := paths
  have quoted := @Parameter.readable_of_quoted
  have number := @Parameter.readable_number
  have version := (header.osRelease.info.bare_versionText).literal
  have level := (header.osRelease.info.bare_patchLevelText).literal
  have loader : ∀ parameter ∈ (if header.hasSecond then
      [(⟨"--second", names.second⟩ : Parameter)] else []), parameter.Readable := by
    split
    · exact List.forall_mem_singleton.mpr (quoted (by decide) second)
    · exact List.forall_mem_nil _
  rw [parameters]
  simp only [List.forall_mem_append, List.forall_mem_cons]
  refine ⟨⟨⟨quoted (by decide) kernel, quoted (by decide) ramdisk, List.forall_mem_nil _⟩, loader⟩,
    quoted (by decide) commandLine, ?_⟩
  exact ⟨number (by decide) 0, number (by decide) header.kernelAddr,
    number (by decide) header.ramdiskAddr, number (by decide) header.secondAddr,
    quoted (by decide) version, quoted (by decide) level, number (by decide) header.tagsAddr,
    quoted (by decide) board, number (by decide) header.pageSize, quoted (by decide) output,
    List.forall_mem_nil _⟩

/-! ### The script -/

/-- **A shell reads the script as one command**: the words of the packing command, and every flag
and every value as a word of its own. Blanks, newlines, `#`, single quotes and bytes that are no
text are kept in the values. -/
theorem commands_text {script : Script} {words : List Bytes} (nonempty : words ≠ [])
    (plain : ∀ word ∈ words, word ≠ [] ∧ Bare word)
    (spelled : Utf8.encode script.command = [0x20].intercalate words)
    (paths : ∀ path ∈ [script.names.kernel, script.names.ramdisk, script.names.second,
      script.names.output], Literal path)
    (commandLine : Literal script.header.commandLine) (board : Literal script.header.board) :
    Shell.commands? script.text =
      some [words ++ Parameter.words (parameters script.header script.names)] := by
  have first : Utf8.encode "#!/bin/sh\n" = 0x23 :: Utf8.encode "!/bin/sh" ++ [0x0A] := rfl
  have line : (0x0A : UInt8) ∉ Utf8.encode "!/bin/sh" := by decide
  have readable := readable_parameters paths commandLine board
  rw [Shell.commands?, text_eq_lines, List.append_assoc, first, List.append_assoc,
    List.singleton_append, Reading.empty, Shell.readFrom_commentLine _ line,
    Reading.endCommand_none, spelled, readFrom_command nonempty plain, List.nil_append,
    Parameter.readFrom_argumentLines (parameters_ne_nil _ _) readable]
  rfl

/-- A command of two words, a path with a blank, a command line with blanks at both ends, a newline,
`#`, a single quote and a byte that is no text, and an empty board name. -/
theorem commands_text_of_hard_values :
    let header : Header :=
      ⟨1, 0x8000, 2, 0, 3, 0, 0x100, 2048, 0, ⟨402653574⟩, .padded 16 [],
        .padded 512 [0x20, 0x61, 0x0A, 0x23, 0x27], ⟨.padded 32 []⟩, .padded 1024 [0xFF, 0x20]⟩
    let names : FileNames := { FileNames.standard with kernel := [0x6B, 0x20, 0x31] }
    let script : Script := ⟨header, names, "/opt/mk.py -v"⟩
    header.commandLine = [0x20, 0x61, 0x0A, 0x23, 0x27, 0xFF, 0x20] ∧ header.board = [] ∧
      Shell.commands? script.text =
        some [[Utf8.encode "/opt/mk.py", Utf8.encode "-v"] ++
          Parameter.words (parameters header names)] := by
  intro header names script
  have commandLine : header.commandLine = [0x20, 0x61, 0x0A, 0x23, 0x27, 0xFF, 0x20] := by decide
  have board : header.board = [] := by decide
  refine ⟨commandLine, board, ?_⟩
  refine commands_text (List.cons_ne_nil _ _) (by decide +kernel) (by decide) (by decide +kernel)
    ?_ ?_
  · rw [commandLine]
    decide +kernel
  · rw [board]
    decide +kernel

end Script

end BootImage
