import BootImage.Proofs.Header.Strings
import BootImage.Proofs.Script.Reading

/-!
What the text of a rebuild script tells of its header. Nothing is escaped, so a command line or a
board name may look like the flags that follow it; read from its end, the text is still taken apart
in one way only. Values that need no quotes are divided from their flags by a blank or a quote that
they do not hold. The board name may hold quotes, but it is shorter than the stretch without one in
front of it. The command line is what is left.

* `Script.text_eq_iff`: two scripts with the same names and command are the same exactly when the
  headers have the same parameters.
-/

namespace BootImage

open Shell (Bare)

namespace Parameter

/-! ### Lines from their end -/

/-- The lines of parameters behind which others follow. -/
def continued (parameters : List Parameter) : Bytes :=
  parameters.flatMap fun parameter => parameter.argument ++ lineJoin

theorem continued_append (left right : List Parameter) :
    continued (left ++ right) = continued left ++ continued right :=
  List.flatMap_append

theorem continued_cons (first : Parameter) (rest : List Parameter) :
    continued (first :: rest) = first.argument ++ lineJoin ++ continued rest :=
  List.flatMap_cons

theorem continued_singleton (parameter : Parameter) :
    continued [parameter] = parameter.argument ++ lineJoin :=
  List.append_nil _

theorem flatten_argumentLines_snoc (front : List Parameter) (last : Parameter) :
    (argumentLines (front ++ [last])).flatten =
      continued front ++ (last.argument ++ Utf8.encode "\n") := by
  induction front with
  | nil => rw [List.nil_append, argumentLines, List.flatten_singleton, continued,
      List.flatMap_nil, List.nil_append]
  | cons first others ih =>
      have more : others ++ [last] ≠ [] :=
        List.append_ne_nil_of_right_ne_nil _ (List.cons_ne_nil _ _)
      rw [List.cons_append, argumentLines_cons _ more, List.flatten_cons, ih, continued_cons,
        List.append_assoc (first.argument ++ lineJoin)]

theorem argument_of_quoted {parameter : Parameter} (quoted : parameter.flag ∈ quotedFlags) :
    parameter.argument =
      Utf8.encode (" " ++ parameter.flag ++ " ") ++ 0x22 :: parameter.value ++ [0x22] := by
  have quote : Utf8.encode "\"" = [0x22] := rfl
  rw [argument, written, if_pos quoted, quote]
  simp

theorem argument_of_unquoted {parameter : Parameter} (unquoted : parameter.flag ∉ quotedFlags) :
    parameter.argument = Utf8.encode (" " ++ parameter.flag) ++ 0x20 :: parameter.value := by
  have blank : Utf8.encode " " = [0x20] := rfl
  rw [argument, written, if_neg unquoted, Utf8.encode_append, blank]
  simp

/-- The text of a parameter can be read off. -/
theorem ofText_inj {flag text text' : String} (same : ofText flag text = ofText flag text') :
    text = text' :=
  Utf8.encode_injective (Parameter.mk.inj same).2

/-- A single argument tells its value, whatever the value holds. -/
theorem value_inj {flag : String} {value value' : Bytes}
    (same : argument ⟨flag, value⟩ = argument ⟨flag, value'⟩) : value = value' := by
  have shown := List.append_cancel_left same
  simp only [written] at shown
  split at shown
  · exact List.append_cancel_left (List.append_cancel_right shown)
  · exact shown

variable {left right : Bytes}

/-- The last line of a text, when its value needs no quotes, is told by the text and its flag. -/
theorem argument_inj {parameter other : Parameter} (flag : parameter.flag = other.flag)
    (bare : Bare parameter.value) (bare' : Bare other.value)
    (same : left ++ parameter.argument = right ++ other.argument) :
    left = right ∧ parameter = other := by
  obtain ⟨name, value⟩ := parameter
  obtain ⟨name', value'⟩ := other
  obtain rfl : name = name' := flag
  by_cases quoted : name ∈ quotedFlags
  · rw [argument_of_quoted quoted, argument_of_quoted quoted, ← List.append_assoc,
      ← List.append_assoc, ← List.append_assoc, ← List.append_assoc] at same
    obtain ⟨front, rfl⟩ := append_mark_inj (bare.notMem rfl) (bare'.notMem rfl)
      (List.append_cancel_right same)
    exact ⟨List.append_cancel_right front, rfl⟩
  · rw [argument_of_unquoted quoted, argument_of_unquoted quoted, ← List.append_assoc,
      ← List.append_assoc] at same
    obtain ⟨front, rfl⟩ := append_mark_inj (bare.notMem rfl) (bare'.notMem rfl) same
    exact ⟨List.append_cancel_right front, rfl⟩

/-- **Lines whose values need no quotes are told by the text** that they end, when their flags are
known. -/
theorem continued_inj {front other : List Parameter}
    (flags : front.map Parameter.flag = other.map Parameter.flag)
    (bare : ∀ parameter ∈ front, Bare parameter.value)
    (bare' : ∀ parameter ∈ other, Bare parameter.value)
    (same : left ++ continued front = right ++ continued other) :
    left = right ∧ front = other := by
  induction front generalizing other left right with
  | nil =>
      obtain rfl : other = [] := List.map_eq_nil_iff.mp flags.symm
      exact ⟨List.append_cancel_right same, rfl⟩
  | cons first rest ih =>
      cases other with
      | nil => cases flags
      | cons first' rest' =>
          obtain ⟨flag, flags⟩ := List.cons.inj flags
          obtain ⟨first_bare, rest_bare⟩ := List.forall_mem_cons.mp bare
          obtain ⟨first_bare', rest_bare'⟩ := List.forall_mem_cons.mp bare'
          simp only [continued_cons, ← List.append_assoc] at same
          obtain ⟨front, rfl⟩ := ih flags rest_bare rest_bare' same
          obtain ⟨before, rfl⟩ :=
            argument_inj flag first_bare first_bare' (List.append_cancel_right front)
          exact ⟨before, rfl⟩

end Parameter

namespace Header

/-! ### The parameters in groups -/

def loaderFile (header : Header) (names : FileNames) : List Parameter :=
  if header.hasSecond then [⟨"--second", names.second⟩] else []

/-- Two headers agree on a second-stage loader when both declare bytes for it, or neither. -/
theorem hasSecond_eq_iff (header other : Header) :
    header.hasSecond = other.hasSecond ↔ (header.secondSize = 0 ↔ other.secondSize = 0) := by
  rw [hasSecond, hasSecond, Bool.eq_iff_iff, decide_eq_true_iff, decide_eq_true_iff]
  exact not_iff_not

/-- What stands between command line and tags. -/
def addresses (header : Header) : List Parameter :=
  let number (flag : String) (word : UInt32) := Parameter.ofText flag (Numeral.hex word.toNat)
  [number "--base" 0, number "--kernel_offset" header.kernelAddr,
    number "--ramdisk_offset" header.ramdiskAddr, number "--second_offset" header.secondAddr,
    .ofText "--os_version" header.osRelease.info.versionText,
    .ofText "--os_patch_level" header.osRelease.info.patchLevelText]

def tags (header : Header) : Parameter :=
  .ofText "--tags_offset" (Numeral.hex header.tagsAddr.toNat)

def pages (header : Header) : Parameter :=
  .ofText "--pagesize" (Numeral.hex header.pageSize.toNat)

theorem parameters_eq (header : Header) (names : FileNames) :
    parameters header names =
      ([⟨"--kernel", names.kernel⟩, ⟨"--ramdisk", names.ramdisk⟩] ++ header.loaderFile names ++
        [⟨"--cmdline", header.commandLine⟩] ++ (header.addresses ++ [header.tags]) ++
        [⟨"--board", header.board⟩] ++ [header.pages]) ++ [⟨"--output", names.output⟩] := by
  simp [parameters, loaderFile, addresses, tags, pages]

theorem flags_addresses (header : Header) :
    (header.addresses ++ [header.tags]).map Parameter.flag =
      ["--base", "--kernel_offset", "--ramdisk_offset", "--second_offset", "--os_version",
        "--os_patch_level", "--tags_offset"] :=
  rfl

theorem flags_pages (header : Header) : [header.pages].map Parameter.flag = ["--pagesize"] :=
  rfl

theorem bare_addresses (header : Header) :
    ∀ parameter ∈ header.addresses ++ [header.tags], Bare parameter.value := by
  have number := Parameter.bare_number
  have version := header.osRelease.info.bare_versionText
  have level := header.osRelease.info.bare_patchLevelText
  rw [← Parameter.ofText_value "--os_version"] at version
  rw [← Parameter.ofText_value "--os_patch_level"] at level
  rw [List.forall_mem_append, List.forall_mem_singleton, addresses]
  simp only [List.forall_mem_cons]
  exact ⟨⟨number _ 0, number _ header.kernelAddr, number _ header.ramdiskAddr,
    number _ header.secondAddr, version, level, List.forall_mem_nil _⟩, number _ header.tagsAddr⟩

theorem bare_pages (header : Header) : ∀ parameter ∈ [header.pages], Bare parameter.value :=
  List.forall_mem_singleton.mpr (Parameter.bare_number _ header.pageSize)

/-- The numbers and the release can be read off. -/
theorem addresses_inj {header other : Header}
    (same : header.addresses ++ [header.tags] = other.addresses ++ [other.tags]) :
    header.kernelAddr = other.kernelAddr ∧ header.ramdiskAddr = other.ramdiskAddr ∧
      header.secondAddr = other.secondAddr ∧ header.osRelease = other.osRelease ∧
      header.tagsAddr = other.tagsAddr := by
  have number {flag : String} {word word' : UInt32} (equal : Parameter.ofText flag
      (Numeral.hex word.toNat) = Parameter.ofText flag (Numeral.hex word'.toNat)) : word = word' :=
    UInt32.toNat_inj.mp (Numeral.hex_injective (Parameter.ofText_inj equal))
  have lengths : [header.tags].length = [other.tags].length := by simp only [List.length_singleton]
  obtain ⟨front, last⟩ := List.append_inj' same lengths
  simp only [addresses, List.cons.injEq, true_and, and_true] at front
  obtain ⟨kernel, ramdisk, second, version, level⟩ := front
  have release : header.osRelease = other.osRelease :=
    OsRelease.info_injective (ReleaseInfo.texts_injective (Parameter.ofText_inj version)
      (Parameter.ofText_inj level))
  exact ⟨number kernel, number ramdisk, number second, release, number (List.cons.inj last).1⟩

/-- The line before the board name and the start of its own, up to the opening quote. -/
def boardGap (header : Header) : Bytes :=
  header.tags.argument ++ lineJoin ++ Utf8.encode " --board "

theorem boardGap_eq (header : Header) :
    header.boardGap =
      Utf8.encode " --tags_offset" ++ 0x20 :: header.tags.value ++ lineJoin ++
        Utf8.encode " --board " := by
  have unquoted : header.tags.flag ∉ quotedFlags := (by decide : "--tags_offset" ∉ quotedFlags)
  rw [boardGap, Parameter.argument_of_unquoted unquoted]
  rfl

/-- There is no quote before the board name for longer than the name can be. -/
theorem boardGap_free (header : Header) :
    (0x22 : UInt8) ∉ header.boardGap ∧ 16 ≤ header.boardGap.length := by
  have value : (0x22 : UInt8) ∉ header.tags.value :=
    (Parameter.bare_number _ header.tagsAddr).notMem rfl
  have flag : (0x22 : UInt8) ∉ Utf8.encode " --tags_offset" := by decide
  have join : (0x22 : UInt8) ∉ lineJoin ++ Utf8.encode " --board " := by decide
  have lengths : (Utf8.encode " --tags_offset").length = 14 ∧
      (Utf8.encode " --board ").length = 9 := by decide
  rw [boardGap_eq]
  constructor
  · simp only [List.mem_append, List.mem_cons, not_or] at join ⊢
    exact ⟨⟨⟨flag, by decide, value⟩, join.1⟩, join.2⟩
  · simp only [List.length_append, List.length_cons, lengths]
    omega

/-- **The board name is told by the text that it ends**, whatever it holds: it is shorter than the
stretch without a quote in front of it. -/
theorem board_inj {header other : Header} {left right : Bytes}
    (same : left ++ Parameter.continued (header.addresses ++ [header.tags]) ++
        Parameter.continued [⟨"--board", header.board⟩] =
      right ++ Parameter.continued (other.addresses ++ [other.tags]) ++
        Parameter.continued [⟨"--board", other.board⟩]) :
    left ++ Parameter.continued (header.addresses ++ [header.tags]) =
      right ++ Parameter.continued (other.addresses ++ [other.tags]) ∧
    header.board = other.board := by
  have line (header : Header) (before : Bytes) :
      before ++ Parameter.continued (header.addresses ++ [header.tags]) ++
          Parameter.continued [⟨"--board", header.board⟩] =
        before ++ Parameter.continued header.addresses ++ header.boardGap ++
          0x22 :: header.board ++ ([0x22] ++ lineJoin) := by
    have quoted : (⟨"--board", header.board⟩ : Parameter).flag ∈ quotedFlags :=
      (by decide : "--board" ∈ quotedFlags)
    have name : Utf8.encode (" " ++ "--board" ++ " ") = Utf8.encode " --board " := rfl
    rw [Parameter.continued_append, Parameter.continued_singleton, Parameter.continued_singleton,
      Parameter.argument_of_quoted quoted, name, boardGap]
    simp only [List.append_assoc, List.cons_append]
  rw [line, line] at same
  obtain ⟨free, long⟩ := header.boardGap_free
  obtain ⟨free', long'⟩ := other.boardGap_free
  obtain ⟨front, board⟩ := append_gap_inj free free'
    (Nat.le_trans header.boardName.length_text_le long')
    (Nat.le_trans other.boardName.length_text_le long)
    (List.append_cancel_right same)
  refine ⟨?_, board⟩
  simp only [boardGap, ← List.append_assoc] at front
  simp only [Parameter.continued_append, Parameter.continued_singleton, ← List.append_assoc]
  exact List.append_cancel_right front

/-- The line that passes a second-stage loader does not start like the one that passes a command
line. -/
theorem loader_ne_commandLine (second commandLine left right : Bytes) :
    Parameter.argument ⟨"--second", second⟩ ++ left ≠
      Parameter.argument ⟨"--cmdline", commandLine⟩ ++ right := by
  intro same
  have flags : Utf8.encode "--second" = 0x2D :: 0x2D :: 0x73 :: Utf8.encode "econd" ∧
      Utf8.encode "--cmdline" = 0x2D :: 0x2D :: 0x63 :: Utf8.encode "mdline" := by decide
  simp [Parameter.argument, flags] at same

/-- What stands in front of the numbers tells whether there is a second-stage loader, and the
command line. -/
theorem commandLine_inj {header other : Header} {names : FileNames}
    (same : Parameter.continued (header.loaderFile names ++ [⟨"--cmdline", header.commandLine⟩]) =
      Parameter.continued (other.loaderFile names ++ [⟨"--cmdline", other.commandLine⟩])) :
    header.hasSecond = other.hasSecond ∧ header.commandLine = other.commandLine := by
  rw [Parameter.continued_append, Parameter.continued_append, Parameter.continued_singleton,
    Parameter.continued_singleton] at same
  cases present : header.hasSecond with
  | false =>
      cases present' : other.hasSecond with
      | false =>
          rw [loaderFile, loaderFile, present, present'] at same
          exact ⟨rfl, Parameter.value_inj (List.append_cancel_right same)⟩
      | true =>
          rw [loaderFile, loaderFile, present, present', if_pos rfl, Parameter.continued_singleton,
            List.append_assoc] at same
          exact absurd same.symm (loader_ne_commandLine _ _ _ _)
  | true =>
      cases present' : other.hasSecond with
      | false =>
          rw [loaderFile, loaderFile, present, present', if_pos rfl, Parameter.continued_singleton,
            List.append_assoc] at same
          exact absurd same (loader_ne_commandLine _ _ _ _)
      | true =>
          rw [loaderFile, loaderFile, present, present'] at same
          exact ⟨rfl, Parameter.value_inj
            (List.append_cancel_right (List.append_cancel_left same))⟩

end Header

namespace Script

/-! ### The whole text -/

/-- The text in the groups that it is read off by, from its end. -/
theorem text_eq_groups (header : Header) (names : FileNames) (command : String) :
    (Script.mk header names command).text =
      Utf8.encode "#!/bin/sh\n" ++ (Utf8.encode command ++ lineJoin) ++
        Parameter.continued [⟨"--kernel", names.kernel⟩, ⟨"--ramdisk", names.ramdisk⟩] ++
        Parameter.continued (header.loaderFile names ++ [⟨"--cmdline", header.commandLine⟩]) ++
        Parameter.continued (header.addresses ++ [header.tags]) ++
        Parameter.continued [⟨"--board", header.board⟩] ++ Parameter.continued [header.pages] ++
        (Parameter.argument ⟨"--output", names.output⟩ ++ Utf8.encode "\n") := by
  rw [text_eq_lines, Header.parameters_eq, Parameter.flatten_argumentLines_snoc]
  simp only [Parameter.continued_append, List.append_assoc]

/-- **The text tells the parameters, and nothing else.** Two headers have the same script under the
same names and command exactly when they agree on whether there is a second-stage loader, on command
line and board name, on the four addresses, the page size and the release word. -/
theorem text_eq_iff (header other : Header) (names : FileNames) (command : String) :
    (Script.mk header names command).text = (Script.mk other names command).text ↔
      (header.secondSize = 0 ↔ other.secondSize = 0) ∧
      header.commandLine = other.commandLine ∧ header.board = other.board ∧
      header.kernelAddr = other.kernelAddr ∧ header.ramdiskAddr = other.ramdiskAddr ∧
      header.secondAddr = other.secondAddr ∧ header.tagsAddr = other.tagsAddr ∧
      header.pageSize = other.pageSize ∧ header.osRelease.raw = other.osRelease.raw := by
  have loader := Header.hasSecond_eq_iff header other
  rw [text_eq_groups, text_eq_groups]
  constructor
  · intro same
    have withPages := List.append_cancel_right same
    have flags := header.flags_pages.trans other.flags_pages.symm
    obtain ⟨withBoard, pages⟩ :=
      Parameter.continued_inj flags header.bare_pages other.bare_pages withPages
    obtain ⟨withAddresses, board⟩ := Header.board_inj withBoard
    have flags := header.flags_addresses.trans other.flags_addresses.symm
    obtain ⟨front, addresses⟩ := Parameter.continued_inj flags header.bare_addresses
      other.bare_addresses withAddresses
    obtain ⟨second, commandLine⟩ := Header.commandLine_inj (List.append_cancel_left front)
    obtain ⟨kernel, ramdisk, secondAddr, release, tags⟩ := Header.addresses_inj addresses
    have page : header.pageSize = other.pageSize :=
      UInt32.toNat_inj.mp (Numeral.hex_injective
        (Parameter.ofText_inj (List.cons.inj pages).1))
    exact ⟨loader.mp second, commandLine, board, kernel, ramdisk, secondAddr, tags, page,
      congrArg OsRelease.raw release⟩
  · rintro ⟨second, commandLine, board, kernel, ramdisk, secondAddr, tags, page, release⟩
    have word : header.osRelease = other.osRelease := congrArg OsRelease.mk release
    rw [Header.loaderFile, Header.loaderFile, loader.mpr second, commandLine, board,
      Header.addresses, Header.addresses, Header.tags, Header.tags, Header.pages, Header.pages,
      kernel, ramdisk, secondAddr, tags, page, word]

end Script

end BootImage
