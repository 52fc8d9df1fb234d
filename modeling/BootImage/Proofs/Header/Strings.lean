import BootImage.Proofs.Header.Decision
import BootImage.Proofs.Utf8

/-!
The strings of a header: the command line, whose two parts stand in fields of their own, and the
board name. A text that fills its field stands there without a terminator, a shorter one with a NUL
behind it and anything behind that.

* `Bytes.longestFree_untilNul`: what is taken from a field, whatever it holds.
* `Header.strings_survive`: what was put into the fields comes back from the record.
-/

namespace BootImage

namespace Bytes

/-- A front of a byte string that holds no NUL, and is the longest of those. -/
structure LongestFree (bytes front : Bytes) : Prop where
  starts : front <+: bytes
  free : 0 ∉ front
  longest : ∀ other : Bytes, other <+: bytes → 0 ∉ other → other.length ≤ front.length

/-- Bytes that are no NUL are taken, and then it goes on. -/
theorem untilNul_append {text : Bytes} (free : 0 ∉ text) (rest : Bytes) :
    untilNul (text ++ rest) = text ++ untilNul rest := by
  apply List.takeWhile_append_of_pos
  intro b member
  rw [decide_eq_true_eq]
  rintro rfl
  exact free member

theorem untilNul_eq_self {text : Bytes} (free : 0 ∉ text) : untilNul text = text := by
  simpa [untilNul] using untilNul_append free []

/-- A NUL ends the text, whatever stands behind it. -/
theorem untilNul_append_zero {text : Bytes} (free : 0 ∉ text) (junk : Bytes) :
    untilNul (text ++ 0 :: junk) = text := by
  rw [untilNul_append free]
  simp [untilNul]

theorem longestFree_untilNul (bytes : Bytes) : LongestFree bytes (untilNul bytes) where
  starts := List.takeWhile_prefix _
  free := zero_notMem_untilNul bytes
  longest := by
    rintro other ⟨rest, rfl⟩ free
    rw [untilNul_append free, List.length_append]
    exact Nat.le_add_right _ _

end Bytes

namespace Field

variable {width : Nat}

/-- A field with a text in it: the text fills the field, or a NUL ends it. -/
def Holds (field : Field width) (text : Bytes) : Prop :=
  field.bytes = text ∨ ∃ junk, field.bytes = text ++ 0 :: junk

/-- The text of a field is the one that it holds. -/
theorem text_eq_of_holds {field : Field width} {text : Bytes} (holds : field.Holds text)
    (free : 0 ∉ text) : field.text = text := by
  rcases holds with full | ⟨junk, ended⟩
  · rw [Field.text, full, Bytes.untilNul_eq_self free]
  · rw [Field.text, ended, Bytes.untilNul_append_zero free]

/-- A text is no longer than its field. -/
theorem length_text_le (field : Field width) : field.text.length ≤ width := by
  have inside := (Bytes.longestFree_untilNul field.bytes).starts.length_le
  rwa [field.length_bytes] at inside

end Field

namespace Header

/-- The command line ends at a NUL in each of its two parts, and holds none. -/
theorem zero_notMem_commandLine (header : Header) : (0 : UInt8) ∉ header.commandLine := by
  rw [commandLine, List.mem_append, not_or]
  exact ⟨Bytes.zero_notMem_untilNul _, Bytes.zero_notMem_untilNul _⟩

theorem length_commandLine_le (header : Header) : header.commandLine.length ≤ 1536 := by
  have first := header.cmdline.length_text_le
  have second := header.extraCmdline.length_text_le
  rw [commandLine, List.length_append]
  omega

/-- The command line of a header with its two parts in their fields. -/
theorem commandLine_of_holds {header : Header} {first second : Bytes}
    (free : 0 ∉ first ++ second) (starts : header.cmdline.Holds first)
    (ends : header.extraCmdline.Holds second) : header.commandLine = first ++ second := by
  rw [List.mem_append, not_or] at free
  obtain ⟨firstFree, secondFree⟩ := free
  rw [commandLine, Field.text_eq_of_holds starts firstFree, Field.text_eq_of_holds ends secondFree]

/-- **Command line and board name survive the record.** A command line without a NUL, divided
between its two fields anywhere, and a board name without a NUL come back from the record of a valid
header, whether they fill their fields or are ended by a NUL with anything behind it; and a command
line that is text is shown as that text, even when a character is divided. Of any header at all, the
command line holds no NUL, has no more than 1536 bytes, and is made of the longest fronts of its two
fields that hold no NUL. -/
theorem strings_survive (header : Header) :
    (∀ line first second name : Bytes, 0 ∉ line → line = first ++ second → 0 ∉ name →
      header.cmdline.Holds first → header.extraCmdline.Holds second →
      header.boardName.Holds name → header.validate = .ok () →
      ∃ parsed, parse header.encode = .ok parsed ∧
        parsed.commandLine = line ∧ parsed.board = name ∧
        ∀ text, Utf8.encode text = line → parsed.commandLineText = text) ∧
    0 ∉ header.commandLine ∧ header.commandLine.length ≤ 1536 ∧
    ∃ first second, header.commandLine = first ++ second ∧
      header.cmdline.bytes.LongestFree first ∧ header.extraCmdline.bytes.LongestFree second := by
  refine ⟨?_, header.zero_notMem_commandLine, header.length_commandLine_le, ?_⟩
  · rintro line first second name free rfl nameFree starts ends named valid
    have line := commandLine_of_holds free starts ends
    refine ⟨header, parse_encode valid, line, Field.text_eq_of_holds named nameFree, ?_⟩
    intro text spelled
    rw [commandLineText, line, ← spelled, Utf8.decodeLossy_encode]
  · exact ⟨header.cmdline.text, header.extraCmdline.text, rfl,
      Bytes.longestFree_untilNul _, Bytes.longestFree_untilNul _⟩

/-- The first field of the command line is full and ends within a character, which goes on in the
second field with a NUL and junk behind it. The board name fills its field. -/
theorem strings_survive_divided_character :
    let first := List.replicate 511 0x61 ++ [0xC3]
    let second : Bytes := [0xA9, 0x62]
    let name := Utf8.encode "sixteen letters."
    let header : Header :=
      ⟨1, 0x8000, 2, 0, 0, 0, 0x100, 2048, 0, ⟨402653574⟩, .padded 16 name, .padded 512 first,
        ⟨.padded 32 []⟩, .padded 1024 (second ++ [0, 0xFF, 0x63])⟩
    let text := String.ofList (List.replicate 511 'a' ++ ['é', 'b'])
    header.boardName.bytes = name ∧ header.cmdline.bytes = first ∧
      header.extraCmdline.Holds second ∧ header.validate = .ok () ∧
      Utf8.encode text = first ++ second ∧
      ∃ parsed, parse header.encode = .ok parsed ∧ parsed.commandLine = first ++ second ∧
        parsed.board = name ∧ parsed.commandLineText = text := by
  intro first second name header text
  have board : header.boardName.bytes = name := by decide +kernel
  have starts : header.cmdline.bytes = first := by decide +kernel
  have ends : header.extraCmdline.Holds second :=
    .inr ⟨[0xFF, 0x63] ++ List.replicate 1019 0, by decide +kernel⟩
  have valid : header.validate = .ok () := rfl
  have spelled : Utf8.encode text = first ++ second := by
    rw [Utf8.encode, String.toList_ofList]
    decide +kernel
  have free : 0 ∉ first ++ second := by decide +kernel
  have nameFree : 0 ∉ name := by decide +kernel
  obtain ⟨parsed, read, line, named, shown⟩ := (strings_survive header).1 _ first second name free
    rfl nameFree (.inl starts) ends (.inl board) valid
  exact ⟨board, starts, ends, valid, spelled, parsed, read, line, named, shown text spelled⟩

end Header

end BootImage
