import Mathlib.Data.List.Forall2
import BootImage.Shell.Quote
import BootImage.Shell.Words

/-!
How a shell reads text that is made of few kinds of pieces: comment lines, blanks, continued lines,
bytes that stand for themselves without quotes, and values between double quotes. Each lemma reads
one piece and leaves the rest of the text to be read from the state that the piece leads to.
-/

namespace BootImage.Shell

/-- Bytes that stand for themselves without quotes. -/
def Bare (bytes : Bytes) : Prop :=
  ∀ b ∈ bytes, isBare b

instance (bytes : Bytes) : Decidable (Bare bytes) :=
  List.decidableBAll (fun b => isBare b) bytes

/-- Bytes that stand for themselves between double quotes: none is the quote itself, `$`, the
backquote, the backslash or NUL. -/
def Literal (bytes : Bytes) : Prop :=
  ∀ b ∈ bytes, b ∉ [0x22, 0x24, 0x60, 0x5C, 0x00]

instance (bytes : Bytes) : Decidable (Literal bytes) :=
  List.decidableBAll (fun b => b ∉ [0x22, 0x24, 0x60, 0x5C, 0x00]) bytes

theorem Bare.append {left right : Bytes} (first : Bare left) (second : Bare right) :
    Bare (left ++ right) :=
  List.forall_mem_append.mpr ⟨first, second⟩

/-- A byte that a shell gives a meaning to does not stand among bare ones. -/
theorem Bare.notMem {bytes : Bytes} (bare : Bare bytes) {b : UInt8} (meant : isBare b = false) :
    b ∉ bytes := by
  intro mem
  rw [bare b mem] at meant
  cases meant

/-- What needs no quotes is literal between them, too. -/
theorem Bare.literal {bytes : Bytes} (bare : Bare bytes) : Literal bytes := by
  intro b mem meant
  have meanings : ∀ b ∈ [0x22, 0x24, 0x60, 0x5C, 0x00], isBare b = false := by
    simp [isBare]
  exact bare.notMem (meanings b meant) mem

theorem isSpecial_of_isBare {b : UInt8} (bare : isBare b) : isSpecial b = false := by
  have meanings : ∀ b ∈ [0x24, 0x60, 0x26, 0x7C, 0x3B, 0x3C, 0x3E, 0x28, 0x29, 0x2A, 0x3F, 0x5B,
      0x7E, 0x21, 0x5E, 0x7B, 0x7D], isBare b = false := by
    simp [isBare]
  rw [isSpecial, decide_eq_false_iff_not]
  intro special
  rw [meanings b special] at bare
  cases bare

/-! ### What is read -/

namespace Reading

theorem push_push (reading : Reading) (left right : Bytes) :
    (reading.push left).push right = reading.push (left ++ right) := by
  simp [push]

variable {words : List Bytes} {commands : List (List Bytes)}

theorem push_none (bytes : Bytes) :
    (Reading.mk none words commands).push bytes = ⟨some bytes, words, commands⟩ := rfl

theorem endWord_none :
    (Reading.mk none words commands).endWord = ⟨none, words, commands⟩ := rfl

theorem endWord_some (word : Bytes) :
    (Reading.mk (some word) words commands).endWord = ⟨none, words ++ [word], commands⟩ := rfl

/-- A command with a last word is kept. -/
theorem endCommand_some (word : Bytes) :
    (Reading.mk (some word) words commands).endCommand =
      ⟨none, [], commands ++ [words ++ [word]]⟩ := by
  rw [endCommand, endWord_some]
  exact if_neg (List.append_ne_nil_of_right_ne_nil _ (List.cons_ne_nil _ _))

/-- Between commands there is nothing to end. -/
theorem endCommand_none : (Reading.mk none [] commands).endCommand = ⟨none, [], commands⟩ := rfl

end Reading

/-! ### Pieces of text -/

section Pieces

variable (reading : Reading) (rest : Bytes)

/-- Reading a byte other than a backslash outside of quotes. -/
theorem readFrom_plain {b : UInt8} (other : b ≠ 0x5C) :
    readFrom .plain reading (b :: rest) =
      if b = 0x20 ∨ b = 0x09 then readFrom .plain reading.endWord rest
      else if b = 0x0A then readFrom .plain reading.endCommand rest
      else if b = 0x27 then readFrom .single (reading.push []) rest
      else if b = 0x22 then readFrom .double (reading.push []) rest
      else if b = 0x23 ∧ reading.word = none then readFrom .comment reading rest
      else if b = 0x5C ∨ isSpecial b then none
      else readFrom .plain (reading.push [b]) rest := by
  rw [readFrom]
  · exact fun _ same _ => other same
  · exact fun _ _ same _ => other same

theorem readFrom_blank :
    readFrom .plain reading (0x20 :: rest) = readFrom .plain reading.endWord rest := by
  rw [readFrom_plain _ _ (by decide)]
  rfl

theorem readFrom_newline :
    readFrom .plain reading (0x0A :: rest) = readFrom .plain reading.endCommand rest := by
  rw [readFrom_plain _ _ (by decide)]
  rfl

/-- A backslash before a newline joins two lines. -/
theorem readFrom_joined :
    readFrom .plain reading (0x5C :: 0x0A :: rest) = readFrom .plain reading rest := by
  rw [readFrom]

/-- The end of the line ends a comment, and the command before it. -/
theorem readFrom_comment {text : Bytes} (line : 0x0A ∉ text) :
    readFrom .comment reading (text ++ 0x0A :: rest) = readFrom .plain reading.endCommand rest := by
  induction text with
  | nil =>
      rw [List.nil_append, readFrom]
      rfl
  | cons b others ih =>
      rw [List.mem_cons, not_or] at line
      obtain ⟨first, later⟩ := line
      rw [List.cons_append, readFrom, if_neg (Ne.symm first), ih later]

/-- A line of comment, where a word could begin. -/
theorem readFrom_commentLine {words : List Bytes} {commands : List (List Bytes)} {text : Bytes}
    (line : 0x0A ∉ text) :
    readFrom .plain ⟨none, words, commands⟩ (0x23 :: text ++ 0x0A :: rest) =
      readFrom .plain (Reading.mk none words commands).endCommand rest := by
  rw [List.cons_append, readFrom_plain _ _ (by decide)]
  exact readFrom_comment _ _ line

theorem readFrom_bareByte {b : UInt8} (bare : isBare b) :
    readFrom .plain reading (b :: rest) = readFrom .plain (reading.push [b]) rest := by
  have other : ∀ meant ∈ [0x5C, 0x20, 0x09, 0x0A, 0x27, 0x22, 0x23], b ≠ meant := by
    rintro meant among rfl
    have meanings : ∀ b ∈ [0x5C, 0x20, 0x09, 0x0A, 0x27, 0x22, 0x23], isBare b = false := by
      simp [isBare]
    rw [meanings b among] at bare
    cases bare
  simp only [List.forall_mem_cons, List.not_mem_nil, false_implies, implies_true, and_true] at other
  obtain ⟨backslash, blank, tab, newline, single, double, hash⟩ := other
  rw [readFrom_plain _ _ backslash]
  simp only [blank, tab, newline, single, double, hash, backslash, isSpecial_of_isBare bare,
    false_or, false_and, Bool.false_eq_true, if_false]

/-- Bare bytes go on with the current word, or begin one. -/
theorem readFrom_bare {word : Bytes} (bare : Bare word) (nonempty : word ≠ []) :
    readFrom .plain reading (word ++ rest) = readFrom .plain (reading.push word) rest := by
  induction word generalizing reading with
  | nil => exact absurd rfl nonempty
  | cons b others ih =>
      obtain ⟨first, later⟩ := List.forall_mem_cons.mp bare
      rw [List.cons_append, readFrom_bareByte _ _ first]
      cases others with
      | nil => rfl
      | cons next more =>
          rw [ih _ later (List.cons_ne_nil _ _), Reading.push_push]
          rfl

/-- Between double quotes a literal byte stands for itself, a newline or a blank, too. -/
theorem readFrom_literalByte {b : UInt8} (literal : b ∉ [0x22, 0x24, 0x60, 0x5C, 0x00]) :
    readFrom .double reading (b :: rest) = readFrom .double (reading.push [b]) rest := by
  simp only [List.mem_cons, List.not_mem_nil, or_false, not_or] at literal
  obtain ⟨quote, dollar, backquote, backslash, -⟩ := literal
  rw [readFrom]
  · simp only [quote, dollar, backquote, backslash, List.mem_cons, List.not_mem_nil, or_false,
      if_false]
  · exact fun _ _ same _ => backslash same

/-- The rest of a value between double quotes, up to the quote that closes it. -/
theorem readFrom_double {value : Bytes} (literal : Literal value) (before : Bytes) :
    readFrom .double (reading.push before) (value ++ 0x22 :: rest) =
      readFrom .plain (reading.push (before ++ value)) rest := by
  induction value generalizing before with
  | nil =>
      rw [List.nil_append, List.append_nil, readFrom]
      · rfl
      · exact fun _ _ same _ => absurd same (by decide)
  | cons b others ih =>
      obtain ⟨first, later⟩ := List.forall_mem_cons.mp literal
      rw [List.cons_append, readFrom_literalByte _ _ first, Reading.push_push, ih later,
        List.append_assoc]
      rfl

/-- A value between double quotes goes on with the current word, or begins one, be it empty. -/
theorem readFrom_quoted {value : Bytes} (literal : Literal value) :
    readFrom .plain reading (0x22 :: value ++ 0x22 :: rest) =
      readFrom .plain (reading.push value) rest := by
  rw [List.cons_append, readFrom_plain _ _ (by decide)]
  exact readFrom_double _ _ literal []

end Pieces

/-! ### Words -/

/-- Text that gives a shell the bytes of a word, or of a part of one, wherever it stands outside of
quotes. Behind it the shell is outside of quotes again. -/
def Spells (written word : Bytes) : Prop :=
  ∀ (reading : Reading) (rest : Bytes),
    readFrom .plain reading (written ++ rest) = readFrom .plain (reading.push word) rest

theorem spells_bare {word : Bytes} (bare : Bare word) (nonempty : word ≠ []) :
    Spells word word :=
  fun reading rest => readFrom_bare reading rest bare nonempty

/-- Pieces side by side are parts of one word. -/
theorem Spells.append {written written' word word' : Bytes} (first : Spells written word)
    (second : Spells written' word') : Spells (written ++ written') (word ++ word') := by
  intro reading rest
  rw [List.append_assoc, first, second, Reading.push_push]

/-- Words with blanks between them are read up to the last one, which may go on. -/
theorem readFrom_words {written words : List Bytes} (spelled : List.Forall₂ Spells written words)
    (nonempty : words ≠ []) (before : List Bytes) (commands : List (List Bytes)) (rest : Bytes) :
    readFrom .plain ⟨none, before, commands⟩ ([0x20].intercalate written ++ rest) =
      readFrom .plain ⟨some (words.getLast nonempty), before ++ words.dropLast, commands⟩ rest := by
  induction spelled generalizing before with
  | nil => exact absurd rfl nonempty
  | @cons text word texts others spells later ih =>
      cases later with
      | nil =>
          rw [List.intercalate_singleton, spells, Reading.push_none]
          simp
      | cons next more =>
          rw [List.intercalate_cons_cons, List.append_assoc, List.append_assoc, spells,
            Reading.push_none, List.singleton_append, readFrom_blank, Reading.endWord_some,
            ih (List.cons_ne_nil _ _)]
          simp

/-- A line of words is one command. -/
theorem commands?_line {written words : List Bytes} (spelled : List.Forall₂ Spells written words)
    (nonempty : words ≠ []) :
    commands? ([0x20].intercalate written ++ [0x0A]) = some [words] := by
  rw [commands?, Reading.empty, readFrom_words spelled nonempty, readFrom_newline,
    Reading.endCommand_some, readFrom, Reading.endCommand_none]
  simp [List.dropLast_concat_getLast nonempty]

end BootImage.Shell
