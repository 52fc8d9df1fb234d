import Mathlib.Data.List.Basic
import BootImage.Text

/-!
What can be read back from text. Encoding a text loses nothing, digits spell one number whatever
zeros stand before them, and a text is divided in one way only at a mark that what follows it does
not hold.
-/

namespace BootImage

/-! ### Marks -/

section Marks

variable {α : Type} {mark : α} {before before' value value' : List α}

/-- **A text is divided at its last mark.** What follows the mark does not hold it, so both parts
are the same in every division. -/
theorem append_mark_inj (free : mark ∉ value) (free' : mark ∉ value')
    (same : before ++ mark :: value = before' ++ mark :: value') :
    before = before' ∧ value = value' := by
  rcases List.append_eq_append_iff.mp same with ⟨rest, rfl, tail⟩ | ⟨rest, rfl, tail⟩
  · cases rest with
    | nil => exact ⟨(List.append_nil _).symm, List.tail_eq_of_cons_eq tail⟩
    | cons first others =>
        rw [List.tail_eq_of_cons_eq tail] at free
        exact absurd (List.mem_append_right others List.mem_cons_self) free
  · cases rest with
    | nil => exact ⟨List.append_nil _, (List.tail_eq_of_cons_eq tail).symm⟩
    | cons first others =>
        rw [List.tail_eq_of_cons_eq tail] at free'
        exact absurd (List.mem_append_right others List.mem_cons_self) free'

/-- What follows one mark is not longer than what follows the other, when the mark is wanting
from a stretch before it. -/
theorem length_le_of_gap {gap gap' : List α} (wanting : mark ∉ gap')
    (short : value.length ≤ gap'.length)
    (same : before ++ gap ++ mark :: value = before' ++ gap' ++ mark :: value') :
    value.length ≤ value'.length := by
  rcases List.append_eq_append_iff.mp same with ⟨rest, front, tail⟩ | ⟨rest, -, tail⟩
  · cases rest with
    | nil => exact Nat.le_of_eq (congrArg List.length (List.tail_eq_of_cons_eq tail))
    | cons first others =>
        -- The other text has the first mark within the stretch that lacks it.
        obtain rfl : mark = first := List.head_eq_of_cons_eq tail
        have split : value = others ++ mark :: value' := List.tail_eq_of_cons_eq tail
        rw [split, List.length_append, List.length_cons] at short
        have within : mark :: others <:+ gap' := by
          refine List.suffix_of_suffix_length_le ⟨_, front.symm⟩ ⟨_, rfl⟩ ?_
          rw [List.length_cons]
          omega
        exact absurd (within.subset List.mem_cons_self) wanting
  · cases rest with
    | nil => exact Nat.le_of_eq (congrArg List.length (List.tail_eq_of_cons_eq tail).symm)
    | cons first others =>
        have split : value' = others ++ mark :: value := List.tail_eq_of_cons_eq tail
        rw [split, List.length_append, List.length_cons]
        omega

/-- **A text is divided at a mark before a short value.** The value may hold the mark, but neither
is longer than the stretch without a mark in front of the other. -/
theorem append_gap_inj {gap gap' : List α} (wanting : mark ∉ gap) (wanting' : mark ∉ gap')
    (short : value.length ≤ gap'.length) (short' : value'.length ≤ gap.length)
    (same : before ++ gap ++ mark :: value = before' ++ gap' ++ mark :: value') :
    before ++ gap = before' ++ gap' ∧ value = value' := by
  have length := Nat.le_antisymm (length_le_of_gap wanting' short same)
    (length_le_of_gap wanting short' same.symm)
  have tails : (mark :: value).length = (mark :: value').length := by
    rw [List.length_cons, List.length_cons, length]
  obtain ⟨front, tail⟩ := List.append_inj' same tails
  exact ⟨front, List.tail_eq_of_cons_eq tail⟩

/-- A text is divided at its last separator of one character. -/
theorem append_separator_inj {separator before before' value value' : String} {mark : Char}
    (single : separator.toList = [mark]) (free : mark ∉ value.toList) (free' : mark ∉ value'.toList)
    (same : before ++ separator ++ value = before' ++ separator ++ value') :
    before = before' ∧ value = value' := by
  have characters := congrArg String.toList same
  simp only [String.toList_append, single, List.append_assoc, List.singleton_append] at characters
  obtain ⟨front, back⟩ := append_mark_inj free free' characters
  exact ⟨String.toList_injective front, String.toList_injective back⟩

end Marks

/-! ### Encoded text -/

/-- Two texts with the same bytes are the same. -/
theorem Utf8.encode_injective {left right : String} (same : encode left = encode right) :
    left = right := by
  have bytes : left.toList.utf8Encode = right.toList.utf8Encode := congrArg List.toByteArray same
  rw [String.utf8Encode_toList, String.utf8Encode_toList] at bytes
  exact String.toByteArray_inj.mp bytes

/-- The bytes of a text are those of its characters. -/
theorem Utf8.forall_mem_encode {text : String} {holds : UInt8 → Prop}
    (all : ∀ c ∈ text.toList, ∀ b ∈ String.utf8EncodeChar c, holds b) :
    ∀ b ∈ encode text, holds b := by
  intro b mem
  obtain ⟨c, among, inside⟩ := List.mem_flatMap.mp mem
  exact all c among b inside

/-! ### Digits -/

namespace Numeral

def digitValue (c : Char) : Nat :=
  if c.isDigit then c.toNat - '0'.toNat else c.toNat - 'a'.toNat + 10

def valueOf (base : Nat) (digits : List Char) : Nat :=
  digits.foldl (fun value c => base * value + digitValue c) 0

theorem digitValue_digitChar {d : Nat} (small : d < 16) : digitValue d.digitChar = d := by
  have all : ∀ d < 16, digitValue (Nat.digitChar d) = d := by decide
  exact all d small

theorem valueOf_snoc (base : Nat) (front : List Char) (last : Char) :
    valueOf base (front ++ [last]) = base * valueOf base front + digitValue last := by
  rw [valueOf, List.foldl_append, List.foldl_cons, List.foldl_nil, valueOf]

variable {base : Nat}

theorem valueOf_toDigits (two : 1 < base) (sixteen : base ≤ 16) (n : Nat) :
    valueOf base (Nat.toDigits base n) = n := by
  induction n using Nat.strongRecOn with
  | ind n ih =>
      rw [Nat.toDigits_eq_if two]
      split
      · rename_i single
        have value := digitValue_digitChar (Nat.lt_of_lt_of_le single sixteen)
        simpa [valueOf] using value
      · rename_i several
        have last := Nat.mod_lt n (Nat.zero_lt_of_lt two)
        have front := ih (n / base) (Nat.div_lt_self (by omega) two)
        rw [valueOf_snoc, front, digitValue_digitChar (Nat.lt_of_lt_of_le last sixteen),
          Nat.div_add_mod]

/-- Zeros in front add nothing. -/
theorem valueOf_zeros (base count : Nat) (rest : List Char) :
    valueOf base (List.replicate count '0' ++ rest) = valueOf base rest := by
  induction count with
  | zero => rfl
  | succ count ih =>
      rw [← ih, List.replicate_succ, List.cons_append, valueOf, List.foldl_cons]
      rfl

/-- **Digits spell their number**, with zeros in front and without. -/
theorem valueOf_digits (two : 1 < base) (sixteen : base ≤ 16) (width n : Nat) :
    valueOf base (digits base width n) = n := by
  rw [digits, List.leftpad, valueOf_zeros, valueOf_toDigits two sixteen]

/-- Every digit is one of the sixteen. -/
theorem exists_digitChar (two : 1 < base) (sixteen : base ≤ 16) {width n : Nat} {c : Char}
    (mem : c ∈ digits base width n) : ∃ d < 16, c = Nat.digitChar d := by
  rw [digits, List.leftpad, List.mem_append] at mem
  rcases mem with zero | digit
  · exact ⟨0, by decide, List.eq_of_mem_replicate zero⟩
  · induction n using Nat.strongRecOn with
    | ind n ih =>
        rw [Nat.toDigits_eq_if two] at digit
        split at digit
        · rename_i single
          exact ⟨n, Nat.lt_of_lt_of_le single sixteen, List.mem_singleton.mp digit⟩
        · rename_i several
          have last := Nat.mod_lt n (Nat.zero_lt_of_lt two)
          rcases List.mem_append.mp digit with front | back
          · exact ih (n / base) (Nat.div_lt_self (by omega) two) front
          · exact ⟨n % base, Nat.lt_of_lt_of_le last sixteen, List.mem_singleton.mp back⟩

/-- What is no digit does not stand among digits. -/
theorem notMem_digits (two : 1 < base) (sixteen : base ≤ 16) {width n : Nat} {c : Char}
    (other : ∀ d < 16, c ≠ Nat.digitChar d) : c ∉ (String.ofList (digits base width n)).toList := by
  intro mem
  rw [String.toList_ofList] at mem
  obtain ⟨d, small, same⟩ := exists_digitChar two sixteen mem
  exact other d small same

/-- What holds of the bytes of all sixteen digits holds of written digits. -/
theorem forall_mem_encode_digits (two : 1 < base) (sixteen : base ≤ 16) {width n : Nat}
    {holds : UInt8 → Prop}
    (all : ∀ d < 16, ∀ b ∈ String.utf8EncodeChar (Nat.digitChar d), holds b) :
    ∀ b ∈ Utf8.encode (String.ofList (digits base width n)), holds b := by
  refine Utf8.forall_mem_encode ?_
  intro c mem
  rw [String.toList_ofList] at mem
  obtain ⟨d, small, rfl⟩ := exists_digitChar two sixteen mem
  exact all d small

theorem digits_injective (two : 1 < base) (sixteen : base ≤ 16) {width m n : Nat}
    (same : digits base width m = digits base width n) : m = n := by
  rw [← valueOf_digits two sixteen width m, same, valueOf_digits two sixteen]

theorem decimal_injective {m n : Nat} (same : decimal m = decimal n) : m = n :=
  digits_injective (by decide) (by decide) (String.ofList_injective same)

theorem paddedDecimal_injective {width m n : Nat}
    (same : paddedDecimal width m = paddedDecimal width n) : m = n :=
  digits_injective (by decide) (by decide) (String.ofList_injective same)

theorem hex_injective {m n : Nat} (same : hex m = hex n) : m = n := by
  have characters := congrArg String.toList same
  simp only [hex, String.toList_append, String.toList_ofList] at characters
  exact digits_injective (by decide) (by decide) (List.append_cancel_left characters)

end Numeral

end BootImage
