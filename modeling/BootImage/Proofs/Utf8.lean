import Mathlib.Data.List.Forall2
import BootImage.Text

/-!
UTF-8 that is well-formed comes back as it was. The bytes of a character are a first byte and the
bytes that complete it, each in the range that the first byte asks for (`charsFrom_encodeChar`); so
reading stops behind every character, and reads the one that was written (`decodeLossy_encode`).
-/

namespace BootImage.Utf8

def InRange (range : ByteRange) (b : UInt8) : Prop :=
  range.1 ≤ b ∧ b ≤ range.2

/-! ### One character among others -/

/-- Bytes in their ranges are all taken, and none behind them. -/
theorem following_append {ranges : List ByteRange} {tail : Bytes}
    (within : List.Forall₂ InRange ranges tail) (rest : Bytes) :
    following ranges (tail ++ rest) = tail := by
  induction within with
  | nil => simp [following]
  | @cons range b _ _ first _ ih =>
      have first : range.1 ≤ b ∧ b ≤ range.2 := first
      rw [List.cons_append, following, if_pos first, ih]

/-- Reading skips what was dealt with. -/
theorem charsFrom_append (tail rest : Bytes) :
    charsFrom tail.length (tail ++ rest) = charsFrom 0 rest := by
  induction tail with
  | nil => rfl
  | cons b others ih => rw [List.length_cons, List.cons_append, charsFrom, ih]

/-- A complete sequence is read as one character. -/
theorem charsFrom_complete {lead : UInt8} {tail : Bytes} {ranges : List ByteRange}
    (starts : followers lead = some ranges) (within : List.Forall₂ InRange ranges tail)
    (rest : Bytes) :
    charsFrom 0 (lead :: (tail ++ rest)) = Char.ofNat (codePoint lead tail) :: charsFrom 0 rest := by
  have taken := following_append within rest
  have complete : tail.length = ranges.length := within.length_eq.symm
  rw [charsFrom, starts]
  simp only [taken, if_pos complete, charsFrom_append]

/-! ### Bytes as numbers -/

/-- What may follow a first byte, by its number. -/
theorem followers_eq (lead : UInt8) :
    followers lead =
      if lead.toNat < 0x80 then some []
      else if lead.toNat < 0xC2 then none
      else if lead.toNat < 0xE0 then some [continuation]
      else if lead.toNat = 0xE0 then some [(0xA0, 0xBF), continuation]
      else if lead.toNat = 0xED then some [(0x80, 0x9F), continuation]
      else if lead.toNat < 0xF0 then some [continuation, continuation]
      else if lead.toNat = 0xF0 then some [(0x90, 0xBF), continuation, continuation]
      else if lead.toNat < 0xF4 then some [continuation, continuation, continuation]
      else if lead.toNat = 0xF4 then some [(0x80, 0x8F), continuation, continuation]
      else none := by
  simp only [followers, UInt8.lt_iff_toNat_lt, ← UInt8.toNat_inj]
  rfl

theorem inRange_iff {low high b : UInt8} :
    InRange (low, high) b ↔ low.toNat ≤ b.toNat ∧ b.toNat ≤ high.toNat := by
  simp only [InRange, UInt8.le_iff_toNat_le]

theorem toNat_byte {value : Nat} (small : value < 256) : (UInt8.ofNat value).toNat = value :=
  UInt8.toNat_ofNat_of_lt' small

/-- The bits of a first byte, by its number. -/
theorem leadBits_eq (lead : UInt8) :
    leadBits lead =
      if lead.toNat < 0x80 then lead.toNat
      else if lead.toNat < 0xE0 then lead.toNat % 32
      else if lead.toNat < 0xF0 then lead.toNat % 16
      else lead.toNat % 8 := by
  simp only [leadBits, UInt8.lt_iff_toNat_lt]
  rfl

theorem leadBits_one {bits : Nat} (small : bits < 128) : leadBits (UInt8.ofNat bits) = bits := by
  rw [leadBits_eq, toNat_byte (by omega), if_pos (by omega)]

theorem leadBits_two {bits : Nat} (small : bits < 32) :
    leadBits (UInt8.ofNat (bits + 0xC0)) = bits := by
  rw [leadBits_eq, toNat_byte (by omega), if_neg (by omega), if_pos (by omega)]
  omega

theorem leadBits_three {bits : Nat} (small : bits < 16) :
    leadBits (UInt8.ofNat (bits + 0xE0)) = bits := by
  rw [leadBits_eq, toNat_byte (by omega), if_neg (by omega), if_neg (by omega), if_pos (by omega)]
  omega

theorem leadBits_four {bits : Nat} (small : bits < 8) :
    leadBits (UInt8.ofNat (bits + 0xF0)) = bits := by
  rw [leadBits_eq, toNat_byte (by omega), if_neg (by omega), if_neg (by omega), if_neg (by omega)]
  omega

theorem toNat_continuation {bits : Nat} (small : bits < 64) :
    (UInt8.ofNat (bits + 0x80)).toNat % 64 = bits := by
  rw [toNat_byte (by omega)]
  omega

/-- Six bits make a continuation byte. -/
theorem inRange_continuation {bits : Nat} (small : bits < 64) :
    InRange continuation (UInt8.ofNat (bits + 0x80)) := by
  rw [continuation, inRange_iff, toNat_byte (by omega)]
  simp
  omega

/-- The second of three bytes is in its range as long as the first ones are not those of a shorter
sequence or of a surrogate. -/
theorem exists_followers_three {high middle : Nat} (first : high < 16) (second : middle < 64)
    (long : high = 0 → 32 ≤ middle) (scalar : high = 13 → middle < 32) :
    ∃ range, followers (UInt8.ofNat (high + 0xE0)) = some [range, continuation] ∧
      InRange range (UInt8.ofNat (middle + 0x80)) := by
  rw [followers_eq, toNat_byte (by omega), if_neg (by omega), if_neg (by omega), if_neg (by omega)]
  by_cases shortest : high = 0
  · refine ⟨(0xA0, 0xBF), ?_, ?_⟩
    · rw [if_pos (by omega)]
    · rw [inRange_iff, toNat_byte (by omega)]
      have := long shortest
      simp
      omega
  · rw [if_neg (by omega)]
    by_cases surrogate : high = 13
    · refine ⟨(0x80, 0x9F), ?_, ?_⟩
      · rw [if_pos (by omega)]
      · rw [inRange_iff, toNat_byte (by omega)]
        have := scalar surrogate
        simp
        omega
    · refine ⟨continuation, ?_, inRange_continuation second⟩
      rw [if_neg (by omega), if_pos (by omega)]

/-- The second of four bytes is in its range as long as the first ones are not those of a shorter
sequence or of a number behind the last code point. -/
theorem exists_followers_four {high middle : Nat} (first : high ≤ 4) (second : middle < 64)
    (long : high = 0 → 16 ≤ middle) (scalar : high = 4 → middle < 16) :
    ∃ range, followers (UInt8.ofNat (high + 0xF0)) = some [range, continuation, continuation] ∧
      InRange range (UInt8.ofNat (middle + 0x80)) := by
  rw [followers_eq, toNat_byte (by omega), if_neg (by omega), if_neg (by omega), if_neg (by omega),
    if_neg (by omega), if_neg (by omega), if_neg (by omega)]
  by_cases shortest : high = 0
  · refine ⟨(0x90, 0xBF), ?_, ?_⟩
    · rw [if_pos (by omega)]
    · rw [inRange_iff, toNat_byte (by omega)]
      have := long shortest
      simp
      omega
  · rw [if_neg (by omega)]
    by_cases last : high = 4
    · refine ⟨(0x80, 0x8F), ?_, ?_⟩
      · rw [if_neg (by omega), if_pos (by omega)]
      · rw [inRange_iff, toNat_byte (by omega)]
        have := scalar last
        simp
        omega
    · refine ⟨continuation, ?_, inRange_continuation second⟩
      rw [if_pos (by omega)]

/-! ### Characters -/

/-- The bytes of a character are complete, and spell its code point. -/
theorem exists_encodeChar (c : Char) :
    ∃ lead tail ranges, String.utf8EncodeChar c = lead :: tail ∧ followers lead = some ranges ∧
      List.Forall₂ InRange ranges tail ∧ codePoint lead tail = c.toNat := by
  have valid : c.toNat < 0xD800 ∨ 0xDFFF < c.toNat ∧ c.toNat < 0x110000 := c.valid
  have value : c.val.toNat = c.toNat := rfl
  have six : ∀ bits, bits % 64 < 64 := fun bits => Nat.mod_lt bits (by decide)
  unfold String.utf8EncodeChar
  simp only [value]
  split
  case isTrue single =>
    refine ⟨_, [], [], rfl, ?_, .nil, leadBits_one (by omega)⟩
    rw [followers_eq, toNat_byte (by omega), if_pos (by omega)]
  split
  case isTrue double =>
    have five : c.toNat / 64 % 32 < 32 := Nat.mod_lt _ (by decide)
    refine ⟨_, _, [continuation], rfl, ?_, .cons (inRange_continuation (six _)) .nil, ?_⟩
    · rw [followers_eq, toNat_byte (by omega), if_neg (by omega), if_neg (by omega),
        if_pos (by omega)]
    · simp only [codePoint, List.foldl_cons, List.foldl_nil, toNat_continuation (six _),
        leadBits_two five]
      omega
  split
  case isTrue triple =>
    have four : c.toNat / 4096 % 16 < 16 := Nat.mod_lt _ (by decide)
    obtain ⟨range, starts, second⟩ :=
      exists_followers_three four (six (c.toNat / 64)) (by omega) (by omega)
    refine ⟨_, _, _, rfl, starts, .cons second (.cons (inRange_continuation (six _)) .nil), ?_⟩
    simp only [codePoint, List.foldl_cons, List.foldl_nil, toNat_continuation (six _),
      leadBits_three four]
    omega
  case isFalse quadruple =>
    have three : c.toNat / 262144 % 8 < 8 := Nat.mod_lt _ (by decide)
    obtain ⟨range, starts, second⟩ :=
      exists_followers_four (show c.toNat / 262144 % 8 ≤ 4 by omega) (six (c.toNat / 4096))
        (by omega) (by omega)
    refine ⟨_, _, _, rfl, starts, .cons second (.cons (inRange_continuation (six _))
      (.cons (inRange_continuation (six _)) .nil)), ?_⟩
    simp only [codePoint, List.foldl_cons, List.foldl_nil, toNat_continuation (six _),
      leadBits_four three]
    omega

/-- A character comes back before the rest is read. -/
theorem charsFrom_encodeChar (c : Char) (rest : Bytes) :
    charsFrom 0 (String.utf8EncodeChar c ++ rest) = c :: charsFrom 0 rest := by
  obtain ⟨lead, tail, ranges, spelled, starts, within, value⟩ := exists_encodeChar c
  rw [spelled, List.cons_append, charsFrom_complete starts within, value, Char.ofNat_toNat]

/-- **Well-formed text comes back as it was.** -/
theorem decodeLossy_encode (text : String) : decodeLossy (encode text) = text := by
  have chars : ∀ chars : List Char, charsFrom 0 (chars.flatMap String.utf8EncodeChar) = chars := by
    intro chars
    induction chars with
    | nil => rfl
    | cons c rest ih => rw [List.flatMap_cons, charsFrom_encodeChar, ih]
  rw [decodeLossy, encode, chars, String.ofList_toList]

end BootImage.Utf8
