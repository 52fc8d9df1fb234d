/-!
Byte strings, and the fields and words that records are made of.

* `Bytes.untilNul`: the text that a NUL-terminated field holds.
* `Bytes.pieces`: cutting at a separator; `Bytes.intercalate_pieces` says that nothing is lost.
* `Field`: a byte string that carries its width.
* `Word`: 32-bit words as four bytes, the least significant first. `Word.encode` and `Word.ofBytes`
  undo each other, so a word field can be read back and holds nothing else.
-/

namespace BootImage

abbrev Bytes := List UInt8

namespace Bytes

/-- The bytes before the first NUL, all of them when there is none. -/
def untilNul (bytes : Bytes) : Bytes :=
  bytes.takeWhile (· ≠ 0)

/-- The text of a NUL-terminated field holds no NUL. -/
theorem zero_notMem_untilNul (bytes : Bytes) : (0 : UInt8) ∉ untilNul bytes := by
  induction bytes with
  | nil => simp [untilNul]
  | cons b rest ih =>
      by_cases h : b = 0
      · simp [untilNul, h]
      · simpa [untilNul, h, Ne.symm h] using ih

/-- The pieces between separators, one more than there are separators. -/
def pieces (separator : UInt8) : Bytes → List Bytes
  | [] => [[]]
  | b :: rest =>
      if b = separator then [] :: pieces separator rest
      else
        match pieces separator rest with
        | [] => [[b]]
        | piece :: others => (b :: piece) :: others

/-- There is always a piece, be it an empty one. -/
theorem pieces_ne_nil (separator : UInt8) (bytes : Bytes) : pieces separator bytes ≠ [] := by
  cases bytes with
  | nil => simp [pieces]
  | cons b rest =>
      simp only [pieces]
      split
      · simp
      · split <;> simp

/-- Writing the separator between the pieces gives the byte string back. -/
theorem intercalate_pieces (separator : UInt8) (bytes : Bytes) :
    [separator].intercalate (pieces separator bytes) = bytes := by
  induction bytes with
  | nil => rfl
  | cons b rest ih =>
      simp only [pieces]
      cases found : pieces separator rest with
      | nil => exact absurd found (pieces_ne_nil _ _)
      | cons piece others =>
          rw [found] at ih
          split
          · rename_i same
            subst same
            simp [List.intercalate] at ih ⊢
            exact ih
          · cases others with
            | nil => simpa [List.intercalate] using ih
            | cons _ _ => simpa [List.intercalate] using ih

/-- The same bytes in decimal, in brackets and with commas between them: `[65, 78]`. -/
def listText (bytes : Bytes) : String :=
  "[" ++ ", ".intercalate (bytes.map fun b => toString b.toNat) ++ "]"

end Bytes

/-- A record field of exactly `width` bytes. -/
structure Field (width : Nat) where
  bytes : Bytes
  length_bytes : bytes.length = width
  deriving DecidableEq

namespace Field

/-- A byte string cut to the width, or filled up to it with zero bytes. -/
def padded (width : Nat) (bytes : Bytes) : Field width where
  bytes := (bytes ++ List.replicate width 0).take width
  length_bytes := by simp

def text {width : Nat} (field : Field width) : Bytes :=
  field.bytes.untilNul

@[ext] theorem ext {width : Nat} {left right : Field width} (h : left.bytes = right.bytes) :
    left = right := by
  cases left; cases right; simp_all

end Field

end BootImage

namespace BootImage.Word

def encode (word : UInt32) : Bytes :=
  [UInt8.ofNat word.toNat, UInt8.ofNat (word.toNat / 256), UInt8.ofNat (word.toNat / 65536),
    UInt8.ofNat (word.toNat / 16777216)]

/-- The word whose bytes are given, the least significant first. -/
def ofBytes (b₀ b₁ b₂ b₃ : UInt8) : UInt32 :=
  UInt32.ofNat (b₀.toNat + 256 * (b₁.toNat + 256 * (b₂.toNat + 256 * b₃.toNat)))

@[simp] theorem length_encode (word : UInt32) : (encode word).length = 4 := rfl

/-- The word at the front of a byte string, and what follows it. -/
def decode? : Bytes → Option (UInt32 × Bytes)
  | b₀ :: b₁ :: b₂ :: b₃ :: rest => some (ofBytes b₀ b₁ b₂ b₃, rest)
  | _ => none

theorem decode?_encode (word : UInt32) (rest : Bytes) :
    decode? (encode word ++ rest) = some (word, rest) := by
  have bound := word.toNat_lt
  simp only [encode, List.cons_append, List.nil_append, decode?, ofBytes, Option.some.injEq,
    Prod.mk.injEq, and_true]
  apply UInt32.toNat.inj
  simp only [UInt32.toNat_ofNat', UInt8.toNat_ofNat']
  omega

theorem encode_ofBytes (b₀ b₁ b₂ b₃ : UInt8) : encode (ofBytes b₀ b₁ b₂ b₃) = [b₀, b₁, b₂, b₃] := by
  have h₀ := b₀.toNat_lt
  have h₁ := b₁.toNat_lt
  have h₂ := b₂.toNat_lt
  have h₃ := b₃.toNat_lt
  simp only [encode, ofBytes, UInt32.toNat_ofNat', List.cons.injEq, and_true]
  refine ⟨?_, ?_, ?_, ?_⟩ <;> apply UInt8.toNat.inj <;> simp only [UInt8.toNat_ofNat'] <;> omega

end BootImage.Word
