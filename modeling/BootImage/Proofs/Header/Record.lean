import BootImage.Header.Parse

/-!
The record of a header by offsets. Reading proceeds field by field and hands on what is left;
here every field has the place that the layout of the record gives it, and needs no other. Main
statement: `Header.encode_ofRecord` says that what is read spells the record again.
-/

namespace BootImage

/-! ### Fields at their places -/

/-- The word at a place of a byte string, the least significant byte first. What is missing counts
as zero. -/
def Word.readAt (bytes : Bytes) (offset : Nat) : UInt32 :=
  Word.ofBytes (bytes.getD offset 0) (bytes.getD (offset + 1) 0) (bytes.getD (offset + 2) 0)
    (bytes.getD (offset + 3) 0)

/-- The field of a width at a place of a byte string. What is missing counts as zeros. -/
def Field.readAt (width : Nat) (bytes : Bytes) (offset : Nat) : Field width :=
  .padded width (bytes.drop offset)

/-- The four bytes at a place. -/
theorem drop_eq_four_cons {bytes : Bytes} {offset : Nat} (inside : offset + 4 ≤ bytes.length) :
    bytes.drop offset = bytes.getD offset 0 :: bytes.getD (offset + 1) 0 ::
      bytes.getD (offset + 2) 0 :: bytes.getD (offset + 3) 0 :: bytes.drop (offset + 4) := by
  have byte : ∀ i, i < bytes.length → bytes.drop i = bytes.getD i 0 :: bytes.drop (i + 1) := by
    intro i small
    rw [List.drop_eq_getElem_cons small, List.getD_eq_getElem?_getD,
      List.getElem?_eq_getElem small, Option.getD_some]
  rw [byte offset (by omega), byte (offset + 1) (by omega), byte (offset + 2) (by omega),
    byte (offset + 3) (by omega)]

/-- A word spells the four bytes at its place. -/
theorem Word.encode_readAt {bytes : Bytes} {offset : Nat} (inside : offset + 4 ≤ bytes.length) :
    Word.encode (Word.readAt bytes offset) = (bytes.drop offset).take 4 := by
  rw [Word.readAt, Word.encode_ofBytes, drop_eq_four_cons inside]
  rfl

/-- A field holds the bytes at its place. -/
theorem Field.bytes_readAt {width : Nat} {bytes : Bytes} {offset : Nat}
    (inside : offset + width ≤ bytes.length) :
    (Field.readAt width bytes offset).bytes = (bytes.drop offset).take width := by
  have enough : width ≤ (bytes.drop offset).length := by rw [List.length_drop]; omega
  exact List.take_append_of_le_length enough

/-! ### The whole record -/

namespace Header

/-- The header that a record spells, every field read at its offset. -/
def ofRecord (bytes : Bytes) : Header where
  kernelSize := Word.readAt bytes 8
  kernelAddr := Word.readAt bytes 12
  ramdiskSize := Word.readAt bytes 16
  ramdiskAddr := Word.readAt bytes 20
  secondSize := Word.readAt bytes 24
  secondAddr := Word.readAt bytes 28
  tagsAddr := Word.readAt bytes 32
  pageSize := Word.readAt bytes 36
  headerVersion := Word.readAt bytes 40
  osRelease := ⟨Word.readAt bytes 44⟩
  boardName := Field.readAt 16 bytes 48
  cmdline := Field.readAt 512 bytes 64
  id := ⟨Field.readAt ImageId.size bytes 576⟩
  extraCmdline := Field.readAt 1024 bytes 608

/-- What is read from a complete record spells it again. -/
theorem encode_ofRecord {bytes : Bytes} (complete : size ≤ bytes.length)
    (starts : bytes.take magic.length = magic) : (ofRecord bytes).encode = bytes.take size := by
  have word : ∀ offset, offset + 4 ≤ 1632 →
      Word.encode (Word.readAt bytes offset) = (bytes.drop offset).take 4 :=
    fun offset inside => Word.encode_readAt (Nat.le_trans inside complete)
  have field : ∀ width offset, offset + width ≤ 1632 →
      (Field.readAt width bytes offset).bytes = (bytes.drop offset).take width :=
    fun width offset inside => Field.bytes_readAt (Nat.le_trans inside complete)
  have identifier : (Field.readAt ImageId.size bytes 576).bytes = (bytes.drop 576).take 32 :=
    field ImageId.size 576 (by decide)
  have join : ∀ first second, bytes.take first ++ (bytes.drop first).take second =
      bytes.take (first + second) := fun _ _ => List.take_add.symm
  rw [encode, ← starts]
  simp only [encodeFields, words, ofRecord, List.flatMap_cons, List.flatMap_nil, word, field,
    identifier, Nat.reduceAdd, Nat.reduceLeDiff, List.append_nil, show magic.length = 8 from rfl,
    ← List.append_assoc, join, size]

end Header

end BootImage
