import Mathlib.Logic.Equiv.Defs
import BootImage.Header.Parse
import BootImage.Proofs.Header.Decision

/-!
What a cursor reads of a byte string. `Cursor.Takes` says of a reading that it takes the next bytes,
so many of them, and nothing when there are fewer; such readings are put together by
`Cursor.Takes.bind`, so the fields of a record take as many bytes as a record has.

* `Header.decodeAt_eq_readAt`: reading with a cursor decodes what decoding at a place does.
* `Header.recordEquiv`: headers and complete records are one-to-one.
* `Header.readAt_exact`: which bytes are read as which header, and where the cursor ends.
-/

namespace BootImage

variable {α β : Type} {data : Bytes} {position : Nat}

/-- Fewer than four bytes are no word. -/
theorem Word.decode?_of_short {bytes : Bytes} (short : bytes.length < 4) :
    decode? bytes = none := by
  unfold decode?
  split
  · simp only [List.length_cons] at short
    omega
  · rfl

theorem Word.readAt_drop (data : Bytes) (position offset : Nat) :
    Word.readAt (data.drop position) offset = Word.readAt data (position + offset) := by
  simp only [Word.readAt, List.getD_eq_getElem?_getD, List.getElem?_drop, Nat.add_assoc]

theorem Field.readAt_drop (width : Nat) (data : Bytes) (position offset : Nat) :
    Field.readAt width (data.drop position) offset =
      Field.readAt width data (position + offset) := by
  rw [Field.readAt, List.drop_drop, Field.readAt]

namespace Cursor

/-! ### How far a cursor moves -/

/-- A reading takes the next bytes, so many of them, and fails where there are fewer. -/
def Takes (data : Bytes) (cursor : Cursor α) (width : Nat) (value : Nat → α) : Prop :=
  ∀ position, cursor position =
    if position + width ≤ data.length then some (value position, position + width) else none

theorem bind_apply (cursor : Cursor α) (next : α → Cursor β) (position : Nat) :
    (cursor >>= next) position = (cursor position).bind fun read => next read.1 read.2 :=
  rfl

theorem takes_word (data : Bytes) : Takes data (word data) 4 (Word.readAt data) := by
  intro position
  unfold word
  split
  · rename_i inside
    rw [drop_eq_four_cons inside]
    rfl
  · rename_i short
    rw [Word.decode?_of_short (by rw [List.length_drop]; omega), Option.map_none]

theorem takes_field (data : Bytes) (width : Nat) :
    Takes data (field data (width + 1)) (width + 1) (Field.readAt (width + 1) data) := by
  intro position
  have left : (data.drop position).length = data.length - position := List.length_drop
  unfold field Field.decode?
  by_cases enough : position + (width + 1) ≤ data.length
  · have bytes := Field.bytes_readAt enough
    rw [dif_pos (by omega), if_pos enough, Option.map_some]
    simp only [← bytes]
  · rw [dif_neg (by omega), if_neg enough, Option.map_none]

/-- Two readings, one behind the other, take what both of them take. -/
theorem Takes.bind {cursor : Cursor α} {width more : Nat} {value : Nat → α} {next : α → Cursor β}
    {value' : α → Nat → β} (first : Takes data cursor width value)
    (rest : ∀ found, Takes data (next found) more (value' found)) :
    Takes data (cursor >>= next) (width + more)
      fun position => value' (value position) (position + width) := by
  intro position
  rw [bind_apply, first position]
  by_cases enough : position + (width + more) ≤ data.length
  · rw [if_pos (by omega), if_pos enough, Option.bind_some, rest, if_pos (by omega), Nat.add_assoc]
  · rw [if_neg enough]
    split
    · rw [Option.bind_some, rest, if_neg (by omega)]
    · rfl

theorem Takes.map {cursor : Cursor α} {width : Nat} {value : Nat → α}
    (taken : Takes data cursor width value) (f : α → β) :
    Takes data (cursor >>= fun found => pure (f found)) width fun position =>
      f (value position) := by
  intro position
  rw [bind_apply, taken position]
  split <;> rfl

/-! ### Cursors and what is left of the bytes -/

/-- A cursor reads what a reader takes off the front of the bytes that are left. -/
def Follows (data : Bytes) (cursor : Cursor α) (reader : Bytes → Option (α × Bytes)) : Prop :=
  ∀ position, reader (data.drop position) =
    (cursor position).map fun read => (read.1, data.drop read.2)

theorem follows_word (data : Bytes) : Follows data (word data) Word.decode? := by
  intro position
  rw [takes_word data position]
  split
  · rename_i inside
    rw [drop_eq_four_cons inside]
    rfl
  · rename_i short
    rw [Word.decode?_of_short (by rw [List.length_drop]; omega), Option.map_none]

theorem follows_field (data : Bytes) (width : Nat) :
    Follows data (field data width) (Field.decode? width) := by
  intro position
  unfold field Field.decode?
  split
  · rw [List.drop_drop]
    rfl
  · rfl

/-- What comes of a value that was read and of the bytes behind it comes of the cursor there. -/
theorem Follows.bind {cursor : Cursor α} {reader : Bytes → Option (α × Bytes)}
    {next : α → Cursor β} {more : α × Bytes → Option β} (follows : Follows data cursor reader)
    (rest : ∀ found behind, more (found, data.drop behind) = (next found behind).map (·.1))
    (position : Nat) :
    (reader (data.drop position) >>= more) = ((cursor >>= next) position).map (·.1) := by
  rw [follows position, bind_apply]
  cases cursor position with
  | none => rfl
  | some read => exact rest read.1 read.2

end Cursor

namespace Header

open Cursor

/-- The fields take as many bytes as a record has behind its magic. -/
theorem scan_eq (data : Bytes) (position : Nat) :
    scan data (position + 8) =
      if position + 1632 ≤ data.length then
        some (ofRecord (data.drop position), position + 1632)
      else none := by
  have word := takes_word data
  have taken := word.bind fun kernelSize => word.bind fun kernelAddr =>
    word.bind fun ramdiskSize => word.bind fun ramdiskAddr => word.bind fun secondSize =>
    word.bind fun secondAddr => word.bind fun tagsAddr => word.bind fun pageSize =>
    word.bind fun headerVersion => word.bind fun osRelease =>
    (takes_field data 15).bind fun boardName => (takes_field data 511).bind fun cmdline =>
    (takes_field data 31).bind fun id => (takes_field data 1023).map fun extraCmdline =>
      (⟨kernelSize, kernelAddr, ramdiskSize, ramdiskAddr, secondSize, secondAddr, tagsAddr,
        pageSize, headerVersion, ⟨osRelease⟩, boardName, cmdline, ⟨id⟩, extraCmdline⟩ : Header)
  refine (taken (position + 8)).trans ?_
  simp only [ofRecord, Word.readAt_drop, Field.readAt_drop]
  rfl

/-- What a cursor reads, by what there is at its place. -/
theorem readAt_eq (data : Bytes) (position : Nat) :
    readAt data position =
      if data.length < position + 8 then (.error (.io .endOfInput), position)
      else if (data.drop position).take 8 = magic then
        if position + 1632 ≤ data.length then
          (.ok (ofRecord (data.drop position)), position + 1632)
        else (.error (.malformed .cutField), position)
      else (.error (.malformed (.wrongMagic position ((data.drop position).take 8))), position) := by
  have front : (field data magic.length).run position = _ := takes_field data 7 position
  have fields : (scan data).run (position + 8) = _ := scan_eq data position
  unfold readAt
  by_cases few : data.length < position + 8
  · rw [if_neg (by omega)] at front
    rw [if_pos few, front]
  · have inside : position + 8 ≤ data.length := by omega
    have found : (Field.readAt 8 data position).bytes = (data.drop position).take 8 :=
      Field.bytes_readAt inside
    rw [if_pos inside] at front
    rw [if_neg few, front, ← found]
    simp only [fields]
    by_cases starts : (Field.readAt 8 data position).bytes = magic
    · rw [if_pos starts, if_pos starts]
      by_cases enough : position + 1632 ≤ data.length
      · rw [if_pos enough, if_pos enough]
      · rw [if_neg enough, if_neg enough]
    · rw [if_neg starts, if_neg starts]

/-- Decoding what is left of the bytes is reading on with a cursor. -/
theorem decodeFields?_drop (data : Bytes) (position : Nat) :
    decodeFields? (data.drop position) = (scan data position).map (·.1) := by
  have word := follows_word data
  have field := follows_field data
  refine (word.bind fun kernelSize => word.bind fun kernelAddr => word.bind fun ramdiskSize =>
    word.bind fun ramdiskAddr => word.bind fun secondSize => word.bind fun secondAddr =>
    word.bind fun tagsAddr => word.bind fun pageSize => word.bind fun headerVersion =>
    word.bind fun osRelease => (field 16).bind fun boardName => (field 512).bind fun cmdline =>
    (field ImageId.size).bind fun id => (field 1024).bind fun extraCmdline _ => ?_) position
  rfl

/-! ### Records -/

/-- As many bytes as a header takes, the magic first. -/
structure Record where
  bytes : Bytes
  length_bytes : bytes.length = 1632
  starts : bytes.take 8 = Utf8.encode "ANDROID!"

@[ext] theorem Record.ext {left right : Record} (same : left.bytes = right.bytes) :
    left = right := by
  cases left
  cases right
  simp_all

/-- Headers and complete records are one-to-one. -/
def recordEquiv : Header ≃ Record where
  toFun header :=
    { bytes := header.encode
      length_bytes := header.length_encode
      starts := by rw [encode, ← magic_eq]; rfl }
  invFun record := ofRecord record.bytes
  left_inv header := by
    have read := ofRecord_encode_append header []
    rwa [List.append_nil] at read
  right_inv record := by
    apply Record.ext
    have complete : size ≤ record.bytes.length := Nat.le_of_eq record.length_bytes.symm
    have spelled := encode_ofRecord complete (record.starts.trans magic_eq.symm)
    rwa [List.take_of_length_le (show record.bytes.length ≤ size from
      Nat.le_of_eq record.length_bytes)] at spelled

/-- What is behind a record does not change how it is read. -/
theorem ofRecord_take {bytes : Bytes} (complete : size ≤ bytes.length)
    (starts : bytes.take magic.length = magic) : ofRecord (bytes.take size) = ofRecord bytes := by
  have again := ofRecord_encode_append (ofRecord bytes) []
  rwa [List.append_nil, encode_ofRecord complete starts] at again

/-- What decoding at a place gives, by what there is. -/
theorem decodeAt_eq (data : Bytes) (position : Nat) :
    decodeAt data position =
      if data.length < position + 8 then .error (.io .endOfInput)
      else if (data.drop position).take 8 = magic then
        if position + 1632 ≤ data.length then .ok (ofRecord (data.drop position))
        else .error (.malformed .cutField)
      else .error (.malformed (.wrongMagic position ((data.drop position).take 8))) := by
  have left : (data.drop position).length = data.length - position := List.length_drop
  have front : ((data.drop position).take size).take 8 = (data.drop position).take 8 :=
    List.take_take ..
  have few : ((data.drop position).take size).length < 8 ↔ data.length < position + 8 := by
    rw [List.length_take, left, size]
    omega
  have fields := decodeFields?_drop ((data.drop position).take size) (0 + 8)
  rw [scan_eq, List.drop_zero, Nat.zero_add, Nat.zero_add] at fields
  unfold decodeAt
  simp only [show magic.length = 8 from rfl, front, few, fields]
  by_cases starts : (data.drop position).take 8 = magic
  · rw [if_neg (not_not_intro starts), if_pos starts]
    by_cases enough : position + 1632 ≤ data.length
    · have complete : size ≤ (data.drop position).length := by rw [left, size]; omega
      have taken : 1632 ≤ ((data.drop position).take size).length :=
        Nat.le_of_eq (List.length_take_of_le complete).symm
      rw [if_pos taken, if_pos enough, ofRecord_take complete starts]
      rfl
    · have cut : ¬ 1632 ≤ ((data.drop position).take size).length := by
        rw [List.length_take, left]
        omega
      rw [if_neg cut, if_neg enough]
      rfl
  · rw [if_pos starts, if_neg starts]

/-- A cursor reads what decoding at its place gives, and ends where that says. -/
theorem readAt_eq_decodeAt (data : Bytes) (position : Nat) :
    readAt data position =
      (decodeAt data position, positionAfter (decodeAt data position) position) := by
  rw [readAt_eq, decodeAt_eq]
  split
  · rfl
  · split
    · split <;> rfl
    · rfl

/-- A header is read where there is a record, and the cursor ends behind it. -/
theorem readAt_ok {header : Header} (read : (readAt data position).1 = .ok header) :
    position + 1632 ≤ data.length ∧ (data.drop position).take 8 = magic ∧
      header = ofRecord (data.drop position) ∧ (readAt data position).2 = position + 1632 := by
  rw [readAt_eq] at read ⊢
  split at read
  · cases read
  · rename_i few
    split at read
    · rename_i starts
      split at read
      · rename_i enough
        rw [if_neg few, if_pos starts, if_pos enough]
        exact ⟨enough, starts, (Except.ok.inj read).symm, rfl⟩
      · cases read
    · cases read

/-- Where no header is read the cursor goes back, and the failure says how far there are bytes. -/
theorem readAt_error {failure : DecodeFailure}
    (failed : (readAt data position).1 = .error failure) :
    (readAt data position).2 = position ∧
      (data.length < position + 8 ∧ failure = .io .endOfInput ∨
        position + 8 ≤ data.length ∧
          ((data.drop position).take 8 ≠ magic ∨ data.length < position + 1632) ∧
          ∃ reason, failure = .malformed reason) := by
  rw [readAt_eq] at failed ⊢
  split at failed
  · rename_i few
    rw [if_pos few]
    exact ⟨rfl, .inl ⟨few, (Except.error.inj failed).symm⟩⟩
  · rename_i few
    rw [if_neg few]
    split at failed
    · rename_i starts
      rw [if_pos starts]
      split at failed
      · cases failed
      · rename_i cut
        rw [if_neg cut]
        exact ⟨rfl, .inr ⟨Nat.le_of_not_lt few, .inr (Nat.lt_of_not_le cut), _,
          (Except.error.inj failed).symm⟩⟩
    · rename_i other
      rw [if_neg other]
      exact ⟨rfl, .inr ⟨Nat.le_of_not_lt few, .inl other, _, (Except.error.inj failed).symm⟩⟩

/-- **Reading a record is exact at every position.** A cursor reads a header exactly where the next
1632 bytes are its record, and ends behind them. Otherwise it goes back, and the failure is one of
reading when the magic is cut short, and one of form when the magic is another or a field behind it
is cut. Every record of a header has 1632 bytes, and reading is the inverse of writing on all byte
strings of that length that start with the magic. What the cursor reads is what decoding at its
place gives. -/
theorem readAt_exact (data : Bytes) (position : Nat) :
    readAt data position =
      (decodeAt data position, positionAfter (decodeAt data position) position) ∧
    (∀ header : Header, header.encode.length = 1632) ∧
    (∀ header, (readAt data position).1 = .ok header ↔
      position + 1632 ≤ data.length ∧ (data.drop position).take 1632 = header.encode) ∧
    (∀ header, (readAt data position).1 = .ok header →
      (readAt data position).2 = position + 1632) ∧
    (∀ failure, (readAt data position).1 = .error failure →
      (readAt data position).2 = position ∧
      (data.length < position + 8 ∧ failure.toError = .failed .decodeHeader .endOfInput ∨
        position + 8 ≤ data.length ∧
          ((data.drop position).take 8 ≠ Utf8.encode "ANDROID!" ∨
            data.length < position + 1632) ∧
          ∃ reason, failure.toError = .undecodable reason)) ∧
    (∀ header, (recordEquiv header).bytes = header.encode) ∧
    ∀ record : Record, readAt record.bytes 0 = (.ok (recordEquiv.symm record), 1632) := by
  refine ⟨readAt_eq_decodeAt data position, length_encode,
    fun header => ⟨fun read => ?_, fun ⟨enough, spelled⟩ => ?_⟩,
    fun header read => (readAt_ok read).2.2.2, fun failure failed => ?_, fun _ => rfl,
    fun record => ?_⟩
  · obtain ⟨enough, starts, rfl, _⟩ := readAt_ok read
    have complete : size ≤ (data.drop position).length := by rw [List.length_drop, size]; omega
    exact ⟨enough, (encode_ofRecord complete starts).symm⟩
  · have whole : data.drop position = header.encode ++ (data.drop position).drop 1632 := by
      rw [← spelled, List.take_append_drop]
    have starts : (data.drop position).take 8 = magic := by rw [whole]; rfl
    rw [readAt_eq, if_neg (by omega), if_pos starts, if_pos enough, whole, ofRecord_encode_append]
  · obtain ⟨back, ⟨few, rfl⟩ | ⟨inside, wrong, reason, rfl⟩⟩ := readAt_error failed
    · exact ⟨back, .inl ⟨few, rfl⟩⟩
    · rw [magic_eq] at wrong
      exact ⟨back, .inr ⟨inside, wrong, reason, rfl⟩⟩
  · have starts : (record.bytes.drop 0).take 8 = magic := record.starts.trans magic_eq.symm
    have length := record.length_bytes
    rw [readAt_eq, if_neg (by omega), if_pos starts, if_pos (by omega)]
    rfl

end Header

end BootImage
