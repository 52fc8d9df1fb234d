import BootImage.Proofs.Header.Record

/-!
Which byte strings start with an acceptable header, and what is said of all others. The record is
looked at by offsets: `Header.objections` lists everything that speaks against it, in the order of
importance. Parsing gives the first objection, and without one the only header that the record
spells.
-/

namespace BootImage.Header

/-- Everything that speaks against a byte string, the weightiest first. -/
def objections (bytes : Bytes) : List Error :=
  (if bytes.length < 1632 then [.headerCutShort 1632 bytes.length] else []) ++
  (if bytes.take 8 = Utf8.encode "ANDROID!" then [] else [.wrongMagic (bytes.take 8)]) ++
  (if Word.readAt bytes 8 = 0 then [.zeroField "kernel_size"] else []) ++
  (if Word.readAt bytes 16 = 0 then [.zeroField "ramdisk_size"] else []) ++
  (if Word.readAt bytes 36 = 0 ∨ 0x100000 < Word.readAt bytes 36 then
    [.unusablePageSize (Word.readAt bytes 36)] else [])

/-- The first objection, or the header when there is none. -/
def firstOf (header : Header) : List Error → Except Error Header
  | [] => .ok header
  | objection :: _ => .error objection

theorem magic_eq : magic = Utf8.encode "ANDROID!" := by decide

/-! ### What a record spells -/

/-- Two headers with the same record are the same. -/
theorem encode_injective {left right : Header} (same : left.encode = right.encode) :
    left = right := by
  have fields : left.encodeFields ++ [] = right.encodeFields ++ [] := by
    rw [encode, encode] at same
    rw [List.append_cancel_left same]
  have read := decodeFields?_encodeFields left []
  rw [fields, decodeFields?_encodeFields] at read
  exact (Option.some.inj read).symm

/-- A complete record is the record of one header, and of no other. -/
theorem encode_eq_take_iff {bytes : Bytes} (complete : size ≤ bytes.length)
    (starts : bytes.take magic.length = magic) (header : Header) :
    header.encode = bytes.take size ↔ header = ofRecord bytes := by
  rw [← encode_ofRecord complete starts]
  exact ⟨encode_injective, congrArg encode⟩

/-- A written record is complete and has the magic, whatever follows it. -/
theorem starts_encode_append (header : Header) (suffix : Bytes) :
    size ≤ (header.encode ++ suffix).length ∧
      (header.encode ++ suffix).take magic.length = magic := by
  constructor
  · rw [List.length_append, length_encode]
    exact Nat.le_add_right _ _
  · rw [encode, List.append_assoc, List.take_left]

/-- Behind a record nothing is looked at. -/
theorem ofRecord_encode_append (header : Header) (suffix : Bytes) :
    ofRecord (header.encode ++ suffix) = header := by
  obtain ⟨complete, starts⟩ := starts_encode_append header suffix
  have record : header.encode = (header.encode ++ suffix).take size := by
    rw [← length_encode header, List.take_left]
  exact ((encode_eq_take_iff complete starts header).mp record).symm

/-- Decoding the front of a byte string reads its record by offsets. -/
theorem decodeAt_take {bytes : Bytes} (complete : size ≤ bytes.length)
    (starts : bytes.take magic.length = magic) :
    decodeAt (bytes.take size) 0 = .ok (ofRecord bytes) := by
  have record : bytes.take size = (ofRecord bytes).encode := (encode_ofRecord complete starts).symm
  have fields := decodeFields?_encodeFields (ofRecord bytes) []
  rw [List.append_nil] at fields
  rw [record, decodeAt, List.drop_zero, List.take_of_length_le (Nat.le_of_eq (length_encode _)),
    encode, List.take_left, List.drop_left, fields]
  simp

/-! ### The decision -/

/-- The conditions on a header, one after the other. -/
theorem validate_eq (header : Header) :
    validate header =
      if header.kernelSize = 0 then .error (.zeroField "kernel_size")
      else if header.ramdiskSize = 0 then .error (.zeroField "ramdisk_size")
      else if header.pageSize = 0 ∨ 0x100000 < header.pageSize then
        .error (.unusablePageSize header.pageSize)
      else .ok () := by
  unfold validate acceptPageSize maxPageSize
  split
  · rfl
  · split
    · rfl
    · split
      · rfl
      · rfl

/-- A complete record with the magic is decoded, and then only its header is looked at. -/
theorem parse_record {bytes : Bytes} (complete : size ≤ bytes.length)
    (starts : bytes.take magic.length = magic) :
    parse bytes = (validate (ofRecord bytes)).map fun _ => ofRecord bytes := by
  have record : (bytes.take size).length = size := List.length_take_of_le complete
  have front : (bytes.take size).take magic.length = magic := by
    rw [List.take_take]
    exact starts
  rw [parse, record, if_neg (Nat.lt_irrefl _), front, if_neg (not_not_intro rfl),
    decodeAt_take complete starts]

/-- Parsing gives the first objection, or the header that the record spells. -/
theorem parse_eq_firstOf (bytes : Bytes) :
    parse bytes = firstOf (ofRecord bytes) (objections bytes) := by
  rw [objections, ← magic_eq]
  by_cases short : bytes.length < 1632
  · have whole : bytes.take size = bytes := List.take_of_length_le (Nat.le_of_lt short)
    rw [parse, whole, if_pos (show bytes.length < size from short), if_pos short]
    rfl
  · have complete : size ≤ bytes.length := Nat.le_of_not_lt short
    rw [if_neg short]
    by_cases starts : bytes.take 8 = magic
    · rw [if_pos starts, parse_record complete starts]
      simp only [validate_eq, ofRecord, List.nil_append]
      split
      · rfl
      · split
        · rfl
        · split
          · rfl
          · rfl
    · have record : (bytes.take size).length = size := List.length_take_of_le complete
      have front : (bytes.take size).take magic.length = bytes.take 8 := List.take_take ..
      rw [parse, record, if_neg (Nat.lt_irrefl _), front, if_pos starts, if_neg starts]
      rfl

theorem firstOf_eq_ok_iff {header other : Header} {objections : List Error} :
    firstOf header objections = .ok other ↔ objections = [] ∧ header = other := by
  cases objections <;> simp [firstOf]

/-- What it takes for nothing to speak against a byte string. -/
theorem objections_eq_nil_iff (bytes : Bytes) :
    objections bytes = [] ↔
      1632 ≤ bytes.length ∧ bytes.take 8 = Utf8.encode "ANDROID!" ∧
      Word.readAt bytes 8 ≠ 0 ∧ Word.readAt bytes 16 ≠ 0 ∧
      1 ≤ Word.readAt bytes 36 ∧ Word.readAt bytes 36 ≤ 0x100000 := by
  have usable : ¬ (Word.readAt bytes 36 = 0 ∨ 0x100000 < Word.readAt bytes 36) ↔
      1 ≤ Word.readAt bytes 36 ∧ Word.readAt bytes 36 ≤ 0x100000 := by
    simp only [UInt32.le_iff_toNat_le, UInt32.lt_iff_toNat_lt, ← UInt32.toNat_inj]
    simp
    omega
  rw [← usable, objections]
  simp

/-- Parsing fails with an objection. -/
theorem mem_objections_of_parse {bytes : Bytes} {objection : Error}
    (failed : parse bytes = .error objection) : objection ∈ objections bytes := by
  rw [parse_eq_firstOf] at failed
  cases found : objections bytes with
  | nil => simp [found, firstOf] at failed
  | cons first rest =>
      rw [found] at failed
      cases failed
      exact List.mem_cons_self

/-- No objection concerns the decoding of a record or the reading of it. -/
theorem objection_ne_of_mem {bytes : Bytes} {objection : Error}
    (mem : objection ∈ objections bytes) :
    (∀ reason, objection ≠ .undecodable reason) ∧
      ∀ activity cause, objection ≠ .failed activity cause := by
  simp only [objections, List.mem_append] at mem
  grind

/-- What is accepted is the record of its header, with sizes that can be worked with. -/
theorem parse_eq_ok_iff {bytes : Bytes} {header : Header} :
    parse bytes = .ok header ↔
      1632 ≤ bytes.length ∧ bytes.take 8 = Utf8.encode "ANDROID!" ∧
      header.encode = bytes.take 1632 ∧ header.kernelSize ≠ 0 ∧ header.ramdiskSize ≠ 0 ∧
      1 ≤ header.pageSize ∧ header.pageSize ≤ 0x100000 := by
  rw [parse_eq_firstOf, firstOf_eq_ok_iff, objections_eq_nil_iff]
  constructor
  · rintro ⟨⟨complete, starts, kernel, ramdisk, usable⟩, rfl⟩
    have spelled := encode_ofRecord complete (starts.trans magic_eq.symm)
    exact ⟨complete, starts, spelled, kernel, ramdisk, usable⟩
  · rintro ⟨complete, starts, spelled, kernel, ramdisk, usable⟩
    obtain rfl := (encode_eq_take_iff complete (starts.trans magic_eq.symm) header).mp spelled
    exact ⟨⟨complete, starts, kernel, ramdisk, usable⟩, rfl⟩

/-- A written header comes back if it is valid, whatever follows it. -/
theorem parse_encode_append (header : Header) (suffix : Bytes) :
    parse (header.encode ++ suffix) = (validate header).map fun _ => header := by
  obtain ⟨complete, starts⟩ := starts_encode_append header suffix
  rw [parse_record complete starts, ofRecord_encode_append]

/-- A valid header comes back from its own record. -/
theorem parse_encode {header : Header} (valid : header.validate = .ok ()) :
    parse header.encode = .ok header := by
  have read := header.parse_encode_append []
  rwa [List.append_nil, valid] at read

/-- **Parsing decides the acceptable headers.** A header comes back exactly when the bytes start
with its record and an image can be laid out by it. Otherwise the first objection comes back, and
no objection is about decoding or reading. What follows a record plays no part. -/
theorem parse_decides (bytes suffix : Bytes) (header : Header) :
    (parse bytes = .ok header ↔
      1632 ≤ bytes.length ∧ bytes.take 8 = Utf8.encode "ANDROID!" ∧
      header.encode = bytes.take 1632 ∧ header.kernelSize ≠ 0 ∧ header.ramdiskSize ≠ 0 ∧
      1 ≤ header.pageSize ∧ header.pageSize ≤ 0x100000) ∧
    parse bytes = firstOf (ofRecord bytes) (objections bytes) ∧
    (∀ reason, parse bytes ≠ .error (.undecodable reason)) ∧
    (∀ activity cause, parse bytes ≠ .error (.failed activity cause)) ∧
    parse (header.encode ++ suffix) = (validate header).map fun _ => header := by
  refine ⟨parse_eq_ok_iff, parse_eq_firstOf bytes, ?_, ?_, parse_encode_append header suffix⟩
  · intro reason failed
    exact (objection_ne_of_mem (mem_objections_of_parse failed)).1 reason rfl
  · intro activity cause failed
    exact (objection_ne_of_mem (mem_objections_of_parse failed)).2 activity cause rfl

end BootImage.Header
