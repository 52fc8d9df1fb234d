import BootImage.Error
import BootImage.Header

/-!
The header as bytes: the magic, ten words, and the byte fields in the order of the record.

`Header.encode` writes the record and `Header.decodeAt` reads it at any place of a byte string,
whatever its fields hold. `Header.pack` puts record and payloads together to an image, each filled
up to whole pages.
-/

namespace BootImage

/-- The field of a width at the front of a byte string, and what follows it. -/
def Field.decode? (width : Nat) (bytes : Bytes) : Option (Field width × Bytes) :=
  if enough : width ≤ bytes.length then
    some (⟨bytes.take width, by simp [enough]⟩, bytes.drop width)
  else none

theorem Field.decode?_append {width : Nat} (field : Field width) (rest : Bytes) :
    Field.decode? width (field.bytes ++ rest) = some (field, rest) := by
  obtain ⟨bytes, rfl⟩ := field
  simp [Field.decode?]

/-- Why a record cannot be read: reading failed, or the bytes are not such a record. -/
inductive DecodeFailure where
  | io (cause : Failure)
  | malformed (reason : Malformation)
  deriving DecidableEq, Repr

/-- A decoding failure among the errors of the unpacker. -/
def DecodeFailure.toError : DecodeFailure → Error
  | .io cause => .failed .decodeHeader cause
  | .malformed reason => .undecodable reason

namespace Header

def words (header : Header) : List UInt32 :=
  [header.kernelSize, header.kernelAddr, header.ramdiskSize, header.ramdiskAddr,
    header.secondSize, header.secondAddr, header.tagsAddr, header.pageSize,
    header.headerVersion, header.osRelease.raw]

def encodeFields (header : Header) : Bytes :=
  header.words.flatMap Word.encode ++ header.boardName.bytes ++ header.cmdline.bytes ++
    header.id.field.bytes ++ header.extraCmdline.bytes

def encode (header : Header) : Bytes :=
  magic ++ header.encodeFields

theorem length_encode (header : Header) : header.encode.length = size := by
  simp [encode, encodeFields, words, magic, size, Field.length_bytes, ImageId.size]

/-- The fields behind the magic, as far as there are bytes for all of them. -/
def decodeFields? (bytes : Bytes) : Option Header := do
  let (kernelSize, bytes) ← Word.decode? bytes
  let (kernelAddr, bytes) ← Word.decode? bytes
  let (ramdiskSize, bytes) ← Word.decode? bytes
  let (ramdiskAddr, bytes) ← Word.decode? bytes
  let (secondSize, bytes) ← Word.decode? bytes
  let (secondAddr, bytes) ← Word.decode? bytes
  let (tagsAddr, bytes) ← Word.decode? bytes
  let (pageSize, bytes) ← Word.decode? bytes
  let (headerVersion, bytes) ← Word.decode? bytes
  let (osRelease, bytes) ← Word.decode? bytes
  let (boardName, bytes) ← Field.decode? 16 bytes
  let (cmdline, bytes) ← Field.decode? 512 bytes
  let (id, bytes) ← Field.decode? ImageId.size bytes
  let (extraCmdline, _) ← Field.decode? 1024 bytes
  return ⟨kernelSize, kernelAddr, ramdiskSize, ramdiskAddr, secondSize, secondAddr, tagsAddr,
    pageSize, headerVersion, ⟨osRelease⟩, boardName, cmdline, ⟨id⟩, extraCmdline⟩

/-- A written word comes back before the rest is looked at. -/
theorem bind_decode?_word {α : Type} (word : UInt32) (rest : Bytes)
    (more : UInt32 × Bytes → Option α) :
    (Word.decode? (Word.encode word ++ rest) >>= more) = more (word, rest) := by
  rw [Word.decode?_encode, Option.bind_eq_bind, Option.bind_some]

/-- A written field comes back before the rest is looked at. -/
theorem bind_decode?_field {α : Type} {width : Nat} (field : Field width) (rest : Bytes)
    (more : Field width × Bytes → Option α) :
    (Field.decode? width (field.bytes ++ rest) >>= more) = more (field, rest) := by
  rw [Field.decode?_append, Option.bind_eq_bind, Option.bind_some]

/-- The fields come back as they were written. -/
theorem decodeFields?_encodeFields (header : Header) (rest : Bytes) :
    decodeFields? (header.encodeFields ++ rest) = some header := by
  simp only [encodeFields, words, List.flatMap_cons, List.flatMap_nil, List.append_assoc,
    List.append_nil]
  simp only [decodeFields?, ↓bind_decode?_word, ↓bind_decode?_field, Option.pure_def]

/-- The record at a position, whatever its fields hold. -/
def decodeAt (data : Bytes) (position : Nat) : Except DecodeFailure Header :=
  let record := (data.drop position).take size
  if record.length < magic.length then .error (.io .endOfInput)
  else if record.take magic.length ≠ magic then
    .error (.malformed (.wrongMagic position (record.take magic.length)))
  else
    match decodeFields? (record.drop magic.length) with
    | none => .error (.malformed .cutField)
    | some header => .ok header

/-- Reading a record moves behind it, or not at all when there is none. -/
def positionAfter (result : Except DecodeFailure Header) (position : Nat) : Nat :=
  match result with
  | .ok _ => position + size
  | .error _ => position

end Header

/-! ### Packing -/

/-- A byte string filled up with zeros to a multiple of a unit. -/
def Bytes.padTo (unit : Nat) (bytes : Bytes) : Bytes :=
  bytes ++ List.replicate ((unit - bytes.length % unit) % unit) 0

/-- What padding gives is made of whole units. -/
theorem Bytes.length_padTo_mod {unit : Nat} (positive : 0 < unit) (bytes : Bytes) :
    (Bytes.padTo unit bytes).length % unit = 0 := by
  have rest := Nat.mod_lt bytes.length positive
  rw [Bytes.padTo, List.length_append, List.length_replicate, Nat.add_mod, Nat.mod_mod]
  by_cases whole : bytes.length % unit = 0
  · simp [whole]
  · rw [Nat.mod_eq_of_lt (by omega : unit - bytes.length % unit < unit)]
    rw [show bytes.length % unit + (unit - bytes.length % unit) = unit by omega, Nat.mod_self]

/-- The image with a header and its payloads. An empty second-stage loader takes no page. -/
def Header.pack (header : Header) (kernel ramdisk second : Bytes) : Bytes :=
  let fill := Bytes.padTo header.pageSize.toNat
  [kernel, ramdisk, second].foldl (fun image part => fill (image ++ part)) (fill header.encode)

end BootImage
