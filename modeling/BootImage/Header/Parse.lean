import BootImage.Header.Codec
import BootImage.Layout

/-!
Reading a header.

* `Header.readAt` reads where a cursor stands. The magic and the fields are taken one after the other
  and the cursor moves behind each of them; where a record cannot be read it goes back.
* `Header.parse` says which byte strings start with an acceptable header. It checks, in this order,
  that the record is complete, that it starts with the magic, that kernel and ramdisk are not empty
  and that the page size can lay out an image; the first check that fails gives the error.
-/

namespace BootImage

/-- Reading at a place that moves. Nothing comes of it where the bytes do not suffice. -/
abbrev Cursor := StateT Nat Option

namespace Cursor

def word (data : Bytes) : Cursor UInt32 := fun position =>
  (Word.decode? (data.drop position)).map fun (word, _) => (word, position + 4)

def field (data : Bytes) (width : Nat) : Cursor (Field width) := fun position =>
  (Field.decode? width (data.drop position)).map fun (field, _) => (field, position + width)

end Cursor

namespace Header

/-- The fields behind the magic, in the order of the record. -/
def scan (data : Bytes) : Cursor Header := do
  let kernelSize ← Cursor.word data
  let kernelAddr ← Cursor.word data
  let ramdiskSize ← Cursor.word data
  let ramdiskAddr ← Cursor.word data
  let secondSize ← Cursor.word data
  let secondAddr ← Cursor.word data
  let tagsAddr ← Cursor.word data
  let pageSize ← Cursor.word data
  let headerVersion ← Cursor.word data
  let osRelease ← Cursor.word data
  let boardName ← Cursor.field data 16
  let cmdline ← Cursor.field data 512
  let id ← Cursor.field data ImageId.size
  let extraCmdline ← Cursor.field data 1024
  return ⟨kernelSize, kernelAddr, ramdiskSize, ramdiskAddr, secondSize, secondAddr, tagsAddr,
    pageSize, headerVersion, ⟨osRelease⟩, boardName, cmdline, ⟨id⟩, extraCmdline⟩

/-- Reads the record at a position: what comes of it, and where the cursor stands afterwards. -/
def readAt (data : Bytes) (position : Nat) : Except DecodeFailure Header × Nat :=
  match (Cursor.field data magic.length).run position with
  | none => (.error (.io .endOfInput), position)
  | some (found, behind) =>
      if found.bytes = magic then
        match (scan data).run behind with
        | none => (.error (.malformed .cutField), position)
        | some (header, behind) => (.ok header, behind)
      else (.error (.malformed (.wrongMagic position found.bytes)), position)

/-! ### Acceptable headers -/

/-- The conditions on a header that all later work relies on. -/
def validate (header : Header) : Except Error Unit := do
  if header.kernelSize = 0 then throw (.zeroField "kernel_size")
  if header.ramdiskSize = 0 then throw (.zeroField "ramdisk_size")
  let _ ← acceptPageSize header.pageSize

/-- The header at the front of a byte string; what follows the record is not looked at. -/
def parse (bytes : Bytes) : Except Error Header :=
  let record := bytes.take size
  if record.length < size then .error (.headerCutShort size record.length)
  else if record.take magic.length ≠ magic then .error (.wrongMagic (record.take magic.length))
  else
    match decodeAt record 0 with
    | .error failure => .error failure.toError
    | .ok header => (validate header).map fun _ => header

end Header

end BootImage
