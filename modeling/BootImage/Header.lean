import BootImage.ImageId
import BootImage.OsRelease
import BootImage.Text

/-!
The header record of a boot image, in its first layout (version 0): three payload sizes with their
load addresses, the page size that lays the image out, and four fields of bytes.
-/

namespace BootImage

/-- The fields of a header, in the order of the record. -/
structure Header where
  kernelSize : UInt32
  kernelAddr : UInt32
  ramdiskSize : UInt32
  ramdiskAddr : UInt32
  /-- The size of the second-stage loader, zero when there is none. -/
  secondSize : UInt32
  secondAddr : UInt32
  tagsAddr : UInt32
  pageSize : UInt32
  /-- Carried along and never interpreted. -/
  headerVersion : UInt32
  osRelease : OsRelease
  boardName : Field 16
  /-- The first part of the kernel command line. -/
  cmdline : Field 512
  id : ImageId
  /-- The second part of the kernel command line. -/
  extraCmdline : Field 1024
  deriving DecidableEq

namespace Header

/-- The bytes that every boot image starts with: `ANDROID!`. -/
def magic : Bytes := [0x41, 0x4E, 0x44, 0x52, 0x4F, 0x49, 0x44, 0x21]

/-- The size of the record in bytes. -/
def size : Nat := 1632

def hasSecond (header : Header) : Bool :=
  header.secondSize ≠ 0

/-- The board or product name, without its terminator. -/
def board (header : Header) : Bytes :=
  header.boardName.text

/-- The kernel command line: the texts of both its fields, one behind the other. -/
def commandLine (header : Header) : Bytes :=
  header.cmdline.text ++ header.extraCmdline.text

def boardText (header : Header) : String :=
  Utf8.decodeLossy header.board

/-- The kernel command line for display. It is joined first and decoded then, so that a character
may be divided between the two fields. -/
def commandLineText (header : Header) : String :=
  Utf8.decodeLossy header.commandLine

end Header

end BootImage
