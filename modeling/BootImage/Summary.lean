import BootImage.Shell.Quote
import BootImage.Unpack

/-!
A header in print: as a summary for people, and as arguments of the packing command that can be
pasted into a shell or cut apart at NUL bytes.
-/

namespace BootImage.Image

/-- The lines of the summary that tell where a slice starts; one for every payload that is
there. -/
def offsetLines (image : Image) : List String :=
  [Slice.kernel, .ramdisk, .second].filterMap fun slice =>
    let extent := image.layout.extent slice
    if extent.isPresent then
      some (slice.name ++ " offset: " ++ Numeral.address extent.offset.toNat)
    else none

def summaryLines (image : Image) : Except Fault (List String) := do
  let header := image.header
  let number (word : UInt32) := Numeral.decimal word.toNat
  let address (word : UInt32) := Numeral.address word.toNat
  let stop ← image.layout.imageEnd
  return ["boot magic: ANDROID!",
    "kernel_size: " ++ number header.kernelSize,
    "kernel load address: " ++ address header.kernelAddr,
    "ramdisk size: " ++ number header.ramdiskSize,
    "ramdisk load address: " ++ address header.ramdiskAddr,
    "second bootloader size: " ++ number header.secondSize,
    "second bootloader load address: " ++ address header.secondAddr,
    "kernel tags load address: " ++ address header.tagsAddr,
    "page size: " ++ number header.pageSize,
    "os version: " ++ header.osRelease.version.text,
    "os patch level: " ++ header.osRelease.patchLevel.text,
    "boot image header version: " ++ number header.headerVersion,
    "product name: " ++ header.boardText,
    "command line args: " ++ Utf8.decodeLossy header.cmdline.text,
    "additional command line args: " ++ Utf8.decodeLossy header.extraCmdline.text,
    "image id: " ++ header.id.text] ++
    image.offsetLines ++
    ["image end: " ++ Numeral.address stop.toNat]

def summary (image : Image) : Except Fault Bytes := do
  let lines ← image.summaryLines
  return lines.flatMap fun line => Utf8.encode (line ++ "\n")

end BootImage.Image

namespace BootImage.Parameter

/-- Flags and values, every one of them ended by a NUL. -/
def nulTerminated (parameters : List Parameter) : Bytes :=
  let words := parameters.flatMap fun parameter => [Utf8.encode parameter.flag, parameter.value]
  [0].intercalate words ++ [0]

/-- A flag and its value as words of a shell command, or the flag whose value cannot be quoted. -/
def quoted (parameter : Parameter) : Except String (List Bytes) :=
  match Shell.quote? parameter.value with
  | some value => .ok [Utf8.encode parameter.flag, value]
  | none => .error parameter.flag

/-- Flags and values as one line for a shell. -/
def shellLine (parameters : List Parameter) : Except String Bytes := do
  let words ← parameters.mapM quoted
  return [0x20].intercalate words.flatten ++ [0x0A]

end BootImage.Parameter
