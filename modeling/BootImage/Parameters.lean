import BootImage.Header
import BootImage.Layout

/-!
What it takes to build an image again: the arguments of the packing command, as flags and values.
-/

namespace BootImage

/-- The files that an unpacked image is kept in. -/
structure FileNames where
  /-- The script that builds the image again. -/
  script : Path
  kernel : Path
  ramdisk : Path
  second : Path
  /-- The image that the script builds. -/
  output : Path
  deriving DecidableEq

namespace FileNames

def standard : FileNames where
  script := Utf8.encode "remkbootimg.sh"
  kernel := Utf8.encode "kernel.img"
  ramdisk := Utf8.encode "ramdisk.img"
  second := Utf8.encode "secondary.img"
  output := Utf8.encode "newboot.img"

/-- Where a slice is written. The script stands for the header. -/
def ofSlice (names : FileNames) : Slice → Path
  | .header => names.script
  | .kernel => names.kernel
  | .ramdisk => names.ramdisk
  | .second => names.second

end FileNames

structure Parameter where
  flag : String
  value : Bytes
  deriving DecidableEq

def Parameter.ofText (flag text : String) : Parameter :=
  ⟨flag, Utf8.encode text⟩

/-- The arguments with which the packing command builds an image with this header again. All load
addresses are passed as offsets to the base address zero. -/
def parameters (header : Header) (names : FileNames) : List Parameter :=
  let number (flag : String) (word : UInt32) := Parameter.ofText flag (Numeral.hex word.toNat)
  let release := header.osRelease.info
  [⟨"--kernel", names.kernel⟩, ⟨"--ramdisk", names.ramdisk⟩] ++
  (if header.hasSecond then [⟨"--second", names.second⟩] else []) ++
  [⟨"--cmdline", header.commandLine⟩,
    number "--base" 0,
    number "--kernel_offset" header.kernelAddr,
    number "--ramdisk_offset" header.ramdiskAddr,
    number "--second_offset" header.secondAddr,
    .ofText "--os_version" release.versionText,
    .ofText "--os_patch_level" release.patchLevelText,
    number "--tags_offset" header.tagsAddr,
    ⟨"--board", header.board⟩,
    number "--pagesize" header.pageSize,
    ⟨"--output", names.output⟩]

end BootImage
