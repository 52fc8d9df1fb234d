import BootImage.Header.Parse
import BootImage.Script

/-!
Taking an image apart: reading its header, and writing the rebuild script and every slice that is
there into files of their own.

`Image.accept` looks at the header and at nothing behind it. `Image.unpackInto` writes the script
first, then kernel, ramdisk and second-stage loader; it stops at the first failure and leaves what
it has written.
-/

namespace BootImage

variable {m : Type → Type} [Host m]

/-- Reads a header where the source stands, one record and no more. -/
def Header.readNext : ExceptT Stop m Header := do
  let bytes ← attempt .readHeader (Host.readUpTo Header.size)
  .mk (pure ((Header.parse bytes).mapError .error))

/-- Reads headers one behind the other, whatever comes of each. -/
def Header.readEach : Nat → m (List (Except Stop Header))
  | 0 => pure []
  | count + 1 => do
      let answer ← Header.readNext.run
      let answers ← Header.readEach count
      return answer :: answers

def Layout.events (layout : Layout) : List Event :=
  layout.extents.toList.map fun extent =>
    ⟨.debug, extent.slice.name ++ " slice: offset " ++ Numeral.hex extent.offset.toNat ++
      ", size " ++ Numeral.decimal extent.size.toNat⟩

/-- An image whose header is acceptable: the header, and where everything lies. -/
structure Image where
  header : Header
  layout : Layout
  deriving DecidableEq

def Image.events (image : Image) : List Event :=
  let bytes (what : String) (count : Nat) : Event :=
    ⟨.info, what ++ ": " ++ Numeral.decimal count ++ "B"⟩
  let size (slice : Slice) := (image.layout.extent slice).size.toNat
  let release := image.header.osRelease
  [bytes "Page size" image.header.pageSize.toNat,
    bytes "Kernel size" (size .kernel),
    bytes "Ramdisk size" (size .ramdisk),
    bytes "Second size" (size .second),
    ⟨.info, "Android Version: " ++ release.version.text ++ "; Patch Level: " ++
      release.patchLevel.text⟩,
    ⟨.info, "Image ID: " ++ image.header.id.text⟩]

/-- Reads and checks the header at the start of the source. -/
def Image.accept : ExceptT Stop m Image := do
  Host.tell .info "Reading header..."
  attempt .rewindToStart (.mk (Host.seek 0))
  let header ← Header.readNext
  let layout ← .mk (pure (Layout.ofHeader header))
  Host.tellAll layout.events
  let image : Image := ⟨header, layout⟩
  Host.tellAll image.events
  return image

structure BlockSize where
  bytes : UInt64
  bytes_ne_zero : bytes ≠ 0
  deriving DecidableEq

structure Plan where
  names : FileNames
  /-- The packing command of the rebuild script. -/
  command : String
  /-- The block size for copying, the page size of the image unless given. -/
  blockSize : Option BlockSize
  deriving DecidableEq

def Plan.standard : Plan where
  names := .standard
  command := Script.standardCommand
  blockSize := none

structure Manifest where
  written : List (Slice × Path)
  deriving DecidableEq

def Manifest.path? (report : Manifest) (slice : Slice) : Option Path :=
  (report.written.find? fun entry => entry.1 = slice).map (·.2)

namespace Image

def script (image : Image) (plan : Plan) : Script :=
  ⟨image.header, plan.names, plan.command⟩

def blockSize (image : Image) (plan : Plan) : UInt64 :=
  match plan.blockSize with
  | none => image.layout.pageSize
  | some size => size.bytes

/-- Writes one slice into a file. The header slice becomes the rebuild script. -/
def writeSlice (image : Image) (plan : Plan) (path : Path) (extent : Extent) :
    ExceptT Stop m Unit :=
  match extent.slice with
  | .header => saveScript path (image.script plan).text
  | _ => withFile path (copyRange (image.blockSize plan) extent.offset extent.size)

/-- Writes the slices that are there, one after the other. -/
def writeSlices (image : Image) (directory : Path) (plan : Plan) :
    List Extent → ExceptT Stop m (List (Slice × Path))
  | [] => pure []
  | extent :: rest =>
      if extent.isPresent then do
        let path := directory.join (plan.names.ofSlice extent.slice)
        Host.tell .info ("Writing \"" ++ path.display ++ "\"")
        image.writeSlice plan path extent
        let others ← image.writeSlices directory plan rest
        return (extent.slice, path) :: others
      else image.writeSlices directory plan rest

/-- Unpacks the image into files of a directory. -/
def unpackInto (image : Image) (directory : Path) (plan : Plan) :
    ExceptT Stop m Manifest := do
  return ⟨← image.writeSlices directory plan image.layout.extents.toList⟩

def unpackEach (image : Image) : List (Path × Plan) → m (List (Except Stop Manifest))
  | [] => pure []
  | (directory, plan) :: rest => do
      let answer ← (image.unpackInto directory plan).run
      let answers ← image.unpackEach rest
      return answer :: answers

def session (calls : List (Path × Plan)) :
    ExceptT Stop m (Image × List (Except Stop Manifest)) := do
  let image ← Image.accept
  let answers ← (image.unpackEach calls : m (List (Except Stop Manifest)))
  return (image, answers)

end Image

end BootImage
