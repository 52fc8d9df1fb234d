import BootImage.Copy
import BootImage.Parameters

/-!
The rebuild script: a shell script of one command, which packs the unpacked files into an image
with the same header again.

Values stand between double quotes as they are. Nothing in them is escaped, and bytes that are not
UTF-8 are kept. A script is written piece by piece to any destination (`Script.writeTo`), or as a
whole into a file that can be run (`saveScript`).
-/

namespace BootImage

/-- A rebuild script, by what it is made from. -/
structure Script where
  header : Header
  names : FileNames
  /-- The packing command. -/
  command : String

namespace Script

def standardCommand : String := "mkbootimg"

/-- The pieces of a line that passes a value in quotes and goes on in the next line. -/
def quotedLine (flag : String) (value : Bytes) : List Bytes :=
  [Utf8.encode (" " ++ flag ++ " \""), value, Utf8.encode "\" \\\n"]

/-- The piece of a line that passes text in quotes and goes on in the next line. -/
def textLine (flag text : String) : List Bytes :=
  [Utf8.encode (" " ++ flag ++ " \"" ++ text ++ "\" \\\n")]

/-- The piece of a line that passes a number and goes on in the next line. -/
def numberLine (flag : String) (word : UInt32) : List Bytes :=
  [Utf8.encode (" " ++ flag ++ " " ++ Numeral.hex word.toNat ++ " \\\n")]

/-- The lines of the script, each in the pieces that it is written in. -/
def lines (script : Script) : List (List Bytes) :=
  let header := script.header
  let names := script.names
  let release := header.osRelease.info
  [[Utf8.encode "#!/bin/sh\n"],
    [Utf8.encode (script.command ++ " \\\n")],
    quotedLine "--kernel" names.kernel,
    quotedLine "--ramdisk" names.ramdisk] ++
  (if header.hasSecond then [quotedLine "--second" names.second] else []) ++
  [quotedLine "--cmdline" header.commandLine,
    numberLine "--base" 0,
    numberLine "--kernel_offset" header.kernelAddr,
    numberLine "--ramdisk_offset" header.ramdiskAddr,
    numberLine "--second_offset" header.secondAddr,
    textLine "--os_version" release.versionText,
    textLine "--os_patch_level" release.patchLevelText,
    numberLine "--tags_offset" header.tagsAddr,
    quotedLine "--board" header.board,
    numberLine "--pagesize" header.pageSize,
    [Utf8.encode " --output \"", names.output, Utf8.encode "\"\n"]]

def pieces (script : Script) : List Bytes :=
  script.lines.flatten

def text (script : Script) : Bytes :=
  script.pieces.flatten

end Script

/-! ### Writing -/

variable {m : Type → Type} [Host m]

/-- Writes a script to the destination, piece by piece. -/
def Script.writeTo (script : Script) : ExceptT Failure m Unit :=
  script.pieces.forM Host.writeAll

/-- Makes a file, works on it, and closes it whether the work succeeds or not. -/
def withFile (path : Path) (work : ExceptT Stop m Unit) : ExceptT Stop m Unit := do
  (ExceptT.mk (Host.create path)).adapt fun failure => .error (.cannotCreate path failure)
  ExceptT.mk do
    let outcome ← work.run
    Host.close
    return outcome

/-- Writes a script into a file and makes it executable; that the mode cannot be changed is only
told of. -/
def saveScript (path : Path) (script : Bytes) : ExceptT Stop m Unit :=
  withFile path do
    attempt .writeRebuildScript (Host.writeAll script)
    match ← (Host.markExecutable : m (Except Failure Unit)) with
    | .ok () => pure ()
    | .error failure =>
        Host.tell .warn ("failed to change file mode of '" ++ path.display ++ "' to 0750: " ++
          failure.text)

end BootImage
