import BootImage.Checked
import BootImage.Failure
import BootImage.Text
import BootImage.Path

/-!
Everything that can go wrong with a boot image, as causes. The wording of all of them is
`Error.message`; what a failure underneath says is `Error.source`.
-/

namespace BootImage

def maxPageSize : UInt32 := 0x100000

/-- What was being done when reading, writing or seeking failed: the words that follow "failed
to". -/
structure Activity where
  name : String
  deriving DecidableEq, Repr

namespace Activity

def rewindToStart : Activity := ⟨"rewind to start"⟩

def readHeader : Activity := ⟨"read header"⟩

def seekToSlice : Activity := ⟨"seek to slice"⟩

def readSlice : Activity := ⟨"read slice"⟩

def writeSlice : Activity := ⟨"write slice"⟩

def flushSlice : Activity := ⟨"flush slice"⟩

def writeRebuildScript : Activity := ⟨"write rebuild script"⟩

def decodeHeader : Activity := ⟨"decode header"⟩

end Activity

/-- Why the bytes of a record do not decode. -/
inductive Malformation where
  /-- The bytes end inside a field. -/
  | cutField
  /-- Any other reason, in the words of the decoder. -/
  | stated (reason : String)
  deriving DecidableEq, Repr

namespace Malformation

/-- A record that starts with other bytes than its magic. -/
def wrongMagic (position : Nat) (found : Bytes) : Malformation :=
  .stated ("bad magic at " ++ Numeral.hex position ++ ": " ++ found.listText)

/-- The wording of a malformation. For a cut field it stands in for the decoder's own, which goes on
with the way through the decoder and has no fixed form. -/
def message : Malformation → String
  | .cutField => "field cut short"
  | .stated reason => reason

end Malformation

/-- What can be wrong with an image, with the settings, or with reading and writing. -/
inductive Error where
  | headerCutShort (needed available : Nat)
  | wrongMagic (found : Bytes)
  | zeroField (field : String)
  | undecodable (reason : Malformation)
  | unusablePageSize (found : UInt32)
  | zeroBlockSize
  | failed (activity : Activity) (cause : Failure)
  | inputEnds (offset : Nat) (cause : Failure)
  | cannotCreate (path : Path) (cause : Failure)
  deriving DecidableEq, Repr

inductive ErrorSort where
  /-- The image is not a well-formed boot image. -/
  | image
  /-- Reading, writing or seeking failed. -/
  | access
  /-- A size is outside of what can be processed. -/
  | setting
  deriving DecidableEq, Repr

namespace Error

def kind : Error → ErrorSort
  | .headerCutShort .. | .wrongMagic _ | .zeroField _ | .undecodable _ => .image
  | .unusablePageSize _ | .zeroBlockSize => .setting
  | .failed .. | .inputEnds .. | .cannotCreate .. => .access

def cause? : Error → Option Failure
  | .failed _ cause | .inputEnds _ cause | .cannotCreate _ cause => some cause
  | _ => none

def message : Error → String
  | .headerCutShort needed available =>
      "header truncated: need " ++ Numeral.decimal needed ++ " bytes, have " ++
        Numeral.decimal available
  | .wrongMagic found => "invalid magic number at start of header: " ++ found.listText
  | .zeroField field => "invalid " ++ field ++ ": must not be zero"
  | .undecodable reason => "malformed header: " ++ reason.message
  | .unusablePageSize found =>
      "invalid page size " ++ Numeral.decimal found.toNat ++ ": must be between 1 and " ++
        Numeral.decimal maxPageSize.toNat
  | .zeroBlockSize => "invalid block size: must not be zero"
  | .failed activity cause => "failed to " ++ activity.name ++ ": " ++ cause.text
  | .inputEnds offset cause =>
      "unexpected end of input at offset " ++ Numeral.hex offset ++ ": " ++ cause.text
  | .cannotCreate path cause => "failed to create '" ++ path.display ++ "': " ++ cause.text

def source (error : Error) : Option String :=
  error.cause?.map (·.text)

end Error

/-- Why an operation ends without a result: an error of the domain or a fault of arithmetic. -/
inductive Stop where
  | error (reason : Error)
  | fault (reason : Fault)
  deriving DecidableEq, Repr

end BootImage
