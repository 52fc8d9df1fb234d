/-!
Failures of reading, writing and of the file system: what kind they are and what they are called.
-/

namespace BootImage

/-- What sort of failure it is. Only an early end of input is told apart by the unpacker itself. -/
inductive FailureKind where
  | unexpectedEof
  | writeZero
  | wouldBlock
  | permissionDenied
  | brokenPipe
  | invalidData
  | invalidInput
  | storageFull
  | unsupported
  | notFound
  | alreadyExists
  | notADirectory
  | isADirectory
  | invalidFilename
  | other
  deriving DecidableEq, Repr

/-- A failed operation: its kind and the text it is shown with. -/
structure Failure where
  kind : FailureKind
  text : String
  deriving DecidableEq, Repr

namespace Failure

/-- The input ended before a block was complete. -/
def endOfInput : Failure := ⟨.unexpectedEof, "failed to fill whole buffer"⟩

/-- The destination takes nothing more. -/
def nothingTaken : Failure := ⟨.writeZero, "failed to write whole buffer"⟩

/-- A path with a NUL byte names nothing. -/
def nulInPath : Failure := ⟨.invalidInput, "file name contained an unexpected NUL byte"⟩

/-- A failure that the system reports with a number. -/
def system (kind : FailureKind) (text : String) (code : Nat) : Failure :=
  ⟨kind, text ++ " (os error " ++ toString code ++ ")"⟩

def notFound : Failure := system .notFound "No such file or directory" 2

def fileExists : Failure := system .alreadyExists "File exists" 17

def notADirectory : Failure := system .notADirectory "Not a directory" 20

def isADirectory : Failure := system .isADirectory "Is a directory" 21

def noSpace : Failure := system .storageFull "No space left on device" 28

def nameTooLong : Failure := system .invalidFilename "File name too long" 36

end Failure

end BootImage
