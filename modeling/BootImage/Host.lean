import BootImage.Failure
import BootImage.Path

/-!
What the unpacker asks of its surroundings: one source that it can move in and read from, one
destination at a time that it writes to, directories, and somebody to tell about it. Told are events
on the way and text that was asked for.

Single calls may read or write less than they are asked to; `Host.readUpTo`, `Host.readExact` and
`Host.writeAll` repeat them until the work is done.
-/

namespace BootImage

inductive Level where
  | debug
  | info
  | warn
  deriving DecidableEq, Repr

def Level.name : Level → String
  | .debug => "DEBUG"
  | .info => "INFO"
  | .warn => "WARN"

structure Event where
  level : Level
  text : String
  deriving DecidableEq, Repr

/-- An entry of the record of a run. -/
inductive Entry where
  | event (event : Event)
  /-- Text that the user asked for. -/
  | output (text : Bytes)
  deriving DecidableEq, Repr

def Level.isProgress (level : Level) (verbose : Bool) : Bool :=
  verbose && level = .info

/-- A place to work in. -/
class Host (m : Type → Type) extends Monad m where
  /-- Opens a file as the source. -/
  openSource : Path → m (Except Failure Unit)
  /-- Moves to a place in the source. -/
  seek : UInt64 → m (Except Failure Unit)
  /-- Reads at most so many bytes from the source, and none only at its end. -/
  read : Nat → m (Except Failure Bytes)
  /-- Makes or empties a file as the destination. -/
  create : Path → m (Except Failure Unit)
  /-- Offers bytes to the destination; the answer is how many it took. -/
  write : Bytes → m (Except Failure Nat)
  /-- Makes what was written to the destination last. -/
  flush : m (Except Failure Unit)
  /-- Makes the destination executable. -/
  markExecutable : m (Except Failure Unit)
  /-- The destination is done. -/
  close : m Unit
  /-- Makes a directory and those above it. -/
  makeDirectories : Path → m (Except Failure Unit)
  /-- Tells of an event. -/
  report : Event → m Unit
  /-- Puts text out. -/
  print : Bytes → m Unit

namespace Host

variable {m : Type → Type} [Host m]

/-- Reads until `wanted` more bytes are there or the source ends. `chunks` is what came before, the
latest first. -/
@[specialize] def readChunks (wanted : Nat) (chunks : List Bytes) : ExceptT Failure m Bytes :=
  if wanted = 0 then pure chunks.reverse.flatten
  else do
    let chunk ← ExceptT.mk (Host.read wanted)
    if chunk = [] then pure chunks.reverse.flatten
    else readChunks (wanted - chunk.length) (chunk :: chunks)
termination_by wanted
decreasing_by
  have : 0 < chunk.length := List.length_pos_iff.mpr ‹_›
  omega

/-- The next `wanted` bytes of the source, or what is left of it. -/
def readUpTo (wanted : Nat) : ExceptT Failure m Bytes :=
  readChunks wanted []

/-- The next `wanted` bytes of the source, all of them. -/
def readExact (wanted : Nat) : ExceptT Failure m Bytes := do
  let bytes ← readUpTo wanted
  if bytes.length < wanted then throw .endOfInput
  else pure bytes

@[specialize] def writeAll (bytes : Bytes) : ExceptT Failure m Unit :=
  if bytes = [] then pure ()
  else do
    let taken ← ExceptT.mk (Host.write bytes)
    if taken = 0 then throw .nothingTaken
    else writeAll (bytes.drop taken)
termination_by bytes.length
decreasing_by
  have : 0 < bytes.length := List.length_pos_iff.mpr ‹_›
  rw [List.length_drop]
  omega

/-- Tells of events, in order. -/
def tellAll {ε : Type} (events : List Event) : ExceptT ε m Unit :=
  events.forM fun event => ExceptT.lift (Host.report event)

def tell {ε : Type} (level : Level) (text : String) : ExceptT ε m Unit :=
  tellAll [⟨level, text⟩]

end Host

end BootImage
