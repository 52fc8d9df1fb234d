import BootImage.Reader

/-!
Writing to a place that takes bytes at its own pace. A call may take fewer bytes than it is
offered, none when the place is full, and may fail.
-/

namespace BootImage

structure Writer where
  /-- What it holds. -/
  held : Array UInt8
  /-- How many bytes a call takes at most, one and this many more, by its number. -/
  pace : Nat → Option Nat
  /-- How many bytes it can hold. -/
  capacity : Option Nat
  /-- Calls fail once so many bytes are held. -/
  writeFuse : Option Fuse
  /-- Every flush fails. -/
  flushFailure : Option Failure
  /-- What each call was offered. -/
  offers : Array Bytes
  /-- The flushes made. -/
  flushes : Nat

namespace Writer

def fresh : Writer where
  held := #[]
  pace := fun _ => none
  capacity := none
  writeFuse := none
  flushFailure := none
  offers := #[]
  flushes := 0

/-- What the next call takes of the bytes it is offered. -/
def intake (writer : Writer) (bytes : Bytes) : Bytes :=
  let turn :=
    match writer.pace writer.offers.size with
    | none => bytes
    | some extra => bytes.take (extra + 1)
  let room :=
    match writer.capacity with
    | none => turn
    | some capacity => turn.take (capacity - writer.held.size)
  match writer.writeFuse with
  | none => room
  | some fuse => room.take (fuse.start - writer.held.size)

def write (writer : Writer) (bytes : Bytes) : Except Failure Nat × Writer :=
  let taken := writer.intake bytes
  let struck := writer.writeFuse.filter (·.start ≤ writer.held.size)
  let counted := { writer with offers := writer.offers.push bytes }
  match struck with
  | some fuse => (.error fuse.failure, counted)
  | none => (.ok taken.length, { counted with held := counted.held ++ taken })

def flush (writer : Writer) : Except Failure Unit × Writer :=
  let after := { writer with flushes := writer.flushes + 1 }
  match writer.flushFailure with
  | none => (.ok (), after)
  | some failure => (.error failure, after)

end Writer

end BootImage
