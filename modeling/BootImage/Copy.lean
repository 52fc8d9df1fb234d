import BootImage.Error
import BootImage.Host

/-!
Copying a part of the source into the destination.

The bytes move through one block, which is read completely before any of it is written; memory use
does not depend on how many bytes there are. A source that ends early is an error at the offset of
the block that was not complete.
-/

namespace BootImage

variable {m : Type → Type} [Host m]

/-- What an operation of the host says, as what the unpacker says about it. -/
def attempt {α : Type} (activity : Activity) (operation : ExceptT Failure m α) : ExceptT Stop m α :=
  operation.adapt fun failure => .error (.failed activity failure)

/-- What it means that a block at an offset could not be read. -/
def readStop (offset copied : Nat) (failure : Failure) : Stop :=
  if failure.kind = .unexpectedEof then
    match Checked.fits UInt64.size .addOverflow (offset + copied) with
    | .ok place => .error (.inputEnds place failure)
    | .error fault => .fault fault
  else .error (.failed .readSlice failure)

/-- The largest block that there is room for, in bytes: the largest signed 64-bit number. -/
def maxBlock : Nat := 0x7FFFFFFFFFFFFFFF

/-- Copies `left` bytes, in blocks of `block` bytes and a shorter one at the end, after `copied`
bytes from the same offset. -/
@[specialize] def copyBlocks (block offset copied left : Nat) : ExceptT Stop m Unit :=
  if left = 0 ∨ block = 0 then pure ()
  else do
    let quota := min block left
    let bytes ← (Host.readExact quota).adapt (readStop offset copied)
    attempt .writeSlice (Host.writeAll bytes)
    copyBlocks block offset (copied + quota) (left - quota)
termination_by left
decreasing_by
  rename_i more
  simp only [not_or] at more
  omega

/-- Copies `count` bytes from an offset of the source into the destination. -/
def copyRange (blockSize offset count : UInt64) : ExceptT Stop m Unit := do
  if blockSize = 0 then throw (.error .zeroBlockSize)
  attempt .seekToSlice (.mk (Host.seek offset))
  let block := min blockSize.toNat count.toNat
  if maxBlock < block then throw (.fault .capacityOverflow)
  copyBlocks block offset.toNat 0 count.toNat
  attempt .flushSlice (.mk Host.flush)
  Host.tell .debug ("copied " ++ Numeral.decimal count.toNat ++ " bytes from offset " ++
    Numeral.hex offset.toNat)

end BootImage
