/-!
Arithmetic in fixed widths that stops instead of wrapping round. Computing happens over the
naturals; `Checked.fits` brings the result back or reports the fault.
-/

namespace BootImage

/-- Why a computation cannot go on. No input of the unpacker brings one about; the arithmetic it
is built from can. -/
inductive Fault where
  | divideByZero
  | multiplyOverflow
  | addOverflow
  | subtractOverflow
  | capacityOverflow
  deriving DecidableEq, Repr

def Fault.message : Fault → String
  | .divideByZero => "attempt to divide by zero"
  | .multiplyOverflow => "attempt to multiply with overflow"
  | .addOverflow => "attempt to add with overflow"
  | .subtractOverflow => "attempt to subtract with overflow"
  | .capacityOverflow => "capacity overflow"

namespace Checked

/-- A result that must stay below a bound. -/
def fits (bound : Nat) (fault : Fault) (value : Nat) : Except Fault Nat :=
  if value < bound then .ok value else .error fault

def add64 (left right : UInt64) : Except Fault UInt64 :=
  (fits UInt64.size .addOverflow (left.toNat + right.toNat)).map UInt64.ofNat

def mul64 (left right : UInt64) : Except Fault UInt64 :=
  (fits UInt64.size .multiplyOverflow (left.toNat * right.toNat)).map UInt64.ofNat

def add32 (left right : UInt32) : Except Fault UInt32 :=
  (fits UInt32.size .addOverflow (left.toNat + right.toNat)).map UInt32.ofNat

def add16 (left right : UInt16) : Except Fault UInt16 :=
  (fits UInt16.size .addOverflow (left.toNat + right.toNat)).map UInt16.ofNat

def sub16 (left right : UInt16) : Except Fault UInt16 :=
  if right ≤ left then .ok (left - right) else .error .subtractOverflow

/-- How many parts of `size` it takes to hold `total`. -/
def partsOf (total size : UInt64) : Except Fault UInt64 :=
  if size = 0 then .error .divideByZero
  else .ok (if total % size = 0 then total / size else total / size + 1)

end Checked

end BootImage
