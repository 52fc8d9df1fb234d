import BootImage.Bytes
import BootImage.Failure

/-!
Reading from a place that moves. A call may give fewer bytes than it is asked for, may be
interrupted and may fail; the pace and the fuses of a reader say which, call by call. Main
statement: `Reader.read_eq_serve` says that interruptions leave no trace.
-/

namespace BootImage

/-- A failure that waits at a place or a count, and strikes from there on. -/
structure Fuse where
  start : Nat
  failure : Failure
  deriving DecidableEq, Repr

/-- What there is to be read. -/
inductive Content where
  | bytes (data : Array UInt8)
  /-- Zero bytes without end. -/
  | zeros
  /-- Nothing that can be read. -/
  | unreadable (failure : Failure)

/-- The bytes from a place on, at most `count`. -/
def Content.slice (data : Array UInt8) (start count : Nat) : Bytes :=
  (data.extract start (start + count)).toList

/-- How a reading call goes: the interruptions before it is served, and how many bytes it gives at
most, one and `extra` more. -/
structure Turn where
  interruptions : Nat
  extra : Option Nat
  deriving DecidableEq, Repr

/-- A turn in which a call is served in full at once. -/
def Turn.plain : Turn := ⟨0, none⟩

structure Reader where
  position : Nat
  /-- How the calls go, in order. -/
  pace : Nat → Turn
  /-- The calls served. -/
  served : Nat
  /-- The interruptions that are left before the next call is served. -/
  waiting : Nat
  /-- Calls at or behind this place fail. -/
  readFuse : Option Fuse
  /-- The seeks made. -/
  seeks : Nat
  /-- Seeks from this count on fail, the first being number one. -/
  seekFuse : Option Fuse

namespace Reader

def fresh : Reader where
  position := 0
  pace := fun _ => .plain
  served := 0
  waiting := 0
  readFuse := none
  seeks := 0
  seekFuse := none

def seek (reader : Reader) (position : Nat) : Except Failure Unit × Reader :=
  let counted := { reader with seeks := reader.seeks + 1 }
  match reader.seekFuse with
  | some fuse =>
      if fuse.start ≤ counted.seeks then (.error fuse.failure, counted)
      else (.ok (), { counted with position })
  | none => (.ok (), { counted with position })

/-- How many bytes the next call may give when `wanted` are asked for: no more than its turn has,
and none at or behind the fuse. -/
def allowance (reader : Reader) (wanted : Nat) : Nat :=
  let turn :=
    match (reader.pace reader.served).extra with
    | none => wanted
    | some extra => min wanted (extra + 1)
  match reader.readFuse with
  | none => turn
  | some fuse => min turn (fuse.start - reader.position)

def moved (reader : Reader) (count : Nat) : Reader :=
  { reader with
    position := reader.position + count
    served := reader.served + 1
    waiting := (reader.pace (reader.served + 1)).interruptions }

def serve (reader : Reader) (content : Content) (wanted : Nat) : Except Failure Bytes × Reader :=
  match reader.readFuse.filter (·.start ≤ reader.position) with
  | some fuse => (.error fuse.failure, reader.moved 0)
  | none =>
      match content with
      | .unreadable failure => (.error failure, reader.moved 0)
      | .zeros =>
          (.ok (List.replicate (reader.allowance wanted) 0),
            reader.moved (reader.allowance wanted))
      | .bytes data =>
          let given := Content.slice data reader.position (reader.allowance wanted)
          (.ok given, reader.moved given.length)

/-- One call; nothing comes back from an interrupted one. -/
def call (reader : Reader) (content : Content) (wanted : Nat) :
    Option (Except Failure Bytes) × Reader :=
  match reader.waiting with
  | waiting + 1 => (none, { reader with waiting })
  | 0 =>
      let (answer, after) := reader.serve content wanted
      (some answer, after)

def read (reader : Reader) (content : Content) (wanted : Nat) : Except Failure Bytes × Reader :=
  go reader.waiting reader
where
  /-- At most so many interruptions from here on. -/
  go : Nat → Reader → Except Failure Bytes × Reader
    | 0, reader => reader.serve content wanted
    | left + 1, reader =>
        match reader.call content wanted with
        | (some answer, after) => (answer, after)
        | (none, after) => go left after

/-- Interrupted calls move nothing: the call that is served sees the reader as it was. -/
theorem read_eq_serve (reader : Reader) (content : Content) (wanted : Nat) :
    reader.read content wanted = ({ reader with waiting := 0 } : Reader).serve content wanted := by
  suffices all : ∀ left (reader : Reader), reader.waiting ≤ left →
      read.go content wanted left reader =
        ({ reader with waiting := 0 } : Reader).serve content wanted from
    all reader.waiting reader (Nat.le_refl _)
  intro left
  induction left with
  | zero =>
      intro reader none
      obtain ⟨position, pace, served, waiting, readFuse, seeks, seekFuse⟩ := reader
      simp only [Nat.le_zero_eq] at none
      subst none
      simp [read.go]
  | succ left ih =>
      intro reader bound
      obtain ⟨position, pace, served, waiting, readFuse, seeks, seekFuse⟩ := reader
      cases waiting with
      | zero => simp [read.go, call]
      | succ waiting =>
          simp only [read.go, call]
          exact ih _ (Nat.le_of_succ_le_succ bound)

end Reader

end BootImage
