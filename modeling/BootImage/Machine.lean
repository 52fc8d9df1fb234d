import BootImage.FileTree.Walk
import BootImage.Host
import BootImage.Writer

/-!
A host that is a value: a file tree, a source with its reader, a destination with its writer, and
the record of what was told. Everything the unpacker does can be run on it and looked at.

A source is read where it lies: one that is a file of the tree gives whatever that file holds at
the time. A file that is being written is empty in the tree and gets its bytes when it is closed.
-/

namespace BootImage

inductive Origin where
  | memory (data : Array UInt8)
  /-- What lies at a place of the file tree. -/
  | stored (place : Location)

structure Machine where
  files : FileTree
  origin : Origin
  reader : Reader
  writer : Writer
  /-- The place of the file being written, when the destination is one of the tree. -/
  destination : Option Location
  /-- What was told so far. -/
  journal : List Entry

namespace Machine

/-- Nothing but files: an empty source, and a destination outside of the tree. -/
def ofFiles (files : FileTree) : Machine where
  files := files
  origin := .memory #[]
  reader := .fresh
  writer := .fresh
  destination := none
  journal := []

def content (machine : Machine) : Content :=
  match machine.origin with
  | .memory data => .bytes data
  | .stored place => machine.files.contentAt place

def openSource (path : Path) (machine : Machine) : Except Failure Unit × Machine :=
  match machine.files.openToRead path with
  | .error failure => (.error failure, machine)
  | .ok place => (.ok (), { machine with origin := .stored place, reader := .fresh })

def seek (position : UInt64) (machine : Machine) : Except Failure Unit × Machine :=
  let (answer, reader) := machine.reader.seek position.toNat
  (answer, { machine with reader })

def read (wanted : Nat) (machine : Machine) : Except Failure Bytes × Machine :=
  let (answer, reader) := machine.reader.read machine.content wanted
  (answer, { machine with reader })

/-- How the file or device at a place takes bytes. -/
def writerFor : Option Node → Writer
  | some (.device behaviour) =>
      { Writer.fresh with writeFuse := behaviour.writeFailure.map fun failure => ⟨0, failure⟩ }
  | _ => .fresh

def create (path : Path) (machine : Machine) : Except Failure Unit × Machine :=
  match machine.files.create path with
  | .error failure => (.error failure, machine)
  | .ok (files, place) =>
      (.ok (), { machine with
        files, destination := some place, writer := writerFor (files.node? place) })

def write (bytes : Bytes) : Machine → Except Failure Nat × Machine
  | { files, origin, reader, writer, destination, journal } =>
      let (answer, writer) := writer.write bytes
      (answer, { files, origin, reader, writer, destination, journal })

def flush (machine : Machine) : Except Failure Unit × Machine :=
  let (answer, writer) := machine.writer.flush
  (answer, { machine with writer })

/-- Makes the destination executable for its owner and group. -/
def markExecutable (machine : Machine) : Except Failure Unit × Machine :=
  match machine.destination with
  | none => (.ok (), machine)
  | some place =>
      match machine.files.node? place with
      | some (.file content _) =>
          (.ok (), { machine with files := machine.files.put place (.file content Node.scriptMode) })
      | some (.device behaviour) =>
          match behaviour.modeFailure with
          | some failure => (.error failure, machine)
          | none => (.ok (), machine)
      | _ => (.ok (), machine)

/-- Ends writing: a file of the tree holds now what its writer held. -/
def close (machine : Machine) : Machine :=
  match machine.destination with
  | none => machine
  | some place =>
      match machine.files.node? place with
      | some (.file _ mode) =>
          { machine with
            files := machine.files.put place (.file machine.writer.held mode)
            destination := none }
      | _ => { machine with destination := none }

def makeDirectories (path : Path) (machine : Machine) : Except Failure Unit × Machine :=
  let (answer, files) := machine.files.makeDirectories path
  (answer, { machine with files })

def record (entry : Entry) (machine : Machine) : Machine :=
  { machine with journal := machine.journal ++ [entry] }

def events (machine : Machine) : List Event :=
  machine.journal.filterMap fun
    | .event event => some event
    | .output _ => none

end Machine

instance : Host (StateM Machine) where
  openSource path := modifyGet (Machine.openSource path)
  seek position := modifyGet (Machine.seek position)
  read wanted := modifyGet (Machine.read wanted)
  create path := modifyGet (Machine.create path)
  write bytes := modifyGet (Machine.write bytes)
  flush := modifyGet Machine.flush
  markExecutable := modifyGet Machine.markExecutable
  close := modify Machine.close
  makeDirectories path := modifyGet (Machine.makeDirectories path)
  report event := modify (Machine.record (.event event))
  print text := modify (Machine.record (.output text))

end BootImage
