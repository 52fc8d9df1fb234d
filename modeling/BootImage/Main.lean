import BootImage.Program

/-!
The program on a real system. Files are reached through handles; everything that is decided is
decided by `Program.run`.
-/

namespace BootImage.SystemHost

open BootImage.Program

/-- What is open, and whether progress is shown. -/
structure Session where
  verbose : Bool
  source : Option IO.FS.Handle
  /-- The destination, with the path it was made by. -/
  destination : Option (IO.FS.Handle × String)

/-- Work with open files. -/
abbrev SystemM := StateT Session IO

/-- A path as the system takes it. -/
def systemPath (path : Path) : String :=
  path.display

/-- A system error as a failure: its text, and its number where there is one. -/
def failureOf (error : IO.Error) : Failure :=
  match error with
  | .noFileOrDirectory _ code details => .system .notFound details code.toNat
  | .alreadyExists _ code details => .system .alreadyExists details code.toNat
  | .permissionDenied _ code details => .system .permissionDenied details code.toNat
  | .inappropriateType _ code details => .system .isADirectory details code.toNat
  | .invalidArgument _ code details => .system .invalidInput details code.toNat
  | .resourceExhausted _ code details => .system .storageFull details code.toNat
  | .otherError code details => .system .other details code.toNat
  | .unexpectedEof => .endOfInput
  | other => ⟨.other, toString other⟩

/-- Runs an operation of the system and keeps its failure. -/
def guarded {α : Type} (operation : IO α) : SystemM (Except Failure α) := do
  match ← (operation.toBaseIO : BaseIO (Except IO.Error α)) with
  | .ok value => return .ok value
  | .error error => return .error (failureOf error)

def maxRead : Nat := 65536

/-- Reads past so many bytes. -/
partial def skip (handle : IO.FS.Handle) (count : Nat) : IO Unit := do
  if 0 < count then
    let bytes ← handle.read (USize.ofNat (min count maxRead))
    if 0 < bytes.size then skip handle (count - bytes.size)

def moveTo (position : Nat) : SystemM (Except Failure Unit) := do
  match (← get).source with
  | none => return .ok ()
  | some handle => guarded do
      handle.rewind
      skip handle position

def readSource (wanted : Nat) : SystemM (Except Failure Bytes) := do
  match (← get).source with
  | none => return .ok []
  | some handle => guarded do
      let bytes ← handle.read (USize.ofNat (min wanted maxRead))
      return bytes.toList

def writeDestination (bytes : Bytes) : SystemM (Except Failure Nat) := do
  match (← get).destination with
  | none => return .ok bytes.length
  | some (handle, _) => guarded do
      handle.write ⟨bytes.toArray⟩
      handle.flush
      return bytes.length

/-- Sets the permission bits of the destination to those of a script. -/
def makeDestinationExecutable : SystemM (Except Failure Unit) := do
  match (← get).destination with
  | none => return .ok ()
  | some (_, path) => guarded do
      let owner : IO.AccessRight := { read := true, write := true, execution := true }
      let group : IO.AccessRight := { read := true, write := false, execution := true }
      IO.setAccessRights path { user := owner, group := group }

def put (stream : IO.FS.Stream) (bytes : Bytes) : IO Unit := do
  if bytes ≠ [] then
    stream.write ⟨bytes.toArray⟩
    stream.flush

/-- Shows an entry of the record where it belongs. -/
def showEntry (entry : Entry) : SystemM Unit := do
  put (← IO.getStdout) (standardOutput (← get).verbose entry)
  put (← IO.getStderr) (standardError entry)

instance : Host SystemM where
  openSource path := do
    match ← guarded (IO.FS.Handle.mk (systemPath path) .read) with
    | .error failure => return .error failure
    | .ok handle =>
        modify fun session => { session with source := some handle }
        return .ok ()
  seek position := moveTo position.toNat
  read wanted := readSource wanted
  create path := do
    match ← guarded (IO.FS.Handle.mk (systemPath path) .write) with
    | .error failure => return .error failure
    | .ok handle =>
        modify fun session => { session with destination := some (handle, systemPath path) }
        return .ok ()
  write bytes := writeDestination bytes
  flush := return .ok ()
  markExecutable := makeDestinationExecutable
  close := modify fun session => { session with destination := none }
  makeDirectories path := guarded (IO.FS.createDirAll (systemPath path))
  report event := showEntry (.event event)
  print text := showEntry (.output text)

def usage : String :=
  "usage: bootimage --src IMAGE [--dest-dir DIR] [--verbose] [--info]\n" ++
  "  [--format info|mkbootimg] [--null] [--remake-script NAME] [--mkbootimg COMMAND]\n" ++
  "  [--new-boot NAME] [--kernel-name NAME] [--ramdisk-name NAME] [--second-name NAME]\n"

end BootImage.SystemHost

open BootImage BootImage.Program BootImage.SystemHost in
def main (arguments : List String) : IO UInt32 := do
  match CommandLine.parse (arguments.map Utf8.encode) with
  | .error error =>
      let stream ← if error.exitCode = 0 then IO.getStdout else IO.getStderr
      put stream (Utf8.encode usage)
      return error.exitCode
  | .ok invocation =>
      let work := (run invocation : ExceptT Halt SystemM Unit).run
      let (result, _) ← work.run ⟨invocation.verbose, none, none⟩
      put (← IO.getStderr) (lastWords result)
      return exitCode result
