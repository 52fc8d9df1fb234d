import BootImage.CommandLine
import BootImage.Machine
import BootImage.Summary
import BootImage.Text

/-!
The program: what an invocation does on a host, and what the user sees of it.

`Program.run` opens the source and accepts its header before anything else, so a source without an
acceptable header costs nothing; with `info` it prints and is done. Otherwise it makes the target
directory and unpacks into it.
-/

namespace BootImage.Program

open CommandLine (Invocation UsageError)

inductive RunError where
  | openSource (source : Path) (cause : Failure)
  | readHeader (source : Path) (cause : Error)
  | makeDirectory (directory : Path) (cause : Failure)
  | unpack (source : Path) (cause : Error)
  /-- A parameter holds a byte that cannot be quoted. -/
  | quote (flag : String)
  deriving DecidableEq, Repr

/-- A path between double quotes, as it is. -/
def inQuotes (path : Path) : String :=
  "\"" ++ path.display ++ "\""

/-- An error and what it says of the failure underneath. -/
def errorChain (cause : Error) : List String :=
  cause.message :: cause.source.toList

/-- What failed, then why, down to the failure at the bottom. -/
def RunError.chain : RunError → List String
  | .openSource source cause => ["failed to open " ++ inQuotes source, cause.text]
  | .readHeader source cause => ("failed to read header of " ++ inQuotes source) :: errorChain cause
  | .makeDirectory directory cause =>
      ["failed to create directory " ++ inQuotes directory, cause.text]
  | .unpack source cause => ("failed to unpack " ++ inQuotes source) :: errorChain cause
  | .quote flag => ["cannot quote " ++ flag ++ " value: Nul"]

def RunError.message (error : RunError) : String :=
  ": ".intercalate error.chain

inductive Halt where
  | error (reason : RunError)
  | fault (reason : Fault)
  deriving DecidableEq, Repr

/-- A stop of the unpacker, with what was being done. -/
def Halt.ofStop (context : Error → RunError) : Stop → Halt
  | .error reason => .error (context reason)
  | .fault reason => .fault reason

variable {m : Type → Type} [Host m]

/-- Prints text that may not have come about. -/
def printResult (text : Except Halt Bytes) : ExceptT Halt m Unit :=
  match text with
  | .error halt => throw halt
  | .ok text => ExceptT.lift (Host.print text)

/-- The header of an image in the format that is asked for. -/
def infoText (invocation : Invocation) (image : Image) : Except Halt Bytes :=
  match invocation.format with
  | .info => image.summary.mapError .fault
  | .mkbootimg =>
      let parameters := parameters image.header invocation.plan.names
      if invocation.null then .ok (Parameter.nulTerminated parameters)
      else (Parameter.shellLine parameters).mapError fun flag => .error (.quote flag)

def extract (invocation : Invocation) (image : Image) : ExceptT Halt m Unit := do
  let directory := invocation.targetDirectory
  (ExceptT.mk (Host.makeDirectories directory)).adapt fun failure =>
    .error (.makeDirectory directory failure)
  let report ← (image.unpackInto directory invocation.plan).adapt
    (Halt.ofStop (.unpack invocation.source))
  Host.tell .info ("Wrote " ++ Numeral.decimal report.written.length ++ " files to " ++
    inQuotes directory)

def run (invocation : Invocation) : ExceptT Halt m Unit := do
  (ExceptT.mk (Host.openSource invocation.source)).adapt fun failure =>
    .error (.openSource invocation.source failure)
  let image ← (Image.accept : ExceptT Stop m Image).adapt
    (Halt.ofStop (.readHeader invocation.source))
  if invocation.info then printResult (infoText invocation image)
  else extract invocation image

def exitCode : Except Halt Unit → UInt32
  | .ok () => 0
  | .error (.error _) => 1
  | .error (.fault _) => 101

/-- What an entry of the record puts on standard output: progress when it is wanted, and all text
that was asked for. -/
def standardOutput (verbose : Bool) : Entry → Bytes
  | .output text => text
  | .event event =>
      if event.level.isProgress verbose then Utf8.encode (Terminal.text event.text ++ "\n") else []

/-- What an entry of the record puts on standard error: warnings, with their level. -/
def standardError : Entry → Bytes
  | .event ⟨.warn, text⟩ => Utf8.encode (" " ++ Level.warn.name ++ " " ++ Terminal.text text ++ "\n")
  | _ => []

/-- What the end of a run puts on standard error. -/
def lastWords : Except Halt Unit → Bytes
  | .ok () => []
  | .error (.error reason) => Utf8.encode ("Error: " ++ reason.message ++ "\n")
  | .error (.fault reason) => Utf8.encode (reason.message ++ "\n")

/-- What is left of a run: exit code, output, and the machine behind it. -/
structure Outcome where
  /-- What was wrong with the command line; the program did not start then. -/
  usage : Option UsageError
  exitCode : UInt32
  output : Bytes
  errors : Bytes
  machine : Machine

def execute (arguments : List Bytes) (machine : Machine) : Outcome :=
  match CommandLine.parse arguments with
  | .error usage => ⟨some usage, usage.exitCode, [], [], machine⟩
  | .ok invocation =>
      let (result, after) := (run invocation : ExceptT Halt (StateM Machine) Unit).run.run machine
      { usage := none
        exitCode := exitCode result
        output := after.journal.flatMap (standardOutput invocation.verbose)
        errors := after.journal.flatMap standardError ++ lastWords result
        machine := after }

end BootImage.Program
