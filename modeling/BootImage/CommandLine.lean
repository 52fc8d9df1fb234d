import BootImage.Unpack

/-!
The command line: which arguments there are, and what a list of words asks for.

Words are read from the left and the first problem decides. An option whose value is a word of its
own is looked at when the next argument begins, so a word that is no argument at all comes before
a bad value right in front of it.
-/

namespace BootImage.CommandLine

inductive Setting where
  | source
  | directory
  | format
  | script
  | command
  | output
  | kernel
  | ramdisk
  | second
  deriving DecidableEq, Repr

inductive Switch where
  | verbose
  | info
  | null
  deriving DecidableEq, Repr

inductive Key where
  | setting (setting : Setting)
  | switch (switch : Switch)
  | help
  | version
  deriving DecidableEq, Repr

/-- The names that follow two dashes. -/
def longNames : List (Bytes × Key) :=
  [("src", .setting .source), ("dest-dir", .setting .directory), ("verbose", .switch .verbose),
    ("info", .switch .info), ("format", .setting .format), ("null", .switch .null),
    ("remake-script", .setting .script), ("mkbootimg", .setting .command),
    ("new-boot", .setting .output), ("kernel-name", .setting .kernel),
    ("ramdisk-name", .setting .ramdisk), ("second-name", .setting .second),
    ("help", .help), ("version", .version)].map fun (name, key) => (Utf8.encode name, key)

/-- The letters that follow one dash. -/
def shortNames : List (Bytes × Key) :=
  [("s", .setting .source), ("d", .setting .directory), ("v", .switch .verbose),
    ("i", .switch .info), ("0", .switch .null), ("r", .setting .script),
    ("m", .setting .command), ("n", .setting .output), ("h", .help),
    ("V", .version)].map fun (name, key) => (Utf8.encode name, key)

/-- Why a command line asks for nothing that can be done. -/
inductive UsageError where
  | sourceMissing
  | unknownWord
  | badValue
  | repeated
  | valueForSwitch
  | notUtf8
  | helpWanted
  | versionWanted
  deriving DecidableEq, Repr

/-- The exit code that goes with it. Asking for help is no mistake. -/
def UsageError.exitCode : UsageError → UInt32
  | .helpWanted | .versionWanted => 0
  | _ => 2

inductive Format where
  /-- For people to read. -/
  | info
  /-- As arguments of the packing command. -/
  | mkbootimg
  deriving DecidableEq, Repr

def Format.ofName? (name : Bytes) : Option Format :=
  if name = Utf8.encode "info" then some .info
  else if name = Utf8.encode "mkbootimg" then some .mkbootimg
  else none

/-- Whether a setting can have a value: the command is any text, a format one of the two, and a
path not empty. -/
def Setting.check (setting : Setting) (value : Bytes) : Except UsageError Unit :=
  match setting with
  | .command => if (Utf8.decode? value).isSome then .ok () else .error .notUtf8
  | .format => if (Format.ofName? value).isSome then .ok () else .error .badValue
  | _ => if value = [] then .error .badValue else .ok ()

/-- What the words so far ask for. -/
structure Draft where
  switches : List Switch
  values : List (Setting × Bytes)
  /-- The option that was named last, while its value is not looked at: the value, if it has come
  already. -/
  pending : Option (Setting × Option Bytes)

namespace Draft

def empty : Draft := ⟨[], [], none⟩

def value? (draft : Draft) (setting : Setting) : Option Bytes :=
  (draft.values.find? fun entry => entry.1 = setting).map (·.2)

/-- Gives a setting its value; it can have one only once. -/
def assign (draft : Draft) (setting : Setting) (value : Bytes) : Except UsageError Draft := do
  if (draft.value? setting).isSome then throw .repeated
  setting.check value
  return { draft with values := draft.values ++ [(setting, value)] }

/-- Looks at the option that was named last. -/
def settle (draft : Draft) : Except UsageError Draft :=
  match draft.pending with
  | none => .ok draft
  | some (_, none) => .error .badValue
  | some (setting, some value) => { draft with pending := none }.assign setting value

/-- Turns a switch on, or stops for help. -/
def raise (draft : Draft) (key : Key) : Except UsageError Draft := do
  let draft ← draft.settle
  match key with
  | .switch switch =>
      if switch ∈ draft.switches then throw .repeated
      return { draft with switches := draft.switches ++ [switch] }
  | .help => throw .helpWanted
  | .version => throw .versionWanted
  | .setting setting => return { draft with pending := some (setting, none) }

/-- A setting with a value that is attached to it. -/
def attach (draft : Draft) (setting : Setting) (value : Bytes) : Except UsageError Draft := do
  let draft ← draft.settle
  draft.assign setting value

def dash : UInt8 := 0x2D

def equals : UInt8 := 0x3D

/-- A word behind two dashes: a name, and a value behind the first `=`. -/
def long (draft : Draft) (word : Bytes) : Except UsageError Draft :=
  let name := word.takeWhile (· ≠ equals)
  let value := (word.dropWhile (· ≠ equals)).tail?
  match longNames.lookup name, value with
  | none, _ => .error .unknownWord
  | some (.setting setting), some value => draft.attach setting value
  | some _, some _ => .error .valueForSwitch
  | some key, none => draft.raise key

/-- A word behind one dash: letters, the last of which may be a setting with its value behind it,
an `=` between them or not. -/
def short (draft : Draft) : Bytes → Except UsageError Draft
  | [] => .ok draft
  | letter :: rest =>
      match shortNames.lookup [letter] with
      | none => .error .unknownWord
      | some (.setting setting) =>
          match rest with
          | [] => draft.raise (.setting setting)
          | first :: others =>
              draft.attach setting (if first = equals then others else first :: others)
      | some key => do short (← draft.raise key) rest

/-- A word that is no argument itself: the value of the option before it. -/
def plain (draft : Draft) (word : Bytes) : Except UsageError Draft :=
  match draft.pending with
  | some (setting, none) => .ok { draft with pending := some (setting, some word) }
  | _ => .error .unknownWord

/-- One word. A lone dash is no argument. -/
def word (draft : Draft) (word : Bytes) : Except UsageError Draft :=
  match word with
  | first :: second :: rest =>
      if first ≠ dash then draft.plain word
      else if second = dash then draft.long rest
      else draft.short (second :: rest)
  | _ => draft.plain word

/-- All words. Behind `--` nothing is an argument, and nothing else is asked for. -/
def words (draft : Draft) : List Bytes → Except UsageError Draft
  | [] => draft.settle
  | next :: rest =>
      if next = [dash, dash] then
        match rest with
        | [] => draft.settle
        | _ :: _ => .error .unknownWord
      else do (← draft.word next).words rest

end Draft

structure Invocation where
  source : Path
  /-- Where to unpack to, when it is said. -/
  directory : Option Path
  verbose : Bool
  info : Bool
  null : Bool
  format : Format
  plan : Plan
  deriving DecidableEq

/-- Where to unpack to: beside the source unless it is said otherwise. -/
def Invocation.targetDirectory (invocation : Invocation) : Path :=
  invocation.directory.getD invocation.source.directory

/-- How to unpack: as usual but for what is given. -/
def Draft.plan (draft : Draft) : Plan :=
  let usual := Plan.standard
  let path (setting : Setting) (standard : Path) := (draft.value? setting).getD standard
  { names :=
      { script := path .script usual.names.script
        kernel := path .kernel usual.names.kernel
        ramdisk := path .ramdisk usual.names.ramdisk
        second := path .second usual.names.second
        output := path .output usual.names.output }
    command := ((draft.value? .command).map Utf8.decodeLossy).getD usual.command
    blockSize := usual.blockSize }

/-- Reads a command line, without the name of the program. -/
def parse (words : List Bytes) : Except UsageError Invocation := do
  let draft ← Draft.empty.words words
  match draft.value? .source with
  | none => throw .sourceMissing
  | some source =>
      return {
        source
        directory := draft.value? .directory
        verbose := Switch.verbose ∈ draft.switches
        info := Switch.info ∈ draft.switches
        null := Switch.null ∈ draft.switches
        format := ((draft.value? .format).bind Format.ofName?).getD .info
        plan := draft.plan }

end BootImage.CommandLine
