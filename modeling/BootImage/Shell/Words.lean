import BootImage.Bytes

/-!
What a shell reads: the commands of a text, each as its words.

Unquoted blanks divide words and unquoted newlines divide commands; `#` at the start of a word
opens a comment; a backslash, single quotes and double quotes quote, and a backslash before a
newline joins two lines. Text that a shell would expand or take for an operator has no reading
here.
-/

namespace BootImage.Shell

/-- Where in a text a reader stands. -/
inductive Mode where
  | plain
  | comment
  | single
  | double
  deriving DecidableEq, Repr

/-- What has been read: the word that has begun, if any, the words before it in its command, and
the commands before that. -/
structure Reading where
  word : Option Bytes
  words : List Bytes
  commands : List (List Bytes)
  deriving DecidableEq, Repr

namespace Reading

def empty : Reading := ⟨none, [], []⟩

def push (reading : Reading) (bytes : Bytes) : Reading :=
  { reading with word := some (reading.word.getD [] ++ bytes) }

def endWord (reading : Reading) : Reading :=
  match reading.word with
  | none => reading
  | some word => { reading with word := none, words := reading.words ++ [word] }

/-- The current command is over; one without words is none. -/
def endCommand (reading : Reading) : Reading :=
  let ended := reading.endWord
  if ended.words = [] then ended
  else ⟨none, [], ended.commands ++ [ended.words]⟩

end Reading

/-- Bytes that a shell does not read as themselves outside of quotes: operators and what opens an
expansion. -/
def isSpecial (b : UInt8) : Bool :=
  b ∈ [0x24, 0x60, 0x26, 0x7C, 0x3B, 0x3C, 0x3E, 0x28, 0x29, 0x2A, 0x3F, 0x5B, 0x7E, 0x21, 0x5E,
    0x7B, 0x7D]

/-- Reads on from a mode. -/
def readFrom : Mode → Reading → Bytes → Option Reading
  | .plain, reading, [] => some reading.endCommand
  | .comment, reading, [] => some reading.endCommand
  | .single, _, [] => none
  | .double, _, [] => none
  | .plain, reading, 0x5C :: 0x0A :: rest => readFrom .plain reading rest
  | .plain, reading, 0x5C :: b :: rest => readFrom .plain (reading.push [b]) rest
  | .plain, reading, b :: rest =>
      if b = 0x20 ∨ b = 0x09 then readFrom .plain reading.endWord rest
      else if b = 0x0A then readFrom .plain reading.endCommand rest
      else if b = 0x27 then readFrom .single (reading.push []) rest
      else if b = 0x22 then readFrom .double (reading.push []) rest
      else if b = 0x23 ∧ reading.word = none then readFrom .comment reading rest
      else if b = 0x5C ∨ isSpecial b then none
      else readFrom .plain (reading.push [b]) rest
  | .comment, reading, b :: rest =>
      if b = 0x0A then readFrom .plain reading.endCommand rest
      else readFrom .comment reading rest
  | .single, reading, b :: rest =>
      if b = 0x27 then readFrom .plain reading rest
      else readFrom .single (reading.push [b]) rest
  | .double, reading, 0x5C :: b :: rest =>
      if b = 0x0A then readFrom .double reading rest
      else if b ∈ [0x24, 0x60, 0x22, 0x5C] then readFrom .double (reading.push [b]) rest
      else readFrom .double (reading.push [0x5C, b]) rest
  | .double, reading, b :: rest =>
      if b = 0x22 then readFrom .plain reading rest
      else if b ∈ [0x24, 0x60, 0x5C] then none
      else readFrom .double (reading.push [b]) rest

/-- The commands of a text; none when it does not close its quotes or asks for an expansion. -/
def commands? (text : Bytes) : Option (List (List Bytes)) :=
  (readFrom .plain .empty text).map (·.commands)

end BootImage.Shell
