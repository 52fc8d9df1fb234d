import BootImage.Bytes

/-!
Quoting a byte string so that a shell reads it as one word. The word is cut into the longest
chunks that one style of quoting covers, and every chunk is written in the plainest style it
allows.
-/

namespace BootImage.Shell

/-- The styles of quoting that are open to a chunk. -/
structure Styles where
  bare : Bool
  single : Bool
  double : Bool
  deriving DecidableEq, Repr

def caret : UInt8 := 0x5E

/-- Whether a byte may stand without quotes: a letter, a digit or one of `+-./:@]_`. -/
def isBare (b : UInt8) : Bool :=
  (0x30 ≤ b ∧ b ≤ 0x39) ∨ (0x41 ≤ b ∧ b ≤ 0x5A) ∨ (0x61 ≤ b ∧ b ≤ 0x7A) ∨
    b ∈ [0x2B, 0x2D, 0x2E, 0x2F, 0x3A, 0x40, 0x5D, 0x5F]

/-- The styles that cover one byte. Single quotes cover neither themselves nor the backslash nor
`^`; double quotes cover neither the backquote nor `$`, `!` or `^`. -/
def stylesOf (b : UInt8) : Styles where
  bare := isBare b
  single := b ∉ [0x27, 0x5C, caret]
  double := b ∉ [0x60, 0x24, 0x21, caret]

namespace Styles

def all : Styles := ⟨true, true, true⟩

def both (left right : Styles) : Styles :=
  ⟨left.bare && right.bare, left.single && right.single, left.double && right.double⟩

def some? (styles : Styles) : Bool :=
  styles.bare || styles.single || styles.double

end Styles

/-- How far a chunk reaches while the styles last: its bytes, the styles left at its end, and the
bytes behind it. -/
def chunkFrom (styles : Styles) : Bytes → Bytes × Styles × Bytes
  | [] => ([], styles, [])
  | b :: rest =>
      let left := styles.both (stylesOf b)
      if left.some? then
        let (chunk, final, behind) := chunkFrom left rest
        (b :: chunk, final, behind)
      else ([], styles, b :: rest)

/-- No byte is lost when a chunk is cut off. -/
theorem chunkFrom_append (styles : Styles) (bytes : Bytes) :
    (chunkFrom styles bytes).1 ++ (chunkFrom styles bytes).2.2 = bytes := by
  induction bytes generalizing styles with
  | nil => rfl
  | cons b rest ih =>
      simp only [chunkFrom]
      split
      · simpa using ih _
      · rfl

/-- What is left behind a chunk is no longer than what it was cut from. -/
theorem length_chunkFrom_le (styles : Styles) (bytes : Bytes) :
    (chunkFrom styles bytes).2.2.length ≤ bytes.length := by
  have whole := congrArg List.length (chunkFrom_append styles bytes)
  rw [List.length_append] at whole
  omega

/-- A chunk in the plainest of its styles. -/
def writeChunk (styles : Styles) (chunk : Bytes) : Bytes :=
  if styles.bare then chunk
  else if styles.single then 0x27 :: chunk ++ [0x27]
  else
    let escaped := chunk.flatMap fun b => if b = 0x22 ∨ b = 0x5C then [0x5C, b] else [b]
    0x22 :: escaped ++ [0x22]

/-- The first byte with the styles it starts a chunk with. A chunk that starts with `^` is single
quoted. -/
def openChunk (b : UInt8) : Styles :=
  if b = caret then ⟨false, true, false⟩ else stylesOf b

/-- All chunks of a byte string, written one behind the other. -/
def quoteChunks : Bytes → Bytes
  | [] => []
  | b :: rest =>
      let cut := chunkFrom (openChunk b) rest
      writeChunk cut.2.1 (b :: cut.1) ++ quoteChunks cut.2.2
termination_by bytes => bytes.length
decreasing_by exact Nat.lt_succ_of_le (length_chunkFrom_le _ _)

/-- A byte string as one word of a command. A NUL cannot be quoted. -/
def quote? (bytes : Bytes) : Option Bytes :=
  if 0 ∈ bytes then none
  else if bytes = [] then some [0x27, 0x27]
  else some (quoteChunks bytes)

end BootImage.Shell
