import BootImage.Text

/-!
The identifier of an image: 32 bytes, usually a SHA-1 digest of the contents with zeros behind it.
Nothing in the format says what it is, so the zeros decide how it is shown.
-/

namespace BootImage

def ImageId.size : Nat := 32

structure ImageId where
  field : Field ImageId.size
  deriving DecidableEq

namespace ImageId

def digestSize : Nat := 20

/-- The bytes in groups of four, the last one shorter when they do not come out even. -/
def groups : Bytes → List Bytes
  | b₀ :: b₁ :: b₂ :: b₃ :: rest => [b₀, b₁, b₂, b₃] :: groups rest
  | [] => []
  | short => [short]

/-- The identifier as words, each read with the least significant byte first. -/
def words (id : ImageId) : List UInt32 :=
  (groups id.field.bytes).filterMap fun group => (Word.decode? group).map (·.1)

/-- Whether nothing follows the first twenty bytes, as behind a SHA-1 digest. -/
def isDigest (id : ImageId) : Bool :=
  (id.field.bytes.drop digestSize).all (· = 0)

/-- A digest as forty digits and its kind; anything else in full, byte pairs joined by `:` inside
a group of four and by a blank between groups. -/
def text (id : ImageId) : String :=
  if id.isDigest then
    String.join ((id.field.bytes.take digestSize).map Numeral.byteHex) ++ " sha1"
  else
    " ".intercalate ((groups id.field.bytes).map fun group =>
      ":".intercalate (group.map Numeral.byteHex))

/-- The text after the type's name: `ImageId(…)`. -/
def tagged (id : ImageId) : String :=
  "ImageId(" ++ id.text ++ ")"

end ImageId

end BootImage
