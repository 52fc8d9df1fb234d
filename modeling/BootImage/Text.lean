import BootImage.Bytes

/-!
Text: as bytes, made of numbers, and on its way to a terminal.

* `Utf8`: text as bytes. Decoding never fails: the longest start of a well-formed sequence that
  cannot go on is replaced by one U+FFFD, and reading resumes behind it.
* `Numeral`: numbers as text, decimal or lower-case hexadecimal, with or without leading zeros.
* `Terminal`: text that is shown. The controls that a terminal may take for a command, or for the
  start of one, are written as escapes, so that a name from outside cannot command the terminal it
  is shown on. Line ends and all other characters stay as they are.
-/

namespace BootImage.Utf8

def encode (text : String) : Bytes :=
  text.toList.flatMap String.utf8EncodeChar

@[simp] theorem encode_append (left right : String) :
    encode (left ++ right) = encode left ++ encode right := by
  simp [encode, String.toList_append]

def replacement : Char := '\uFFFD'

/-- The first and the last byte that may stand at a place. -/
abbrev ByteRange := UInt8 × UInt8

def continuation : ByteRange := (0x80, 0xBF)

/-- The ranges of the bytes that complete a character after its first byte; none when no
character starts with it. The narrowed second ranges keep out overlong forms, surrogates and
values above U+10FFFF. -/
def followers (lead : UInt8) : Option (List ByteRange) :=
  if lead < 0x80 then some []
  else if lead < 0xC2 then none
  else if lead < 0xE0 then some [continuation]
  else if lead = 0xE0 then some [(0xA0, 0xBF), continuation]
  else if lead = 0xED then some [(0x80, 0x9F), continuation]
  else if lead < 0xF0 then some [continuation, continuation]
  else if lead = 0xF0 then some [(0x90, 0xBF), continuation, continuation]
  else if lead < 0xF4 then some [continuation, continuation, continuation]
  else if lead = 0xF4 then some [(0x80, 0x8F), continuation, continuation]
  else none

/-- The bytes at the front that fall in the ranges, in order, up to the first that does not. -/
def following : List ByteRange → Bytes → Bytes
  | (low, high) :: ranges, b :: rest =>
      if low ≤ b ∧ b ≤ high then b :: following ranges rest else []
  | _, _ => []

/-- The bits that a first byte contributes. -/
def leadBits (lead : UInt8) : Nat :=
  if lead < 0x80 then lead.toNat
  else if lead < 0xE0 then lead.toNat % 32
  else if lead < 0xF0 then lead.toNat % 16
  else lead.toNat % 8

/-- The code point of a complete sequence: six bits from every byte after the first. -/
def codePoint (lead : UInt8) (tail : Bytes) : Nat :=
  tail.foldl (fun value b => value * 64 + b.toNat % 64) (leadBits lead)

/-- The characters of a byte string whose first `skip` bytes are dealt with already. -/
def charsFrom : Nat → Bytes → List Char
  | _, [] => []
  | skip + 1, _ :: rest => charsFrom skip rest
  | 0, lead :: rest =>
      match followers lead with
      | none => replacement :: charsFrom 0 rest
      | some ranges =>
          let tail := following ranges rest
          let char :=
            if tail.length = ranges.length then Char.ofNat (codePoint lead tail) else replacement
          char :: charsFrom tail.length rest

/-- The text of a byte string, with U+FFFD for whatever is not UTF-8. -/
def decodeLossy (bytes : Bytes) : String :=
  String.ofList (charsFrom 0 bytes)

/-- The text of a byte string that is UTF-8 throughout. -/
def decode? (bytes : Bytes) : Option String :=
  let text := decodeLossy bytes
  if encode text = bytes then some text else none

end BootImage.Utf8

namespace BootImage.Numeral

/-- The digits of a number, with zeros in front when they are fewer than `width`. -/
def digits (base width n : Nat) : List Char :=
  (Nat.toDigits base n).leftpad width '0'

def decimal (n : Nat) : String :=
  String.ofList (digits 10 0 n)

/-- A number in decimal with at least `width` digits. -/
def paddedDecimal (width n : Nat) : String :=
  String.ofList (digits 10 width n)

def hex (n : Nat) : String :=
  "0x" ++ String.ofList (digits 16 0 n)

/-- An address: hexadecimal with at least eight digits, after the mark. -/
def address (n : Nat) : String :=
  "0x" ++ String.ofList (digits 16 8 n)

def byteHex (b : UInt8) : String :=
  String.ofList (digits 16 2 b.toNat)

end BootImage.Numeral

namespace BootImage.Terminal

/-- Bell, backspace, form feed, escape and delete. -/
def commands : List Char := ['\x07', '\x08', '\x0c', '\x1b', '\x7f']

/-- One character as it is sent: two hexadecimal digits for a command, a code point in braces for a
control behind ASCII. -/
def escape (c : Char) : String :=
  if c ∈ commands then "\\x" ++ String.ofList (Numeral.digits 16 2 c.toNat)
  else if 0x80 ≤ c.toNat ∧ c.toNat ≤ 0x9F then
    "\\u\x7b" ++ String.ofList (Numeral.digits 16 0 c.toNat) ++ "\x7d"
  else c.toString

/-- A text as it is sent. -/
def text (content : String) : String :=
  String.join (content.toList.map escape)

end BootImage.Terminal
