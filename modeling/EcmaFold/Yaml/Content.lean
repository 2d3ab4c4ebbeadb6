import EcmaFold.Text.Utf16

/-!
The characters of a document. It is read in portions, and what cannot be read only matters to those who get
to its portion.
-/

namespace EcmaFold.Yaml

/-- How characters are written as bytes. -/
inductive Encoding where
  | utf8
  | utf16 (bigEndian : Bool)

namespace Encoding

/-- The encoding that the first bytes tell by the mark of their order, and what follows the mark. -/
def ofMark : Bytes → Encoding × Bytes
  | 0xFF :: 0xFE :: rest => (utf16 false, rest)
  | 0xFE :: 0xFF :: rest => (utf16 true, rest)
  | 0xEF :: 0xBB :: 0xBF :: rest => (utf8, rest)
  | bytes => (utf8, bytes)

/-- How many bytes the character at the head has to take. -/
def width : Encoding → Bytes → Nat
  | utf16 bigEndian, bytes => Utf16.width bigEndian bytes
  | utf8, first :: _ =>
    if first < 0xC0 then 1 else if first < 0xE0 then 2 else if first < 0xF0 then 3
    else if first < 0xF8 then 4 else 1
  | utf8, [] => 1

/-- The character at the head of the bytes. -/
def char? : Encoding → Bytes → Option Char
  | utf16 bigEndian, bytes => Utf16.decode? bigEndian bytes
  | utf8, bytes => (Utf8.decode? bytes).map (·.1)

end Encoding

/-- A character that may stand in a document. -/
def isAllowed (c : Char) : Bool :=
  let code := c.toNat
  code = 0x09 || code = 0x0A || code = 0x0D || (0x20 ≤ code && code ≤ 0x7E) || code = 0x85 ||
    (0xA0 ≤ code && code ≤ 0xFFFD) || 0x10000 ≤ code

/-- Writes every line break with a carriage return as a line feed. -/
def unifyBreaks : List Char → List Char
  | [] => []
  | '\r' :: '\n' :: rest => '\n' :: unifyBreaks rest
  | '\r' :: rest => '\n' :: unifyBreaks rest
  | c :: rest => c :: unifyBreaks rest

/-- The mark of the byte order as a character. -/
def byteOrderMark : Char := '\uFEFF'

/-- The characters of a document, as far as they can be read. -/
structure Content where
  chars : List Char
  /-- Whether these are all. -/
  whole : Bool
  /-- Lines that begin before this index lose their first character. They do so in the first portion if
  that begins with a second mark of the byte order. -/
  markedTo : Nat := 0

namespace Content

/-- How many bytes are read at once. -/
def portion : Nat := 512

/-- Reads on with `room` bytes left in the portion; a character that does not fit goes to the next one.
The characters of the portions before and of this one are given in reverse. `pending` bytes still belong to
the character read last. -/
def readFrom (encoding : Encoding) : (pending room : Nat) → (before portionChars : List Char) → Bytes →
    Content
  | _, _, before, portionChars, [] => { chars := (portionChars ++ before).reverse, whole := true }
  | pending + 1, room, before, portionChars, _ :: rest =>
    readFrom encoding pending room before portionChars rest
  | 0, room, before, portionChars, b :: rest =>
    let width := encoding.width (b :: rest)
    let (room, before, portionChars) :=
      if room < width || ((b :: rest).drop (width - 1)).isEmpty then (portion, portionChars ++ before, [])
      else (room, before, portionChars)
    match (encoding.char? (b :: rest)).filter isAllowed with
    | some c => readFrom encoding (width - 1) (room - width) before (c :: portionChars) rest
    | none => { chars := before.reverse, whole := false }

/-- The characters of a document. -/
def ofBytes (bytes : Bytes) : Content :=
  let (encoding, text) := Encoding.ofMark bytes
  let room := portion - (bytes.length - text.length)
  let content := readFrom encoding 0 room [] [] text
  let first := readFrom encoding 0 room [] [] (text.take room)
  { content with
    chars := unifyBreaks content.chars
    markedTo := if content.chars.head? = some byteOrderMark then (unifyBreaks first.chars).length else 0 }

end Content

end EcmaFold.Yaml
