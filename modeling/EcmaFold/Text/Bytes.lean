/-!
Byte strings. Source text, names and all output are lists of bytes, because a source need not be
valid UTF-8 and every offset and column counts bytes.
-/

namespace EcmaFold

/-- A text as its bytes. -/
abbrev Bytes := List UInt8

/-- The bytes of a literal text. -/
def utf8 (text : String) : Bytes := text.toByteArray.data.toList

namespace Bytes

/-- The byte of an ASCII character. -/
abbrev ofAscii (c : Char) : UInt8 := c.toNat.toUInt8

/-- Decimal digits of a natural number, without leading zeros. -/
def ofNat (n : Nat) : Bytes := (Nat.toDigits 10 n).map ofAscii

/-- Decimal text of an integer, with `-` before a negative one. -/
def ofInt (i : Int) : Bytes := if i < 0 then 45 :: ofNat i.natAbs else ofNat i.natAbs

def ofBool (b : Bool) : Bytes := if b then utf8 "true" else utf8 "false"

/-- `count` copies of the space. -/
def spaces (count : Nat) : Bytes := List.replicate count 32

/-- Fills `text` up to `width` with `fill` on the left. -/
def padLeft (fill : UInt8) (width : Nat) (text : Bytes) : Bytes :=
  List.replicate (width - text.length) fill ++ text

/-- The texts one after the other with `separator` between two of them. -/
def join (separator : Bytes) : List Bytes → Bytes
  | [] => []
  | [text] => text
  | text :: rest => text ++ separator ++ join separator rest

/-- A hexadecimal digit in lower case. -/
def hexDigit (n : Nat) : UInt8 := if n < 10 then (48 + n).toUInt8 else (87 + n).toUInt8

/-- The lowest `width` hexadecimal digits of `n`. -/
def hex : (width : Nat) → (n : Nat) → Bytes
  | 0, _ => []
  | width + 1, n => hex width (n / 16) ++ [hexDigit (n % 16)]

/-- The value of a hexadecimal digit of either case. -/
def hexValue? (b : UInt8) : Option Nat :=
  if 48 ≤ b ∧ b ≤ 57 then some (b.toNat - 48)
  else if 97 ≤ b ∧ b ≤ 102 then some (b.toNat - 87)
  else if 65 ≤ b ∧ b ≤ 70 then some (b.toNat - 55)
  else none

def isDigit (b : UInt8) : Bool := 48 ≤ b && b ≤ 57

def isHexDigit (b : UInt8) : Bool := (hexValue? b).isSome

/-- The natural number that digits spell in base `base`. -/
def digitsValue (base : Nat) (digits : Bytes) : Nat :=
  digits.foldl (fun value digit => value * base + (hexValue? digit).getD 0) 0

/-- Byte order: the first difference decides, and a proper beginning comes first. -/
def before (a b : Bytes) : Bool := decide (a < b)

/-- Puts `word` at its place in a list that increases in byte order; a word already there is not
repeated. -/
def insertSorted (word : Bytes) : List Bytes → List Bytes
  | [] => [word]
  | first :: rest =>
    if before word first then word :: first :: rest
    else if word = first then first :: rest
    else first :: insertSorted word rest

/-- The words in byte order, each once. -/
def sortedSet (words : List Bytes) : List Bytes := words.foldl (fun set word => insertSorted word set) []

end Bytes

end EcmaFold
