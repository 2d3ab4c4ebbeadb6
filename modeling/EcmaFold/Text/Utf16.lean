import EcmaFold.Text.Utf8

/-!
UTF-16 reading of byte strings. A character takes one unit of two bytes, or two units that are surrogates
of each other; a surrogate alone is no character.
-/

namespace EcmaFold.Utf16

/-- The unit at the head of the bytes. -/
def unit? (bigEndian : Bool) : Bytes → Option Nat
  | a :: b :: _ => some (if bigEndian then a.toNat * 256 + b.toNat else b.toNat * 256 + a.toNat)
  | _ => none

/-- The first surrogate of two. -/
def isHigh (unit : Nat) : Bool := 0xD800 ≤ unit && unit ≤ 0xDBFF

/-- The second surrogate of two. -/
def isLow (unit : Nat) : Bool := 0xDC00 ≤ unit && unit ≤ 0xDFFF

/-- How many bytes the character at the head has to take. -/
def width (bigEndian : Bool) (bytes : Bytes) : Nat := if (unit? bigEndian bytes).any isHigh then 4 else 2

/-- The character at the head of the bytes. -/
def decode? (bigEndian : Bool) (bytes : Bytes) : Option Char := do
  let unit ← unit? bigEndian bytes
  if isHigh unit then
    let low ← unit? bigEndian (bytes.drop 2)
    guard (isLow low)
    Utf8.scalar? 0 (0x10000 + (unit - 0xD800) * 0x400 + (low - 0xDC00))
  else Utf8.scalar? 0 unit

end EcmaFold.Utf16
