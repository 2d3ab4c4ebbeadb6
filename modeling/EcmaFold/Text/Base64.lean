import EcmaFold.Text.Bytes

/-!
Bytes written with 64 letters: four letters stand for three bytes, and equals signs fill up the last four.
-/

namespace EcmaFold.Base64

/-- The value of a letter. -/
def value? (b : UInt8) : Option Nat :=
  if 0x41 ≤ b ∧ b ≤ 0x5A then some (b.toNat - 0x41)
  else if 0x61 ≤ b ∧ b ≤ 0x7A then some (b.toNat - 0x61 + 26)
  else if 0x30 ≤ b ∧ b ≤ 0x39 then some (b.toNat - 0x30 + 52)
  else if b = 0x2B then some 62
  else if b = 0x2F then some 63
  else none

/-- The three bytes of four values. -/
def bytes (a b c d : Nat) : Bytes :=
  [(a * 4 + b / 16).toUInt8, (b % 16 * 16 + c / 4).toUInt8, (c % 4 * 64 + d).toUInt8]

/-- Decodes letters, four at a time. Bits that do not fill a byte do not count. -/
def groups : Bytes → Option Bytes
  | [] => some []
  | [a, b, 0x3D, 0x3D] => do return (bytes (← value? a) (← value? b) 0 0).take 1
  | [a, b, c, 0x3D] => do return (bytes (← value? a) (← value? b) (← value? c) 0).take 2
  | a :: b :: c :: d :: rest => do
    let three := bytes (← value? a) (← value? b) (← value? c) (← value? d)
    return three ++ (← groups rest)
  | _ => none

/-- Decodes a text. Line breaks in it do not count. -/
def decode? (text : Bytes) : Option Bytes := groups (text.filter fun b => b ≠ 0x0D && b ≠ 0x0A)

end EcmaFold.Base64
