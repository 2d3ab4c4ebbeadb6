import EcmaFold.Text.Bytes

/-!
Integers as a person writes them on a command line or in a settings file: a sign, a base marker and
digits, which single underscores may separate.
-/

namespace EcmaFold.Integer

/-- Why a text is no integer. -/
inductive Fault where
  | invalid
  | outOfRange
  deriving DecidableEq, Repr

/-- The first magnitude that does not fit 64 bits. -/
def limit : Nat := 0x10000000000000000

/-- The magnitude of the least integer, and the first that no positive one has. -/
def signedLimit : Nat := 0x8000000000000000

/-- The value of a digit or letter, as in base 36. -/
def digitValue? (b : UInt8) : Option Nat :=
  if 0x30 ≤ b ∧ b ≤ 0x39 then some (b.toNat - 0x30)
  else if 0x61 ≤ b ∧ b ≤ 0x7A then some (b.toNat - 0x61 + 10)
  else if 0x41 ≤ b ∧ b ≤ 0x5A then some (b.toNat - 0x41 + 10)
  else none

/-- The digits of a number with their base. `0x`, `0o` and `0b` mark a base, and so does a leading zero.
The last part says whether anything was marked. -/
def based : Bytes → Nat × Bytes × Bool
  | 0x30 :: rest =>
    match rest with
    | marker :: digit :: digits =>
      if marker = 0x78 ∨ marker = 0x58 then (16, digit :: digits, true)
      else if marker = 0x6F ∨ marker = 0x4F then (8, digit :: digits, true)
      else if marker = 0x62 ∨ marker = 0x42 then (2, digit :: digits, true)
      else (8, rest, true)
    | _ => (8, rest, true)
  | digits => (10, digits, false)

/-- Goes on from `value` through the digits, passing over underscores. A value that does not fit 64 bits
ends the reading at once. -/
def accumulate (base : Nat) : (value : Nat) → Bytes → Except Fault Nat
  | value, [] => .ok value
  | value, 0x5F :: rest => accumulate base value rest
  | value, b :: rest =>
    match digitValue? b with
    | none => .error .invalid
    | some digit =>
      if base ≤ digit then .error .invalid
      else if limit ≤ value * base + digit then .error .outOfRange
      else accumulate base (value * base + digit) rest

/-- Whether each underscore has a digit on both sides; `digit` says whether one stands before. -/
def separated : (digit : Bool) → Bytes → Bool
  | digit, [] => digit
  | digit, 0x5F :: rest => digit && separated false rest
  | _, _ :: rest => separated true rest

/-- Reads digits without a sign. -/
def magnitude (text : Bytes) : Except Fault Nat := do
  let (base, digits, marked) := based text
  if text.isEmpty then throw .invalid
  let value ← accumulate base 0 digits
  if (0x5F : UInt8) ∈ digits ∧ !separated marked digits then throw .invalid
  return value

/-- Reads an integer of 64 bits, a sign and then digits in the way of `magnitude`. -/
def signed (magnitude : Bytes → Except Fault Nat) (text : Bytes) : Except Fault Int := do
  let (negative, digits) := match text with
    | 0x2B :: rest => (false, rest)
    | 0x2D :: rest => (true, rest)
    | _ => (false, text)
  let value ← magnitude digits
  if negative then
    if signedLimit < value then throw .outOfRange else return -(value : Int)
  else if signedLimit ≤ value then throw .outOfRange
  else return (value : Int)

/-- Reads an integer of 64 bits. -/
def read (text : Bytes) : Except Fault Int := signed magnitude text

/-- Reads an integer of 64 bits whose digits are in the given base. -/
def readIn (base : Nat) (text : Bytes) : Except Fault Int :=
  signed (fun digits => if digits.isEmpty then throw .invalid else accumulate base 0 digits) text

end EcmaFold.Integer
