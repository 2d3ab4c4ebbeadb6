import EcmaFold.Lexer.Name

/-!
Numeric literals: hexadecimal integers, decimal integers, and decimals with a fraction or an
exponent.
-/

namespace EcmaFold

/-- The value of a numeric literal: an integer if it is spelled as one and fits 64 bits. -/
inductive Numeral where
  | int (value : Int64)
  | float (value : Float)

/-- The name of the kind of a literal by its number: one for doubles, others for integers. -/
def Numeral.kindName (number : Nat) : Bytes := if number = 1 then utf8 "Float" else utf8 "Int"

/-- A numeric literal with its spelling. -/
structure Number where
  raw : Bytes
  value : Numeral

namespace Number

/-- The number of decimal digits at the head of the bytes. -/
def digitsWidth (bytes : Bytes) : Nat := (bytes.takeWhile Bytes.isDigit).length

/-- The length of an exponent, zero if there is none or it has no digit. -/
def exponentWidth : Bytes → Nat
  | marker :: rest =>
    if marker = 0x65 ∨ marker = 0x45 then
      let sign := match rest with
        | b :: _ => if b = 0x2B ∨ b = 0x2D then 1 else 0
        | [] => 0
      let digits := digitsWidth (rest.drop sign)
      if digits = 0 then 0 else 1 + sign + digits
    else 0
  | [] => 0

/-- The length of a decimal without exponent: digits, and a point that has a digit on at least one
side. -/
def mantissaWidth (bytes : Bytes) : Nat :=
  let whole := digitsWidth bytes
  match bytes.drop whole with
  | 0x2E :: rest =>
    let fraction := digitsWidth rest
    if whole = 0 ∧ fraction = 0 then 0 else whole + 1 + fraction
  | _ => whole

def decimalWidth (bytes : Bytes) : Nat :=
  let mantissa := mantissaWidth bytes
  if mantissa = 0 then 0 else mantissa + exponentWidth (bytes.drop mantissa)

/-- The digits after a hexadecimal marker, if the bytes begin with one. -/
def afterHexMarker? : Bytes → Option Bytes
  | 0x30 :: 0x78 :: rest => some rest
  | 0x30 :: 0x58 :: rest => some rest
  | _ => none

/-- The length of the longest spelling of a number at the head of the bytes, zero if there is
none. -/
def width (bytes : Bytes) : Nat :=
  match afterHexMarker? bytes with
  | some rest =>
    let digits := (rest.takeWhile Bytes.isHexDigit).length
    if digits = 0 then decimalWidth bytes else digits + 2
  | none => decimalWidth bytes

/-- The first integer that does not fit: the 63rd power of two. -/
def intLimit : Nat := 0x8000000000000000

/-- Hexadecimal digits too large for an integer, accumulated in doubles digit by digit. -/
def hexFloat (digits : Bytes) : Float :=
  digits.foldl (fun value digit => value * 16 + Float.ofNat ((Bytes.hexValue? digit).getD 0)) 0

/-- The double nearest to `mantissa * 10 ^ exponent`. Values far outside the range of doubles are
decided by their size, so that no large power has to be computed. -/
def ofDecimal (mantissa : Nat) (exponent : Int) : Float :=
  let magnitude := (Nat.toDigits 10 mantissa).length + exponent
  if mantissa = 0 ∨ magnitude < -330 then 0
  else if 310 < magnitude then Float.ofBits 0x7FF0000000000000
  else Float.ofScientific mantissa (exponent < 0) exponent.natAbs

/-- The exponent that a spelling ends with; the text starts at the marker. -/
def exponentValue : Bytes → Int
  | _ :: 0x2D :: digits => -(Bytes.digitsValue 10 digits : Int)
  | _ :: 0x2B :: digits => Bytes.digitsValue 10 digits
  | _ :: digits => Bytes.digitsValue 10 digits
  | [] => 0

/-- The double that a decimal spelling names. -/
def decimalFloat (raw : Bytes) : Float :=
  let mantissa := raw.takeWhile fun b => !(b = 0x65 || b = 0x45)
  let whole := mantissa.takeWhile (· ≠ 0x2E)
  let fraction := (mantissa.drop whole.length).drop 1
  ofDecimal (Bytes.digitsValue 10 (whole ++ fraction))
    (exponentValue (raw.drop mantissa.length) - fraction.length)

/-- The value of a spelling. -/
def valueOf (raw : Bytes) : Numeral :=
  match afterHexMarker? raw with
  | some digits =>
    let value := Bytes.digitsValue 16 digits
    if value < intLimit then .int (Int64.ofNat value) else .float (hexFloat digits)
  | none =>
    if raw.all Bytes.isDigit ∧ Bytes.digitsValue 10 raw < intLimit then
      .int (Int64.ofNat (Bytes.digitsValue 10 raw))
    else .float (decimalFloat raw)

/-- Whether a byte behind `before` could belong to a number: a letter, a digit, one of `.`, `_` and `$`, or a sign right
behind the marker of an exponent. -/
def belongs (before b : UInt8) : Bool :=
  (0x61 ≤ b && b ≤ 0x7A) || (0x41 ≤ b && b ≤ 0x5A) || Bytes.isDigit b || b = 0x2E || b = 0x5F || b = 0x24 ||
    ((b = 0x2B || b = 0x2D) && (before = 0x65 || before = 0x45))

def windowFrom (before : UInt8) : Bytes → Bytes
  | [] => []
  | b :: rest => if belongs before b then b :: windowFrom b rest else []

/-- The bytes at the head that could belong to a number. Only they are looked at for one. -/
def window (bytes : Bytes) : Bytes := windowFrom 0 bytes

/-- The number at the head of the bytes, by a matcher that gives the length of the spelling at the head of a text. A
spelling that runs into a name is no number. -/
def readBy? (find? : Bytes → Option Nat) (bytes : Bytes) : Option Number :=
  let text := window bytes
  match find? text with
  | none => none
  | some width =>
    let raw := text.take width
    if Name.goesOn (bytes.drop raw.length) then none else some ⟨raw, valueOf raw⟩

/-- The matcher of regular expressions in use finds no spelling of more bytes: once it knows where a match ends, it looks
for the beginning in this many bytes only. This is a limit of that matcher: the rule for numbers sets none, and
`readBy?` takes any matcher. -/
def matcherReach : Nat := 100

/-- What the matcher in use finds: the length of the longest spelling of a number at the head of a text, if the matcher
reaches as far. -/
def find? (text : Bytes) : Option Nat :=
  let width := width text
  if width = 0 ∨ matcherReach < width then none else some width

/-- The number at the head of the bytes, by the matcher in use. -/
def read? : Bytes → Option Number := readBy? find?

end Number

end EcmaFold
