import EcmaFold.Source
import EcmaFold.Text.Utf8

/-!
String literals in single or double quotes, with their escapes decoded. A line terminator inside a
literal has to be escaped.
-/

namespace EcmaFold.StringLiteral

/-- The value that hexadecimal digits name, if all are digits. -/
def hexCode? (digits : Bytes) : Option Nat :=
  if digits.all Bytes.isHexDigit then some (Bytes.digitsValue 16 digits) else none

/-- An escape by number: `count` hexadecimal digits after the letter. The number is written as a
character, so a surrogate becomes the replacement character. -/
def codeEscape? (count : Nat) (rest : Bytes) : Option (Bytes × Nat) :=
  let digits := rest.take count
  if digits.length < count then none
  else (hexCode? digits).map fun code => (Utf8.encodeCode code, count + 1)

/-- What the bytes after a backslash stand for, and how many of them belong to the escape. An escaped
line terminator stands for nothing. -/
def escape? : Bytes → Option (Bytes × Nat)
  | [] => none
  | b :: rest =>
    if b = 0x6E then some ([0x0A], 1)
    else if b = 0x74 then some ([0x09], 1)
    else if b = 0x72 then some ([0x0D], 1)
    else if b = 0x62 then some ([0x08], 1)
    else if b = 0x66 then some ([0x0C], 1)
    else if b = 0x76 then some ([0x0B], 1)
    else if b = 0x30 then
      if rest.head?.any Bytes.isDigit then none else some ([0], 1)
    else if b = 0x78 then codeEscape? 2 rest
    else if b = 0x75 then codeEscape? 4 rest
    else
      match lineTerminator? (b :: rest) with
      | some width => some ([], width)
      | none =>
        match Utf8.decode? (b :: rest) with
        | some (c, width) => some (Utf8.encode c, width)
        | none => some (Utf8.encode Utf8.replacement, 1)

/-- The value of the rest of a literal and the number of bytes up to and including the closing quote.
The second argument counts the bytes that still belong to the escape decoded last. -/
def bodyFrom (quote : UInt8) : (pending : Nat) → Bytes → Option (Bytes × Nat)
  | _, [] => none
  | pending + 1, _ :: rest =>
    (bodyFrom quote pending rest).map fun (value, width) => (value, width + 1)
  | 0, b :: rest =>
    if atLineTerminator (b :: rest) then none
    else if b = quote then some ([], 1)
    else if b = 0x5C then
      match escape? rest with
      | none => none
      | some (decoded, width) =>
        (bodyFrom quote width rest).map fun (value, more) => (decoded ++ value, more + 1)
    else (bodyFrom quote 0 rest).map fun (value, width) => (b :: value, width + 1)

/-- The decoded value of the literal at the head of the bytes and its width. -/
def read? : Bytes → Option (Bytes × Nat)
  | quote :: rest =>
    if quote = 0x22 ∨ quote = 0x27 then
      (bodyFrom quote 0 rest).map fun (value, width) => (value, width + 1)
    else none
  | [] => none

end EcmaFold.StringLiteral
