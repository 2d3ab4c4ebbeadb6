import EcmaFold.Text.Bytes

/-!
UTF-8 reading of byte strings. Overlong forms, surrogates, values past U+10FFFF and cut-off
sequences are no characters: a reader then sees one bad byte.
-/

namespace EcmaFold.Utf8

/-- The payload of a continuation byte. -/
def continuation? (b : UInt8) : Option Nat :=
  if 0x80 ≤ b ∧ b ≤ 0xBF then some (b.toNat - 0x80) else none

/-- A scalar value, refused below `least` since it then has a shorter form. -/
def scalar? (least code : Nat) : Option Char :=
  if h : least ≤ code ∧ code.isValidChar then some (Char.ofNatAux code h.2) else none

/-- The character at the head of the bytes and the number of bytes it takes. -/
def decode? : Bytes → Option (Char × Nat)
  | [] => none
  | a :: rest =>
    if a < 0x80 then (scalar? 0 a.toNat).map (·, 1)
    else if a < 0xC0 then none
    else if a < 0xE0 then
      match rest with
      | b :: _ => do
        let b ← continuation? b
        let c ← scalar? 0x80 ((a.toNat - 0xC0) * 64 + b)
        return (c, 2)
      | _ => none
    else if a < 0xF0 then
      match rest with
      | b :: c :: _ => do
        let b ← continuation? b
        let c ← continuation? c
        let d ← scalar? 0x800 (((a.toNat - 0xE0) * 64 + b) * 64 + c)
        return (d, 3)
      | _ => none
    else if a < 0xF8 then
      match rest with
      | b :: c :: d :: _ => do
        let b ← continuation? b
        let c ← continuation? c
        let d ← continuation? d
        let e ← scalar? 0x10000 ((((a.toNat - 0xF0) * 64 + b) * 64 + c) * 64 + d)
        return (e, 4)
      | _ => none
    else none

/-- The bytes of a character. -/
def encode (c : Char) : Bytes := String.utf8EncodeChar c

/-- The replacement character, which stands for what is no character. -/
def replacement : Char := '\uFFFD'

/-- The bytes of a code point; one that is no scalar value is written as the replacement
character. -/
def encodeCode (code : Nat) : Bytes := encode ((scalar? 0 code).getD replacement)

/-- Reads all of a text; `none` stands for one bad byte. The first argument counts the bytes that
still belong to the character read last. -/
def runesFrom : (pending : Nat) → Bytes → List (Option Char × UInt8)
  | _, [] => []
  | pending + 1, _ :: rest => runesFrom pending rest
  | 0, b :: rest =>
    match decode? (b :: rest) with
    | some (c, width) => (some c, b) :: runesFrom (width - 1) rest
    | none => (none, b) :: runesFrom 0 rest

/-- The characters of a text with the first byte of each. -/
def runes (text : Bytes) : List (Option Char × UInt8) := runesFrom 0 text

/-- The characters of a text, with the replacement character for each bad byte. -/
def chars (text : Bytes) : List Char := (runes text).map fun rune => rune.1.getD replacement

def isValid (text : Bytes) : Bool := (runes text).all fun rune => rune.1.isSome

/-- The lower case of a character as far as it is an ASCII letter: besides the capital ASCII letters, the
dotted capital I and the Kelvin sign have one. -/
def lowered (c : Char) : Char :=
  if c = '\u0130' then 'i' else if c = '\u212A' then 'k' else c.toLower

end EcmaFold.Utf8
