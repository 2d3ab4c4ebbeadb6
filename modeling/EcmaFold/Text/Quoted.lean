import EcmaFold.Text.Category
import EcmaFold.Text.Utf8

/-!
Ways to write a text between quotes. `Quoted.debug` shows any byte string in visible characters; it
is used in messages, in tree dumps and for string constants. `Quoted.literal` writes a string literal
of the source language, and `Quoted.json` one of JSON for the log.
-/

namespace EcmaFold.Quoted

/-- The escapes that both ways share. -/
def shortEscape? : Char → Option Bytes
  | '"' => some (utf8 "\\\"")
  | '\\' => some (utf8 "\\\\")
  | '\n' => some (utf8 "\\n")
  | '\r' => some (utf8 "\\r")
  | '\t' => some (utf8 "\\t")
  | '\x08' => some (utf8 "\\b")
  | '\x0c' => some (utf8 "\\f")
  | '\x0b' => some (utf8 "\\v")
  | _ => none

/-- A byte as `\xNN`. -/
def byteEscape (code : Nat) : Bytes := utf8 "\\x" ++ Bytes.hex 2 code

/-- One character of a debug text. What has no shape is written by its number, in as few digits
as its size allows. -/
def debugChar (c : Char) : Bytes :=
  match shortEscape? c with
  | some escape => escape
  | none =>
    if c = '\x07' then utf8 "\\a"
    else if Category.isPrintable c then Utf8.encode c
    else if c.toNat < 0x80 then byteEscape c.toNat
    else if c.toNat < 0x10000 then utf8 "\\u" ++ Bytes.hex 4 c.toNat
    else utf8 "\\U" ++ Bytes.hex 8 c.toNat

/-- A text in double quotes and visible characters only; bad bytes are written by number. -/
def debug (text : Bytes) : Bytes :=
  34 :: (Utf8.runes text).flatMap (fun
    | (some c, _) => debugChar c
    | (none, bad) => byteEscape bad.toNat) ++ [34]

/-- One character of a string literal. Line terminators and controls are escaped. -/
def literalChar (c : Char) : Bytes :=
  match shortEscape? c with
  | some escape => escape
  | none =>
    if c = '\u2028' then utf8 "\\u2028"
    else if c = '\u2029' then utf8 "\\u2029"
    else if c.toNat < 0x20 ∨ c.toNat = 0x7F then byteEscape c.toNat
    else Utf8.encode c

/-- A text as a string literal. A bad byte becomes the replacement character. -/
def literal (text : Bytes) : Bytes := 34 :: (Utf8.chars text).flatMap literalChar ++ [34]

/-- A single character in single quotes and visible characters only. -/
def debugSingle (c : Char) : Bytes :=
  let inner := if c = '\'' then utf8 "\\'" else if c = '"' then utf8 "\"" else debugChar c
  39 :: inner ++ [39]

/-- Whether a text can stand between backquotes, where nothing is escaped. -/
def fitsBackquotes (text : Bytes) : Bool :=
  Utf8.isValid text && (Utf8.chars text).all fun c =>
    c = '\t' || (' ' ≤ c && c.toNat ≠ 0x60 && c.toNat ≠ 0x7F && c.toNat ≠ 0xFEFF)

/-- A text between backquotes if it fits, otherwise quoted with escapes. -/
def backquoted (text : Bytes) : Bytes :=
  if fitsBackquotes text then 0x60 :: text ++ [0x60] else debug text

/-- One character of a JSON string. -/
def jsonChar (c : Char) : Bytes :=
  if c = '"' then utf8 "\\\""
  else if c = '\\' then utf8 "\\\\"
  else if c = '\n' then utf8 "\\n"
  else if c = '\r' then utf8 "\\r"
  else if c = '\t' then utf8 "\\t"
  else if c.toNat < 0x20 then utf8 "\\u" ++ Bytes.hex 4 c.toNat
  else Utf8.encode c

/-- A text as a JSON string. A bad byte becomes the escaped replacement character. -/
def json (text : Bytes) : Bytes :=
  34 :: (Utf8.runes text).flatMap (fun
    | (some c, _) => jsonChar c
    | (none, _) => utf8 "\\ufffd") ++ [34]

end EcmaFold.Quoted
