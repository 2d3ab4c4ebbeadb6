import EcmaFold.Text.Category
import EcmaFold.Text.Utf8
import EcmaFold.Token

/-!
Names: the longest run of identifier characters. A name that is spelled like a reserved word is not
an identifier.
-/

namespace EcmaFold.Name

/-- A character that a name may start with. -/
def isStart (c : Char) : Bool :=
  c.isAlpha || c = '$' || c = '_' || (0x80 ≤ c.toNat && Category.isLetter c)

/-- A character that a name may go on with. -/
def isPart (c : Char) : Bool :=
  c.isDigit || isStart c || (0x80 ≤ c.toNat && Category.isContinuing c)

/-- Whether the bytes begin with a character that a name may go on with. -/
def goesOn (bytes : Bytes) : Bool :=
  match Utf8.decode? bytes with
  | some (c, _) => isPart c
  | none => false

/-- The length of the run of name characters at the head of the bytes. The first argument counts the
bytes that still belong to the character read last. -/
def partWidth : (pending : Nat) → Bytes → Nat
  | _, [] => 0
  | pending + 1, _ :: rest => partWidth pending rest + 1
  | 0, b :: rest =>
    match Utf8.decode? (b :: rest) with
    | some (c, width) => if isPart c then partWidth (width - 1) rest + 1 else 0
    | none => 0

/-- The length of the name at the head of the bytes, zero if there is none. -/
def width (bytes : Bytes) : Nat :=
  match Utf8.decode? bytes with
  | some (c, _) => if isStart c then partWidth 0 bytes else 0
  | none => 0

/-- The name at the head of the bytes. -/
def read? (bytes : Bytes) : Option Bytes :=
  if width bytes = 0 then none else some (bytes.take (width bytes))

/-- The name at the head of the bytes, unless it is a reserved word. -/
def identifier? (bytes : Bytes) : Option Bytes :=
  (read? bytes).filter fun name => (Word.ofSpelling? name).isNone

/-- Whether a whole text is spelled as a name. -/
def isName (text : Bytes) : Bool :=
  match Utf8.runes text with
  | [] => false
  | first :: rest =>
    first.1.any isStart && rest.all fun rune => rune.1.any isPart

end EcmaFold.Name
