import EcmaFold.Yaml.Content

/-!
Kinds of characters, and a place among the characters of a document.
-/

namespace EcmaFold.Yaml

def isBlank (c : Char) : Bool := c = ' ' || c = '\t'

/-- A line break. A carriage return does not outlive `unifyBreaks`. -/
def isBreak (c : Char) : Bool := c = '\n' || c = '\u0085' || c = '\u2028' || c = '\u2029'

def isSpace (c : Char) : Bool := isBlank c || isBreak c

/-- Whether a blank, a line break or the end comes next. -/
def spaceNext : List Char → Bool
  | [] => true
  | c :: _ => isSpace c

/-- A character of a name: a letter, a digit, an underscore or a dash. -/
def isWordChar (c : Char) : Bool := c.isAlphanum || c = '_' || c = '-'

/-- The bytes of characters. -/
def bytesOf (chars : List Char) : Bytes := chars.flatMap Utf8.encode

/-- A place in a document. -/
structure Cursor where
  rest : List Char
  /-- How many characters come before. -/
  index : Nat := 0
  line : Nat := 0
  column : Nat := 0
  /-- Whether only blanks stand between the last line break and this place. -/
  fresh : Bool := false

namespace Cursor

/-- The place behind the next character, even if that is a line break, on the same line. -/
def pass (here : Cursor) : Cursor :=
  match here.rest with
  | [] => here
  | c :: rest => ⟨rest, here.index + 1, here.line, here.column + 1, here.fresh && isBlank c⟩

/-- The place one character further. -/
def advance (here : Cursor) : Cursor :=
  if (here.rest.head?.map isBreak).getD false then
    ⟨here.rest.tail, here.index + 1, here.line + 1, 0, true⟩
  else here.pass

/-- The place `count` characters further. -/
def move : (count : Nat) → Cursor → Cursor
  | 0, here => here
  | count + 1, here => move count here.advance

/-- The characters from here on that satisfy `p`, and the place behind them. -/
def takeWhile (here : Cursor) (p : Char → Bool) : List Char × Cursor :=
  let taken := here.rest.takeWhile p
  (taken, move taken.length here)

/-- The place behind the characters that satisfy `p`. -/
def dropWhile (here : Cursor) (p : Char → Bool) : Cursor := (here.takeWhile p).2

/-- The end of the line. -/
def lineEnd (here : Cursor) : Cursor := here.dropWhile fun c => !isBreak c

def sees (here : Cursor) (c : Char) : Bool := here.rest.head? = some c

/-- Whether a line begins here that is a mark between documents. -/
def seesMark (here : Cursor) (mark : Char) : Bool :=
  here.column = 0 && [mark, mark, mark].isPrefixOf here.rest && spaceNext (here.rest.drop 3)

/-- Whether a document begins or ends here by a mark. -/
def leavesDocument (here : Cursor) : Bool := here.seesMark '-' || here.seesMark '.'

end Cursor

end EcmaFold.Yaml
