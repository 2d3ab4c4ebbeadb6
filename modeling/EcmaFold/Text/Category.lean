import EcmaFold.Text.Category.Continuing
import EcmaFold.Text.Category.Letter
import EcmaFold.Text.Category.Space
import EcmaFold.Text.Category.Visible

/-!
Character classes that the lexical rules and the printers ask for.
-/

namespace EcmaFold.Category

def isLetter (c : Char) : Bool := letters.contains c.toNat

def isContinuing (c : Char) : Bool := continuing.contains c.toNat

def isSpaceSeparator (c : Char) : Bool := spaceSeparators.contains c.toNat

/-- A character that a quoted text shows as it is: one with a shape of its own, or the ASCII
space. -/
def isPrintable (c : Char) : Bool := c = ' ' || visible.contains c.toNat

/-- A character that a source excerpt shows as it is: beside the printable ones also the other
space separators. -/
def isGraphic (c : Char) : Bool := isSpaceSeparator c || visible.contains c.toNat

/-- A character that has neither a shape nor a width of its own. -/
def isControl (c : Char) : Bool := !isGraphic c && c ≠ '\u2028' && c ≠ '\u2029'

/-- White space in the sense of the property of that name. -/
def isWhiteSpace (c : Char) : Bool :=
  let code := c.toNat
  (0x09 ≤ code && code ≤ 0x0D) || code = 0x85 || code = 0x2028 || code = 0x2029 ||
    isSpaceSeparator c

end EcmaFold.Category
