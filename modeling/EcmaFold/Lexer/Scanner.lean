import EcmaFold.Lexer.Number
import EcmaFold.Lexer.StringLiteral
import EcmaFold.Lexer.Trivia
import EcmaFold.Token

/-!
A cursor over a source. Every lexical rule passes over trivia, tries to match there, and gives back
the moved cursor if it does; otherwise the caller still has the old one.
-/

namespace EcmaFold

/-- A source and an offset in it. -/
structure Scanner where
  source : Bytes
  offset : Nat
  deriving Repr

namespace Scanner

def ofSource (source : Bytes) : Scanner := ⟨source, 0⟩

/-- The source from the cursor on. -/
def rest (s : Scanner) : Bytes := s.source.drop s.offset

/-- The source from an offset on. -/
def remaining (s : Scanner) (offset : Nat) : Bytes := s.source.drop offset

def moveTo (s : Scanner) (offset : Nat) : Scanner := ⟨s.source, offset⟩

def advance (s : Scanner) (width : Nat) : Scanner := s.moveTo (s.offset + width)

/-- Moves past white space and comments. -/
def skip (s : Scanner) : Scanner := s.advance (Trivia.gap s.rest).width

/-- Whether nothing but trivia is left. -/
def atEnd (s : Scanner) : Bool := s.source.length ≤ s.skip.offset

/-- Whether a line terminator stands between the cursor and the next token. -/
def newlineAhead (s : Scanner) : Bool := (Trivia.gap s.rest).newline

/-- A lexical rule: what `read` finds after the trivia, and the cursor right behind it. -/
def rule {α : Type} (read : Bytes → Option (α × Nat)) (s : Scanner) : Option (α × Scanner) :=
  (read s.skip.rest).map fun (value, width) => (value, s.skip.advance width)

/-- A number, by a matcher for its spelling. -/
def numberBy? (find? : Bytes → Option Nat) : Scanner → Option (Number × Scanner) :=
  rule fun bytes => (Number.readBy? find? bytes).map fun number => (number, number.raw.length)

def number? : Scanner → Option (Number × Scanner) := numberBy? Number.find?

theorem number?_eq : number? = rule fun bytes => (Number.read? bytes).map fun number => (number, number.raw.length) :=
  rfl

def stringLiteral? : Scanner → Option (Bytes × Scanner) := rule StringLiteral.read?

/-- A name, reserved words included. -/
def identifierName? : Scanner → Option (Bytes × Scanner) :=
  rule fun bytes => (Name.read? bytes).map fun name => (name, name.length)

/-- A name that is not a reserved word. -/
def identifier? : Scanner → Option (Bytes × Scanner) :=
  rule fun bytes => (Name.identifier? bytes).map fun name => (name, name.length)

/-- The punctuator at the head of the bytes; where there is none, the symbol that names nothing, which
takes no room. -/
def symbolAt (bytes : Bytes) : Symbol × Nat :=
  match Punct.longest? bytes with
  | some p => (.punct p, p.spelling.length)
  | none => (.illegal, 0)

/-- The first of the symbols that is the longest punctuator there. -/
def punctIn? (symbols : List Symbol) : Scanner → Option (Symbol × Scanner) :=
  rule fun bytes =>
    let (symbol, width) := symbolAt bytes
    if symbol ∈ symbols then some (symbol, width) else none

/-- A symbol's spelling as a whole word: no name character may follow. -/
def keyword? (symbol : Symbol) : Scanner → Option (Symbol × Scanner) :=
  rule fun bytes =>
    let width := symbol.spelling.length
    if symbol.spelling.isPrefixOf bytes ∧ ¬ Name.goesOn (bytes.drop width) then some (symbol, width)
    else none

/-- The first of the symbols that stands there as a whole word. -/
def keywordIn? (symbols : List Symbol) (s : Scanner) : Option (Symbol × Scanner) :=
  symbols.findSome? fun symbol => keyword? symbol s

end Scanner

end EcmaFold
