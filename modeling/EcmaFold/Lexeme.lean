import EcmaFold.Lexer.Number
import EcmaFold.Lexer.StringLiteral
import EcmaFold.Lexer.Trivia
import EcmaFold.Text.Quoted
import EcmaFold.Token

/-!
A source as the list of its lexemes: tokens with their places, and with the one fact about layout
that the grammar asks for, whether a line ends before the token. What no lexical rule accepts becomes
a stray token, so that every source has lexemes; the last one marks the end.
-/

namespace EcmaFold

/-- A token with its value: the spelling of a number or name, the decoded text of a string. -/
inductive Token where
  | number (value : Number)
  | string (value : Bytes)
  | name (spelling : Bytes)
  | keyword (word : Word)
  | punct (p : Punct)
  | stray (text : Bytes)
  | ending

namespace Token

/-- A character or bad byte that no rule accepts. -/
def strayAt (bytes : Bytes) : Token × Nat :=
  match Utf8.decode? bytes with
  | some (_, width) => (stray (bytes.take width), width)
  | none => (stray (bytes.take 1), 1)

/-- The token of a name. -/
def ofName (spelling : Bytes) : Token :=
  match Word.ofSpelling? spelling with
  | some word => keyword word
  | none => name spelling

/-- The token at the head of the bytes and its width: the first that matches of a number, a string,
a name and the longest punctuator. -/
def read (bytes : Bytes) : Token × Nat :=
  match Number.read? bytes with
  | some value => (number value, value.raw.length)
  | none =>
    match StringLiteral.read? bytes with
    | some (value, width) => (string value, width)
    | none =>
      match Name.read? bytes with
      | some spelling => (ofName spelling, spelling.length)
      | none =>
        match Punct.longest? bytes with
        | some p => (punct p, p.spelling.length)
        | none => strayAt bytes

/-- The spelling of a token in normalised source: numbers and names as they were spelled, strings in
double quotes. -/
def spelling : Token → Bytes
  | number value => value.raw
  | string value => Quoted.literal value
  | name spelling => spelling
  | keyword word => word.spelling
  | punct p => p.spelling
  | stray text => text
  | ending => []

end Token

/-- A token at its place. -/
structure Lexeme where
  token : Token
  /-- Whether a line terminator occurs between the token before and this one. -/
  newline : Bool
  span : Span

namespace Lexeme

/-- The lexemes of the bytes, which stand at `offset`. The first argument counts the bytes that still
belong to the token or the trivia read last, and `newline` is the fact about the trivia so far. -/
def scanFrom : (pending offset : Nat) → (newline : Bool) → Bytes → List Lexeme
  | _, offset, newline, [] => [⟨.ending, newline, ⟨offset, offset⟩⟩]
  | pending + 1, offset, newline, _ :: rest => scanFrom pending (offset + 1) newline rest
  | 0, offset, newline, b :: rest =>
    match Trivia.piece? (b :: rest) with
    | some piece => scanFrom (piece.width - 1) (offset + 1) (newline || piece.newline) rest
    | none =>
      let (token, width) := Token.read (b :: rest)
      ⟨token, newline, ⟨offset, offset + width⟩⟩ :: scanFrom (width - 1) (offset + 1) false rest

/-- The lexemes of a source. -/
def scan (source : Bytes) : List Lexeme := scanFrom 0 0 false source

end Lexeme

end EcmaFold
