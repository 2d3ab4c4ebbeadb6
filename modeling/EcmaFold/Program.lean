import EcmaFold.Parser.Statement
import EcmaFold.SyntaxError
import EcmaFold.Tree.Walk

/-!
Reading programs and expressions from source text.
-/

namespace EcmaFold

/-- How far reading source elements got. -/
structure Reading where
  elements : List (Node .element)
  /-- The cursor before the first element that could not be read, or at the end. -/
  cursor : Cursor
  failure : Option Failure

namespace Reading

/-- Reads elements as long as they match, at most as many as `bound` is long. -/
def elementsFrom (g : Grammar) : (bound : List Lexeme) → Cursor → Reading
  | [], cursor => ⟨[], cursor, none⟩
  | _ :: bound, cursor =>
    if cursor.atEnd then ⟨[], cursor, none⟩
    else
      match g.element cursor with
      | ⟨none, failure⟩ => ⟨[], cursor, failure⟩
      | ⟨some (element, after), failure⟩ =>
        let rest := elementsFrom g bound after
        ⟨element :: rest.elements, rest.cursor, Failure.merge failure rest.failure⟩

/-- Reads lexemes. Nesting goes no deeper than there are lexemes. -/
def ofLexemes (lexemes : List Lexeme) : Reading :=
  elementsFrom (Grammar.ofDepth lexemes.length) lexemes ⟨0, lexemes⟩

/-- Whether everything was read. -/
def isComplete (reading : Reading) : Bool := reading.cursor.atEnd

end Reading

/-- A source read as far as it goes. -/
structure Program.Part where
  tree : Node .program
  /-- Where reading stopped. -/
  stop : Nat
  complete : Bool
  failure : Option Failure

/-- A parsed program with its source. -/
structure Program where
  file : Bytes
  source : Bytes
  tree : Node .program

namespace Program

/-- Reads source elements for as long as they match. The tree covers the source from its first token up
to where reading stopped. -/
def readPart (source : Bytes) : Part :=
  let lexemes := Lexeme.scan source
  let reading := Reading.ofLexemes lexemes
  let start := Cursor.offset ⟨0, lexemes⟩
  let stop := reading.cursor.offset
  { tree := .program ⟨start, stop⟩ (.ofList reading.elements)
    stop := stop
    complete := reading.isComplete
    failure := reading.failure }

/-- Reads a whole program. -/
def parse (file source : Bytes) : Except SyntaxError Program :=
  let part := readPart source
  if part.complete then .ok ⟨file, source, part.tree⟩
  else .error (SyntaxError.ofFailure file source part.stop part.failure)

/-- Reads the longest beginning that is a program. Gives the rest of the source and whether everything
was read. -/
def parseLongest (source : Bytes) : Program × Bytes × Bool :=
  let part := readPart source
  (⟨[], source, part.tree⟩, if part.complete then [] else source.drop part.stop, part.complete)

/-- Reads a single expression that makes up the whole source. -/
def parseExpression (source : Bytes) : Except SyntaxError (Node .sequence) :=
  let lexemes := Lexeme.scan source
  let reply := (Grammar.ofDepth lexemes.length).sequence true ⟨0, lexemes⟩
  match reply.result with
  | none => .error (SyntaxError.ofFailure [] source 0 reply.failure)
  | some (expr, after) =>
    if after.atEnd then .ok expr
    else
      let trailing : Failure := ⟨after.offset, [.endOfInput]⟩
      .error (SyntaxError.ofFailure [] source after.offset
        (Failure.merge reply.failure (some trailing)))

/-- The number of source elements. -/
def length (program : Program) : Nat :=
  match program.tree with
  | .program _ elements => elements.entries.length

end Program

end EcmaFold
