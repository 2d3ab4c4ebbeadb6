import EcmaFold.Parser.Basic
import EcmaFold.Source.Excerpt
import EcmaFold.Text.Quoted

/-!
Why a source was rejected: the farthest offset that some rule could not get past, what the rules missed
there, and what stands there instead.
-/

namespace EcmaFold

namespace Expectation

def text : Expectation → Bytes
  | symbol s => Quoted.debug s.spelling
  | identifier => utf8 "identifier"
  | expression => utf8 "expression"
  | propertyName => utf8 "property name"
  | endOfInput => utf8 "end of input"

/-- Expectations in words: commas between them and `or` before the last. -/
def describe : List Bytes → Bytes
  | [] => utf8 "valid input"
  | texts => match texts.dropLast, texts.getLast? with
    | [], some last => last
    | first, last => Bytes.join (utf8 ", ") first ++ utf8 " or " ++ last.getD []

end Expectation

/-- A rejection. -/
structure SyntaxError where
  position : Position
  expected : List Expectation
  /-- The beginning of what stands at the place, or `EOF` at the end. -/
  found : Bytes
  /-- The source from where parsing stopped. -/
  remaining : Bytes
  /-- The line of the place with a mark. -/
  context : Bytes

namespace SyntaxError

/-- The text `EOF`. -/
def endMark : Bytes := utf8 "EOF"

def isBlank (b : UInt8) : Bool := b = 0x20 || b = 0x09 || b = 0x0A || b = 0x0D

/-- At most sixteen bytes up to the next blank, but at least one. -/
def foundAt (source : Bytes) (offset : Nat) : Bytes :=
  match source.drop offset with
  | [] => endMark
  | rest =>
    let run := (rest.take 16).takeWhile fun b => !isBlank b
    if run.isEmpty then rest.take 1 else run

/-- The rejection of a source that parsing stopped in at `stop`. -/
def ofFailure (file source : Bytes) (stop : Nat) (failure : Option Failure) : SyntaxError :=
  let failure := failure.getD ⟨stop, []⟩
  { position := (Lines.ofSource file source).position failure.offset
    expected := failure.expected
    found := foundAt source failure.offset
    remaining := source.drop stop
    context := Excerpt.text source failure.offset }

/-- What was expected and what was found. -/
def reason (error : SyntaxError) : Bytes :=
  utf8 "expected " ++ Expectation.describe (error.expected.map (·.text)) ++ utf8 ", found " ++
    (if error.found = endMark then endMark else Quoted.debug error.found)

/-- A text with the place it is about in front, if that is a place. -/
def located (position : Position) (text : Bytes) : Bytes :=
  if position.isValid then position.text ++ utf8 ": " ++ text else text

/-- The reason with its place. -/
def placed (error : SyntaxError) : Bytes := located error.position error.reason

/-- The full message. -/
def message (error : SyntaxError) : Bytes :=
  utf8 "syntax error at " ++ error.position.text ++ utf8 ": " ++ error.reason

end SyntaxError

end EcmaFold
