import EcmaFold.Descent.Statement
import EcmaFold.Program

/-!
Reading programs and expressions by descent over their bytes.
-/

namespace EcmaFold

namespace Descent

/-- Before the first byte of a source. -/
def State.ofSource (source : Bytes) : State := ⟨.ofSource source, true, none⟩

/-- Source elements up to the end of the source, or up to the first place where none matches, and whether
that place is the end. The cursor is left there. -/
def elementsFrom (g : Productions) : (bound : Nat) → State → (List (Node .element) × Bool) × State
  | 0, s => (([], false), s)
  | bound + 1, s =>
    let here := { s with scanner := s.scanner.skip }
    if s.scanner.atEnd then (([], true), here)
    else
      match g.element here with
      | (none, after) => (([], false), { after with scanner := after.scanner.moveTo here.scanner.offset })
      | (some element, after) =>
        let ((rest, complete), s) := elementsFrom g bound after
        ((element :: rest, complete), s)

/-- The productions that a source is read with. Every level of nesting takes a byte. -/
def productions (source : Bytes) : Productions := .ofDepth (source.length + 1)

/-- Reads source elements for as long as they match. -/
def readPart (source : Bytes) : Program.Part :=
  let s := State.ofSource source
  let ((elements, complete), after) := elementsFrom (productions source) (source.length + 1) s
  { tree := .program ⟨s.scanner.skip.offset, after.scanner.offset⟩ (.ofList elements)
    stop := after.scanner.offset
    complete := complete
    failure := after.failure }

/-- Reads a whole program. -/
def parse (file source : Bytes) : Except SyntaxError Program :=
  let part := readPart source
  if part.complete then .ok ⟨file, source, part.tree⟩
  else .error (SyntaxError.ofFailure file source part.stop part.failure)

/-- Reads the longest beginning that is a program. Gives the rest of the source and whether everything was
read. -/
def parseLongest (source : Bytes) : Program × Bytes × Bool :=
  let part := readPart source
  (⟨[], source, part.tree⟩, if part.complete then [] else source.drop part.stop, part.complete)

/-- Nothing but trivia may follow; the end of the source is missed otherwise. -/
def endOfInput : Descent Unit := do
  if ← atEnd then return ()
  failMissing .endOfInput

/-- Reads a single expression that makes up the whole source. -/
def parseExpression (source : Bytes) : Except SyntaxError (Node .sequence) :=
  match (productions source).sequence (.ofSource source) with
  | (none, s) => .error (SyntaxError.ofFailure [] source 0 s.failure)
  | (some expr, s) =>
    match endOfInput s with
    | (some (), _) => .ok expr
    | (none, s) => .error (SyntaxError.ofFailure [] source s.scanner.offset s.failure)

end Descent

end EcmaFold
