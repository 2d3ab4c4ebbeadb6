import EcmaFold.Text.Bytes

/-!
Cutting input into lines. A line ends at a line feed, with or without a carriage return before it, or at
the end of the input. A reader holds only so many bytes at a time: a line that does not fit is handed out
in pieces.
-/

namespace EcmaFold

/-- A line of input, or a piece of one that was too long. -/
structure InputLine where
  text : Bytes
  /-- Whether the line goes on in the next piece. -/
  cut : Bool

namespace InputLine

/-- How many bytes of a line, its end included, are held at a time. -/
def capacity : Nat := 4096

/-- A text without the carriage return that it may end with. -/
def withoutReturn (text : Bytes) : Bytes :=
  if text.getLast? = some 0x0D then text.dropLast else text

/-- The first line of some input and what follows it. A piece does not end in a carriage return, since
that may belong to the end of the line. -/
def next? : Bytes → Option (InputLine × Bytes)
  | [] => none
  | input =>
    let held := input.take capacity
    let text := held.takeWhile (· ≠ 0x0A)
    if text.length < held.length then some (⟨withoutReturn text, false⟩, input.drop (text.length + 1))
    else if held.length < capacity then some (⟨held, false⟩, [])
    else
      let piece := withoutReturn held
      some (⟨piece, true⟩, input.drop piece.length)

/-- At most `bound` lines of some input. -/
def upTo : (bound : Nat) → Bytes → List InputLine
  | 0, _ => []
  | bound + 1, input =>
    match next? input with
    | none => []
    | some (line, rest) => line :: upTo bound rest

/-- The lines of some input; there are no more of them than bytes. -/
def all (input : Bytes) : List InputLine := upTo input.length input

end InputLine

end EcmaFold
