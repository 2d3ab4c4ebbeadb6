import EcmaFold.Source
import EcmaFold.Text.Category
import EcmaFold.Text.Utf8

/-!
White space and comments, which separate tokens and mean nothing else, except that some rules ask
whether a line ends there.
-/

namespace EcmaFold

/-- What stands before a token: how many bytes of white space and comments, and whether a line
terminator is among them. -/
structure Gap where
  width : Nat
  newline : Bool
  deriving DecidableEq, Repr

namespace Trivia

/-- The length of the rest of a line, which ends before its line terminator. -/
def lineWidth : Bytes → Nat
  | [] => 0
  | b :: rest => if atLineTerminator (b :: rest) then 0 else lineWidth rest + 1

/-- What is left of a block comment after its opening: up to and including `*/`. Without a closing
there is no comment. -/
def blockRest? : Bytes → Option Gap
  | [] => none
  | 0x2A :: 0x2F :: _ => some ⟨2, false⟩
  | b :: rest =>
    (blockRest? rest).map fun gap => ⟨gap.width + 1, atLineTerminator (b :: rest) || gap.newline⟩

/-- A white space character or a line terminator beyond ASCII. -/
def wideBlank? (bytes : Bytes) : Option Gap :=
  match Utf8.decode? bytes with
  | some (c, width) =>
    if c = '\u2028' ∨ c = '\u2029' then some ⟨width, true⟩
    else if c = '\u00A0' ∨ c = '\uFEFF' ∨ Category.isSpaceSeparator c then some ⟨width, false⟩
    else none
  | none => none

/-- One white space character, line terminator or comment at the head of the bytes. -/
def piece? : Bytes → Option Gap
  | [] => none
  | b :: rest =>
    if b = 0x20 ∨ b = 0x09 ∨ b = 0x0B ∨ b = 0x0C then some ⟨1, false⟩
    else if b = 0x0A ∨ b = 0x0D then some ⟨1, true⟩
    else if b = 0x2F then
      match rest with
      | 0x2F :: comment => some ⟨lineWidth comment + 2, false⟩
      | 0x2A :: comment => (blockRest? comment).map fun gap => ⟨gap.width + 2, gap.newline⟩
      | _ => none
    else if b < 0x80 then none
    else wideBlank? (b :: rest)

/-- The trivia at the head of the bytes. The first argument counts the bytes that still belong to
the piece found last. -/
def gapFrom : (pending : Nat) → Bytes → Gap
  | _, [] => ⟨0, false⟩
  | pending + 1, _ :: rest =>
    let gap := gapFrom pending rest
    ⟨gap.width + 1, gap.newline⟩
  | 0, b :: rest =>
    match piece? (b :: rest) with
    | none => ⟨0, false⟩
    | some piece =>
      let gap := gapFrom (piece.width - 1) rest
      ⟨gap.width + 1, piece.newline || gap.newline⟩

/-- All white space and comments at the head of the bytes. -/
def gap (bytes : Bytes) : Gap := gapFrom 0 bytes

end Trivia

end EcmaFold
