import EcmaFold.Text.Bytes

/-!
Places in a source text. The tree and the log hold byte offsets only; `Lines` turns an offset into a
line and a column when a place is shown.
-/

namespace EcmaFold

/-- A range of the source by byte offsets: its first byte and the byte after its last. -/
structure Span where
  start : Nat
  stop : Nat
  deriving DecidableEq, Repr

/-- A place as it is shown: line and column count from one, and columns count bytes. -/
structure Position where
  file : Bytes
  line : Nat
  column : Nat
  offset : Nat
  deriving DecidableEq, Repr

namespace Position

/-- The place of something that has none. -/
def unknown : Position := ⟨[], 0, 0, 0⟩

def isValid (p : Position) : Bool := 0 < p.line

/-- `file:line:column`, or `line:column` without a file name. -/
def text (p : Position) : Bytes :=
  (if p.file.isEmpty then [] else p.file ++ utf8 ":") ++
    Bytes.ofNat p.line ++ utf8 ":" ++ Bytes.ofNat p.column

end Position

/-- The width of the line terminator at the head of the bytes, if there is one: LF, CR, CRLF as one,
U+2028 and U+2029. -/
def lineTerminator? : Bytes → Option Nat
  | 0x0A :: _ => some 1
  | 0x0D :: 0x0A :: _ => some 2
  | 0x0D :: _ => some 1
  | 0xE2 :: 0x80 :: 0xA8 :: _ => some 3
  | 0xE2 :: 0x80 :: 0xA9 :: _ => some 3
  | _ => none

/-- Whether a line terminator stands at the head of the bytes. -/
def atLineTerminator (bytes : Bytes) : Bool := (lineTerminator? bytes).isSome

/-- The lines of one source. -/
structure Lines where
  file : Bytes
  size : Nat
  /-- The offset of the first byte of every line but the first, increasing. -/
  laterStarts : List Nat
  deriving Repr

namespace Lines

/-- The offsets right after the line terminators of the bytes, which stand at `offset`. The first
argument counts the bytes that still belong to the terminator found last. -/
def startsFrom : (pending offset : Nat) → Bytes → List Nat
  | _, _, [] => []
  | pending + 1, offset, _ :: rest => startsFrom pending (offset + 1) rest
  | 0, offset, b :: rest =>
    match lineTerminator? (b :: rest) with
    | some width => (offset + width) :: startsFrom (width - 1) (offset + 1) rest
    | none => startsFrom 0 (offset + 1) rest

def ofSource (file source : Bytes) : Lines := ⟨file, source.length, startsFrom 0 0 source⟩

/-- The number of lines: one more than there are line terminators. -/
def count (lines : Lines) : Nat := lines.laterStarts.length + 1

/-- The place of an offset. Offsets past the end are taken as the end. -/
def position (lines : Lines) (offset : Nat) : Position :=
  let offset := min offset lines.size
  let passed := lines.laterStarts.takeWhile (· ≤ offset)
  { file := lines.file
    line := passed.length + 1
    column := offset - passed.getLastD 0 + 1
    offset := offset }

/-- The place of an offset that may lie before the source; it is then taken as the beginning. -/
def positionAt (lines : Lines) (offset : Int) : Position := lines.position offset.toNat

end Lines

end EcmaFold
