import EcmaFold.Source
import EcmaFold.Text.Category
import EcmaFold.Text.Utf8

/-!
The excerpt of a source that accompanies a syntax error: its line, cut to a readable width, and a mark
under the column. Columns count characters here.
-/

namespace EcmaFold.Excerpt

/-- The code point and the width of what starts with a byte of at least 0xC0, read by the first byte
and the bytes left alone. -/
def laxChar (a : UInt8) (rest : Bytes) : Nat × Nat :=
  let low (b : UInt8) := b.toNat % 64
  match rest with
  | [] => (a.toNat, 1)
  | b :: more =>
    if a < 0xE0 then ((a.toNat % 32) * 64 + low b, 2)
    else
      match more with
      | [] => ((a.toNat % 32) * 64 + low b, 2)
      | c :: most =>
        if a < 0xF0 then (((a.toNat % 16) * 64 + low b) * 64 + low c, 3)
        else
          match most with
          | [] => (((a.toNat % 16) * 64 + low b) * 64 + low c, 3)
          | d :: _ => ((((a.toNat % 8) * 64 + low b) * 64 + low c) * 64 + low d, 4)

/-- The width of what stands at the head of the bytes, and whether it ends a line. -/
def unit : Bytes → Nat × Bool
  | [] => (1, false)
  | 0x0A :: _ => (1, true)
  | 0x0D :: 0x0A :: _ => (2, true)
  | 0x0D :: _ => (1, true)
  | b :: rest =>
    if b < 0xC0 then (1, false)
    else
      let (code, width) := laxChar b rest
      (width, code = 0x2028 || code = 0x2029)

/-- A place in a source: its line, the offset where that line starts, and its own offset. -/
structure Place where
  line : Nat
  start : Nat
  offset : Nat

/-- The place `ahead` bytes further on, or at the start of the unit that this offset lies within. The
first argument counts the bytes that still belong to the unit passed last. -/
def locateFrom : (pending : Nat) → Place → (ahead : Nat) → Bytes → Place
  | _, place, _, [] => place
  | pending + 1, place, ahead, _ :: rest =>
    locateFrom pending { place with offset := place.offset + 1 } (ahead - 1) rest
  | 0, place, ahead, b :: rest =>
    let (width, newline) := unit (b :: rest)
    if ahead = 0 ∨ (1 < width ∧ ahead < width) then place
    else
      let next := { place with offset := place.offset + 1 }
      let next := if newline then
          { next with line := place.line + 1, start := place.offset + width }
        else next
      locateFrom (width - 1) next (ahead - 1) rest

/-- The place of an offset. -/
def locate (source : Bytes) (offset : Nat) : Place := locateFrom 0 ⟨1, 0, 0⟩ offset source

/-- A line cut to sixty characters around the column, and the column in it. -/
def clip (line : List Char) (column : Nat) : List Char × Nat :=
  let length := line.length
  let dots := ['.', '.', '.']
  if length ≤ 60 then (line, column)
  else if column ≤ 40 then (line.take 57 ++ dots, column)
  else if length - 23 ≤ column then (dots ++ line.drop (length - 44), column - (length - 47))
  else (dots ++ (line.drop (column - 21)).take 41 ++ dots, 24)

/-- A character as an excerpt shows it. -/
def glyph (c : Char) : Char := if Category.isGraphic c then c else '·'

/-- The line of an offset with its number, and a mark under the column on a line below. -/
def text (source : Bytes) (offset : Nat) : Bytes :=
  let place := locate source offset
  let before := (source.drop place.start).take (place.offset - place.start)
  let after := (source.drop place.offset).takeWhile fun b => b ≠ 0x0A && b ≠ 0x0D
  let (line, column) := clip (Utf8.chars (before ++ after)) ((Utf8.chars before).length + 1)
  Bytes.padLeft 32 5 (Bytes.ofNat place.line) ++ utf8 ": " ++
    (line.map glyph).flatMap Utf8.encode ++ utf8 "\n" ++ Bytes.spaces (6 + column) ++ utf8 "^"

end EcmaFold.Excerpt
