import EcmaFold.Yaml.Cursor

/-!
The texts of scalars. Line breaks inside a plain or quoted scalar are folded; a block scalar has lines of
its own.
-/

namespace EcmaFold.Yaml

/-- What a line break means in a text. Separators of lines and paragraphs are kept, others become line
feeds. -/
def breakText (c : Char) : Char := if c = '\u0085' then '\n' else c

/-- The line breaks of a gap. -/
def breaksOf (gap : List Char) : List Char := (gap.filter isBreak).map breakText

/-- What a gap between two words means. A single line break becomes a space; of several, the first
does not count. -/
def folded (gap : List Char) : List Char :=
  match breaksOf gap with
  | [] => gap
  | ['\n'] => [' ']
  | '\n' :: more => more
  | separators => separators

/-- Whether a gap has a tab where its last line should be indented. The column is known after the first
line break. -/
def misindented (indent : Nat) : (column : Option Nat) → (gap : List Char) → Bool
  | _, [] => false
  | column, c :: gap =>
    if isBreak c then misindented indent (some 0) gap
    else match column with
      | none => misindented indent none gap
      | some n => (c = '\t' && n < indent) || misindented indent (some (n + 1)) gap

/-- A mark that ends a plain scalar inside brackets. -/
def isFlowMark (c : Char) : Bool := ",?[]\x7b\x7d".toList.contains c

/-- How far a word of a plain scalar reaches: up to a space, or a colon before one. -/
def wordWidth (inFlow : Bool) : List Char → Nat
  | [] => 0
  | c :: rest =>
    if isSpace c || (c = ':' && spaceNext rest) || (inFlow && isFlowMark c) then 0
    else wordWidth inFlow rest + 1

/-- Reads on in a plain scalar behind a gap. Outside brackets it ends with a line that is not indented to
`indent`. The truth value says whether a line break was passed behind the last word. -/
def plainText (inFlow : Bool) (indent : Nat) :
    (fuel : Nat) → (gap : List Char) → Cursor → Option (List Char × Bool × Cursor)
  | 0, _, _ => none
  | fuel + 1, gap, here =>
    let width := wordWidth inFlow here.rest
    if here.leavesDocument || here.sees '#' || width = 0 then some ([], gap.any isBreak, here)
    else
      let word := here.rest.take width
      let (next, place) := (here.move width).takeWhile isSpace
      if misindented indent none next then none
      else if next.isEmpty || (!inFlow && place.column < indent) then
        some (folded gap ++ word, next.any isBreak, place)
      else (plainText inFlow indent fuel next place).map fun (text, broken, place) =>
        (folded gap ++ word ++ text, broken, place)

/-- What a short escape stands for. -/
def shortEscape? (c : Char) : Option Char :=
  [('0', '\x00'), ('a', '\x07'), ('b', '\x08'), ('t', '\t'), ('\t', '\t'), ('n', '\n'), ('v', '\x0b'),
    ('f', '\x0c'), ('r', '\r'), ('e', '\x1b'), (' ', ' '), ('"', '"'), ('\'', '\''), ('\\', '\\'),
    ('N', '\u0085'), ('_', '\u00a0'), ('L', '\u2028'), ('P', '\u2029')].lookup c

/-- How many hexadecimal digits follow an escape. -/
def escapeDigits? (c : Char) : Option Nat := [('x', 2), ('u', 4), ('U', 8)].lookup c

/-- The character that an escape stands for, and how many characters it takes after the backslash. -/
def escape? : List Char → Option (Char × Nat)
  | [] => none
  | c :: rest =>
    match shortEscape? c, escapeDigits? c with
    | some meant, _ => some (meant, 1)
    | none, some count =>
      let digits := bytesOf (rest.take count)
      if digits.length = count ∧ digits.all Bytes.isHexDigit then
        (Utf8.scalar? 0 (Bytes.digitsValue 16 digits)).map (·, count + 1)
      else none
    | none, none => none

/-- The text of a single-quoted scalar from behind the opening quote, and the place behind the closing one.
A quote inside is written twice. -/
def singleQuoted : (fuel : Nat) → Cursor → Option (List Char × Cursor)
  | 0, _ => none
  | fuel + 1, here =>
    let goOn (text : List Char) (place : Cursor) :=
      (singleQuoted fuel place).map fun (more, place) => (text ++ more, place)
    if here.leavesDocument then none
    else match here.rest with
      | [] => none
      | '\'' :: '\'' :: _ => goOn ['\''] (here.move 2)
      | '\'' :: _ => some ([], here.advance)
      | c :: _ =>
        if isSpace c then
          let (gap, place) := here.takeWhile isSpace
          goOn (folded gap) place
        else goOn [c] here.advance

/-- The text of a double-quoted scalar from behind the opening quote, and the place behind the closing one.
An escaped line break counts for nothing, and so does the indentation behind it. -/
def doubleQuoted : (fuel : Nat) → Cursor → Option (List Char × Cursor)
  | 0, _ => none
  | fuel + 1, here =>
    let goOn (text : List Char) (place : Cursor) :=
      (doubleQuoted fuel place).map fun (more, place) => (text ++ more, place)
    if here.leavesDocument then none
    else match here.rest with
      | [] => none
      | '"' :: _ => some ([], here.advance)
      | '\\' :: escaped =>
        if (escaped.head?.map isBreak).getD false then
          let (gap, place) := (here.move 2).takeWhile isSpace
          goOn (breaksOf gap) place
        else (escape? escaped).bind fun (c, width) => goOn [c] (here.move (width + 1))
      | c :: _ =>
        if isSpace c then
          let (gap, place) := here.takeWhile isSpace
          goOn (folded gap) place
        else goOn [c] here.advance

/-- What is kept of the line breaks that end a block scalar: none, the first or all. -/
inductive Chomp where
  | strip
  | clip
  | keep
  deriving DecidableEq, Repr

/-- What is kept of the break of the last line and of the breaks that follow. -/
def Chomp.kept (chomp : Chomp) (lineBreak breaks : List Char) : List Char :=
  match chomp with
  | .strip => []
  | .clip => lineBreak
  | .keep => lineBreak ++ breaks

/-- How a block scalar is read. -/
structure BlockStyle where
  /-- Whether line breaks are kept as they are. -/
  literal : Bool
  chomp : Chomp
  indent : Nat

def chomp? (c : Char) : Option Chomp := [('-', Chomp.strip), ('+', Chomp.keep)].lookup c

/-- The chomping and indentation that a block scalar asks for, in any order, with their width. -/
def blockMarks? : List Char → Option (Chomp × Nat × Nat)
  | [] => some (.clip, 0, 0)
  | first :: rest =>
    let digit? (c : Char) : Option Nat := if c.isDigit then some (c.toNat - 48) else none
    let (chomp, indent, width) : Chomp × Option Nat × Nat := match chomp? first, digit? first with
      | some chomp, _ =>
        match rest.head?.bind digit? with
        | some indent => (chomp, some indent, 2)
        | none => (chomp, none, 1)
      | none, some indent =>
        match rest.head?.bind chomp? with
        | some chomp => (chomp, some indent, 2)
        | none => (.clip, some indent, 1)
      | none, none => (.clip, none, 0)
    if indent = some 0 then none else some (chomp, indent.getD 0, width)

/-- Passes over indentation up to `indent` and over empty lines; without a limit if that is zero. Gives the
line breaks, the deepest indentation and the place. -/
def emptyLines (indent : Nat) :
    (fuel : Nat) → (deepest : Nat) → Cursor → Option (List Char × Nat × Cursor)
  | 0, _, _ => none
  | fuel + 1, deepest, here =>
    let spaces := (here.rest.takeWhile (· = ' ')).length
    let place := here.move (if indent = 0 then spaces else min spaces (indent - here.column))
    let deepest := max deepest place.column
    match place.rest with
    | [] => some ([], deepest, place)
    | c :: _ =>
      if c = '\t' && (indent = 0 || place.column < indent) then none
      else if isBreak c then
        (emptyLines indent fuel deepest place.advance).map fun (breaks, deepest, place) =>
          (breakText c :: breaks, deepest, place)
      else some ([], deepest, place)

/-- The lines of a block scalar from here on. `lineBreak` ended the line before, which began with a blank
if `indented`, and `breaks` came after it. -/
def blockLines (style : BlockStyle) : (fuel : Nat) → (indented : Bool) →
    (lineBreak breaks : List Char) → Cursor → Option (List Char × Cursor)
  | 0, _, _, _, _ => none
  | fuel + 1, indented, lineBreak, breaks, here =>
    if here.rest.isEmpty || here.column ≠ style.indent then
      some (style.chomp.kept lineBreak breaks, here)
    else do
      let blank := (here.rest.head?.map isBlank).getD false
      let joint := if !style.literal && !indented && !blank && lineBreak = ['\n'] then
          if breaks.isEmpty then [' '] else []
        else lineBreak
      let (line, stop) := here.takeWhile fun c => !isBreak c
      let (more, _, place) ← emptyLines style.indent fuel 0 stop.advance
      let (text, place) ← blockLines style fuel blank (breaksOf (stop.rest.take 1)) more place
      return (joint ++ breaks ++ line ++ text, place)

/-- The text of a block scalar from behind its mark. Unless it says how far its lines are indented, the
first of them shows it, and that is no less than `least`. -/
def blockText (fuel : Nat) (literal : Bool) (least : Nat) (here : Cursor) :
    Option (List Char × Cursor) := do
  let (chomp, more, width) ← blockMarks? here.rest
  let place := (here.move width).dropWhile isBlank
  let stop := if place.sees '#' then place.lineEnd else place
  guard ((stop.rest.head?.map isBreak).getD true)
  let asked := if more = 0 then 0 else least - 1 + more
  let (breaks, deepest, place) ← emptyLines asked fuel 0 stop.advance
  let indent := if more = 0 then max 1 (max deepest least) else asked
  blockLines ⟨literal, chomp, indent⟩ fuel false [] breaks place

end EcmaFold.Yaml
