import EcmaFold.Yaml.Token

/-!
From characters to tokens. What is read may turn out to be a key only when its colon comes, so its place is
remembered until then. Tokens are handed out as soon as two more follow them, unless they wait for a colon.
-/

namespace EcmaFold.Yaml

/-- The latest place, outside of brackets or inside certain ones, where a key could begin. -/
structure KeyPlace where
  /-- How many tokens come before it. -/
  position : Nat
  index : Nat
  line : Nat
  column : Nat
  /-- Whether what begins there may still turn out to be a key. -/
  possible : Bool
  /-- Whether nothing but a key can stand there. -/
  required : Bool

/-- A place where no key begins. -/
def KeyPlace.none (position : Nat) (here : Cursor) : KeyPlace :=
  ⟨position, here.index, here.line, here.column, false, false⟩

/-- The longest way from the beginning of a key to its colon. -/
def longestKey : Nat := 1024

/-- Whether a colon at this place can still make it a key. -/
def KeyPlace.alive (key : KeyPlace) (here : Cursor) : Bool :=
  key.possible && key.line = here.line && here.index ≤ key.index + longestKey

/-- The state between two tokens. -/
structure Scan where
  here : Cursor
  tokens : Array Token := #[]
  /-- Whether a key or an item may begin here. -/
  keyAllowed : Bool := true
  /-- Where a key could begin inside the innermost brackets. -/
  key : KeyPlace := .none 0 here
  /-- Where a key could begin outside of each open bracket, the innermost first. -/
  outer : List KeyPlace := []
  /-- The positions of tokens that wait, in their order, each with the number of brackets around the key
  that it waits for. -/
  waiting : List (Nat × Nat) := []
  /-- How many tokens are handed out. They stay where they are. -/
  handedOut : Nat := 0
  /-- The columns of the open block collections, the innermost first. -/
  columns : List Nat := []
  /-- Whether the characters end where the document does. -/
  whole : Bool := true
  /-- Lines that begin before this index lose their first character. -/
  markedTo : Nat := 0

namespace Scan

def inFlow (scan : Scan) : Bool := !scan.outer.isEmpty

/-- The least column of what belongs to the innermost block collection. -/
def indent (scan : Scan) : Nat := (scan.columns.head?.map (· + 1)).getD 0

/-- No comment is looked for behind a longer gap. -/
def longestGap : Nat := 511

/-- Passes over comments on lines that follow each other but for empty ones, up to the end of the last. -/
def passComments : (fuel : Nat) → Cursor → Cursor
  | 0, here => here
  | fuel + 1, here =>
    let stop := here.lineEnd
    let (gap, next) := stop.takeWhile fun c => isBlank c || c = '\n'
    if next.sees '#' && gap.length ≤ longestGap then passComments fuel next else stop

/-- Passes over a comment behind a token on the same line. -/
def passLineComment (here : Cursor) : Cursor :=
  let (gap, next) := here.takeWhile isBlank
  if !here.fresh && next.sees '#' && gap.length ≤ longestGap then next.lineEnd else here

/-- Goes to the next token. Tabs may not indent what could be a key. -/
def toToken : (fuel : Nat) → Scan → Scan
  | 0, scan => scan
  | fuel + 1, scan =>
    let tabs := scan.inFlow || !scan.keyAllowed
    let line := if scan.here.column = 0 && scan.here.index < scan.markedTo then scan.here.pass else scan.here
    let start := line.dropWhile fun c => c = ' ' || (tabs && c = '\t')
    let here := if start.sees '#' then passComments fuel start else start
    if (here.rest.head?.map isBreak).getD false then
      toToken fuel { scan with here := here.advance, keyAllowed := scan.keyAllowed || !scan.inFlow }
    else { scan with here }

/-- Closes the block collections that satisfy `deeper` by their columns. -/
def close (scan : Scan) (deeper : Nat → Bool) : Scan :=
  if scan.inFlow then scan
  else
    let closed := scan.columns.takeWhile deeper
    { scan with
      tokens := scan.tokens ++ Array.replicate closed.length .blockEnd
      columns := scan.columns.drop closed.length }

/-- Collections are nested no deeper, in blocks or in brackets. -/
def deepestNesting : Nat := 10000

/-- Puts tokens at a position, or at the end if the token there is handed out. Outside brackets, a block
collection begins there if none is open at this column. -/
def begin (scan : Scan) (column position : Nat) (collection : Token) (tokens : List Token) : Option Scan :=
  let opens := !scan.inFlow && scan.indent ≤ column
  let collections := if opens then [collection] else []
  if opens && deepestNesting ≤ scan.columns.length then none
  else some { scan with
    tokens := if position < scan.handedOut then scan.tokens ++ tokens.toArray ++ collections.toArray
      else scan.tokens.extract 0 position ++ collections.toArray ++ tokens.toArray ++
        scan.tokens.extract position scan.tokens.size
    columns := if opens then column :: scan.columns else scan.columns }

/-- Takes a token of `width` characters. -/
def take (scan : Scan) (width : Nat) (token : Token) : Scan :=
  { scan with here := scan.here.move width, tokens := scan.tokens.push token }

/-- Lets the token at a position wait no longer. -/
def release (scan : Scan) (position : Nat) : Scan :=
  { scan with waiting := scan.waiting.filter fun entry => entry.1 ≠ position }

/-- Gives up what could have been a key. -/
def dropKey (scan : Scan) : Option Scan :=
  if !scan.key.possible then some scan
  else if scan.key.required then none
  else some { scan.release scan.key.position with key := { scan.key with possible := false } }

/-- Remembers that a key may begin here, and lets the next token wait for its colon. -/
def saveKey (scan : Scan) : Option Scan :=
  if scan.keyAllowed then
    scan.dropKey.map fun scan =>
      let here := scan.here
      let position := scan.tokens.size
      let required := !scan.inFlow && scan.columns.head? = some here.column
      { scan with
        key := ⟨position, here.index, here.line, here.column, true, required⟩
        waiting := scan.waiting ++ [(position, scan.outer.length)] }
  else some scan

/-- A bracket opens. -/
def openBracket (scan : Scan) (token : Token) : Option Scan := do
  let scan ← scan.saveKey
  guard (scan.outer.length < deepestNesting)
  return { scan.take 1 token with
    keyAllowed := true, key := .none scan.tokens.size scan.here, outer := scan.key :: scan.outer }

/-- A bracket closes. If no key could begin inside, the bracket that opened waits no longer. -/
def closeBracket (scan : Scan) (token : Token) : Option Scan := do
  let scan ← scan.dropKey
  match scan.outer with
  | [] => return { scan.take 1 token with keyAllowed := false }
  | key :: outer =>
    return { (scan.release scan.key.position).take 1 token with keyAllowed := false, key, outer }

/-- The dash of an item. -/
def dash (scan : Scan) : Option Scan := do
  guard (scan.inFlow || scan.keyAllowed)
  let begun ← scan.begin scan.here.column scan.tokens.size .blockSequence []
  let scan ← begun.dropKey
  return { scan.take 1 .dash with keyAllowed := true }

/-- The question mark before a key. -/
def explicitKey (scan : Scan) : Option Scan := do
  guard (scan.inFlow || scan.keyAllowed)
  let begun ← scan.begin scan.here.column scan.tokens.size .blockMapping []
  let scan ← begun.dropKey
  return { scan.take 1 .key with keyAllowed := !scan.inFlow }

/-- The colon before a value. It makes a key of what could be one. -/
def value (scan : Scan) : Option Scan := do
  let key := scan.key
  if key.alive scan.here then
    let begun ← scan.begin key.column key.position .blockMapping [.key]
    return { (begun.release key.position).take 1 .value with
      keyAllowed := false, key := { key with possible := false } }
  else
    guard (!(key.possible && key.required))
    guard (scan.inFlow || scan.keyAllowed)
    let begun ← scan.begin scan.here.column scan.tokens.size .blockMapping []
    return { begun.take 1 .value with
      keyAllowed := !scan.inFlow, key := { key with possible := false } }

/-- The name of an anchor or of a mention, from behind its mark. -/
def name (scan : Scan) (token : Bytes → Token) : Option Scan := do
  let scan ← scan.saveKey
  let (name, place) := scan.here.advance.takeWhile isWordChar
  guard (!name.isEmpty &&
    (spaceNext place.rest || (place.rest.head?.map "?:,]\x7d%@`".toList.contains).getD false))
  return { scan with here := place, tokens := scan.tokens.push (token (bytesOf name)), keyAllowed := false }

/-- A character of a tag. -/
def isTagChar (c : Char) : Bool := isWordChar c || ";/?:@&=+$,.!~*'()[]".toList.contains c

/-- The byte that two hexadecimal digits spell. -/
def hexByte? (a b : Char) : Option UInt8 :=
  let digits := bytesOf [a, b]
  if digits.length = 2 ∧ digits.all Bytes.isHexDigit then some (Bytes.digitsValue 16 digits).toUInt8
  else none

/-- How many bytes follow the first byte of a character. -/
def bytesDue? (first : UInt8) : Option Nat :=
  if first < 0x80 then some 0
  else if first < 0xC0 then none
  else if first < 0xE0 then some 1
  else if first < 0xF0 then some 2
  else if first < 0xF8 then some 3
  else none

/-- The text of a tag at the head of the characters, and its width. A byte may be written as a percent sign
and two digits; `due` such bytes have to complete a character. -/
def tagText? : (due : Nat) → List Char → Option (Bytes × Nat)
  | due, '%' :: a :: b :: rest => do
    let byte ← hexByte? a b
    let due ← match due with
      | 0 => bytesDue? byte
      | due + 1 => if 0x80 ≤ byte ∧ byte < 0xC0 then some due else none
    let (text, width) ← tagText? due rest
    return (byte :: text, width + 3)
  | _, '%' :: _ => none
  | _ + 1, _ => none
  | 0, [] => some ([], 0)
  | 0, c :: rest =>
    if isTagChar c then (tagText? 0 rest).map fun (text, width) => (Utf8.encode c ++ text, width + 1)
    else some ([], 0)

/-- A handle at the head of the characters: an exclamation mark, a name and perhaps another mark. -/
def handle (chars : List Char) : List Char :=
  let word := ((chars.drop 1).takeWhile isWordChar).length
  chars.take (if (chars.drop (word + 1)).head? = some '!' then word + 2 else word + 1)

/-- The handle and suffix of a tag, and its width. -/
def tag? (chars : List Char) : Option (Bytes × Bytes × Nat) := do
  match chars with
  | '!' :: '<' :: rest =>
    let (suffix, width) ← tagText? 0 rest
    guard (width ≠ 0 && (rest.drop width).head? = some '>')
    return ([], suffix, width + 3)
  | _ =>
    let handle := handle chars
    if 1 < handle.length && handle.getLast? = some '!' then
      let (suffix, width) ← tagText? 0 (chars.drop handle.length)
      guard (width ≠ 0)
      return (bytesOf handle, suffix, handle.length + width)
    else
      let (suffix, width) ← tagText? 0 (chars.drop 1)
      if width = 0 then return ([], utf8 "!", 1) else return (utf8 "!", suffix, width + 1)

/-- A tag. -/
def tag (scan : Scan) : Option Scan := do
  let scan ← scan.saveKey
  let (handle, suffix, width) ← tag? scan.here.rest
  guard (spaceNext (scan.here.rest.drop width))
  return { scan.take width (.tag handle suffix) with keyAllowed := false }

/-- A scalar in quotes. -/
def quoted (scan : Scan) (text? : Cursor → Option (List Char × Cursor)) : Option Scan := do
  let scan ← scan.saveKey
  let (text, place) ← text? scan.here.advance
  return { scan with
    here := place, tokens := scan.tokens.push (.scalar false (bytesOf text)), keyAllowed := false }

/-- A scalar with lines of its own. -/
def block (scan : Scan) (fuel : Nat) (literal : Bool) : Option Scan := do
  let scan ← scan.dropKey
  let (text, place) ← blockText fuel literal scan.indent scan.here.advance
  return { scan with
    here := place, tokens := scan.tokens.push (.scalar false (bytesOf text)), keyAllowed := true }

/-- A plain scalar. Behind a line break a key may follow it. -/
def plain (scan : Scan) (fuel : Nat) : Option Scan := do
  let scan ← scan.saveKey
  let (text, broken, place) ← plainText scan.inFlow scan.indent fuel [] scan.here
  return { scan with
    here := place, tokens := scan.tokens.push (.scalar true (bytesOf text)), keyAllowed := broken }

/-- The marks that no plain scalar begins with. -/
def indicators : List Char := "-?:,[]\x7b\x7d#&*!|>'\"%@`".toList

/-- A token inside a document. Here and below, the fuel exceeds the number of characters left. -/
def content (scan : Scan) (fuel : Nat) : Option Scan :=
  match scan.here.rest with
  | [] => none
  | c :: rest =>
    let alone := spaceNext rest
    if c = '[' then scan.openBracket .sequenceOpen
    else if c = '\x7b' then scan.openBracket .mappingOpen
    else if c = ']' then scan.closeBracket .sequenceClose
    else if c = '\x7d' then scan.closeBracket .mappingClose
    else if c = ',' then scan.dropKey.map fun scan => { scan.take 1 .comma with keyAllowed := true }
    else if c = '-' && alone then scan.dash
    else if c = '?' && (scan.inFlow || alone) then scan.explicitKey
    else if c = ':' && (scan.inFlow || alone) then scan.value
    else if c = '*' then scan.name .mention
    else if c = '&' then scan.name .anchor
    else if c = '!' then scan.tag
    else if c = '|' && !scan.inFlow then scan.block fuel true
    else if c = '>' && !scan.inFlow then scan.block fuel false
    else if c = '\'' then scan.quoted (singleQuoted fuel)
    else if c = '"' then scan.quoted (doubleQuoted fuel)
    else if c = '-' || c = '?' || c = ':' || !(isBlank c || indicators.contains c) then scan.plain fuel
    else none

/-- A mark between documents. -/
def mark (scan : Scan) (token : Token) : Option Scan :=
  (scan.close fun _ => true).dropKey.map fun scan => { scan.take 3 token with keyAllowed := false }

/-- A number of a version: one or two digits. -/
def versionNumber? (chars : List Char) : Option (Nat × List Char) :=
  let digits := chars.takeWhile Char.isDigit
  if digits.isEmpty || 2 < digits.length then none
  else some (Bytes.digitsValue 10 (bytesOf digits), chars.drop digits.length)

/-- A directive from behind its percent sign, and what follows it. -/
def directive? (chars : List Char) : Option (Token × List Char) := do
  let name := chars.takeWhile isWordChar
  let rest := (chars.drop name.length).dropWhile isBlank
  guard (spaceNext (chars.drop name.length))
  if name = "YAML".toList then
    let (major, rest) ← versionNumber? rest
    guard (rest.head? = some '.')
    let (minor, rest) ← versionNumber? (rest.drop 1)
    return (.version major minor, rest)
  else if name = "TAG".toList then
    let handle := handle rest
    guard (rest.head? = some '!' && (handle.length = 1 || handle.getLast? = some '!'))
    let behind := rest.drop handle.length
    guard (behind.head?.map isBlank |>.getD false)
    let start := behind.dropWhile isBlank
    let (expansion, width) ← tagText? 0 start
    guard (width ≠ 0 && spaceNext (start.drop width))
    return (.handle (bytesOf handle) expansion, start.drop width)
  else none

/-- A line with a directive. -/
def directive (scan : Scan) : Option Scan := do
  let scan ← (scan.close fun _ => true).dropKey
  let start := scan.here.advance
  let (token, rest) ← directive? start.rest
  let place := (start.move (start.rest.length - rest.length)).dropWhile isBlank
  let stop := if place.sees '#' then place.lineEnd else place
  guard ((stop.rest.head?.map isBreak).getD true)
  return { scan with here := stop.advance, tokens := scan.tokens.push token, keyAllowed := false }

/-- A token. -/
def next (scan : Scan) (fuel : Nat) : Option Scan :=
  if scan.here.column = 0 && scan.here.sees '%' then scan.directive
  else if scan.here.seesMark '-' then scan.mark .documentStart
  else if scan.here.seesMark '.' then scan.mark .documentEnd
  else (scan.content fuel).map fun scan =>
    if scan.tokens.back? = some .dash then scan
    else { scan with here := passLineComment scan.here }

/-- Whether a token waits for a key with this number of brackets around it. -/
def waits (scan : Scan) (brackets : Nat) : Bool :=
  match (scan.key :: scan.outer)[scan.outer.length - brackets]? with
  | some key => key.possible && (key.required || key.alive scan.here)
  | none => false

/-- Hands out the tokens that two more follow, up to the first that waits. -/
def handOut (scan : Scan) : Scan :=
  let waiting := scan.waiting.dropWhile fun entry => entry.1 < scan.handedOut
  let limit := match waiting.find? fun entry => scan.waits entry.2 with
    | some (position, _) => min position (scan.tokens.size - 2)
    | none => scan.tokens.size - 2
  { scan with waiting, handedOut := max scan.handedOut limit }

/-- The tokens that are handed out. -/
def settled (scan : Scan) : List Token := scan.tokens.toList.take scan.handedOut

/-- Whether fewer than `count` characters are left before a place that cannot be read. -/
def lacks (scan : Scan) (count : Nat) : Bool := !scan.whole && (scan.here.rest.drop (count - 1)).isEmpty

/-- The longest mark, with the space behind it, has this many characters. -/
def longestMark : Nat := 4

/-- Reads on to the end, or to the first fault. -/
def run : (fuel : Nat) → Scan → List Token
  | 0, scan => scan.settled
  | fuel + 1, before =>
    let scan := before.handOut
    let reached := toToken (fuel + 1) scan
    if reached.lacks longestMark then scan.settled
    else if reached.here.rest.isEmpty then
      match (reached.close fun _ => true).dropKey with
      | some last => (last.tokens.push .ending).toList
      | none => scan.settled
    else
      match (reached.close fun column => reached.here.column < column).next (fuel + 1) with
      | some next => if next.lacks 1 then scan.settled else run fuel next
      | none => scan.settled

end Scan

/-- The tokens of a document as far as they can be relied on. They have an ending if there is no fault. -/
def Token.scan (content : Content) : List Token :=
  Scan.run (content.chars.length + 1)
    { here := { rest := content.chars }, whole := content.whole, markedTo := content.markedTo }

end EcmaFold.Yaml
