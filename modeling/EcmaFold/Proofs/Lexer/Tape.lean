import EcmaFold.Lexer.Scanner

/-!
The lexical rules step by step, as a head moves over a source. A rule reads single bytes and parts of the source, moves
in several steps, and has to take back its moves where it fails. To read or to move outside of the source is a fault,
and an action that has a fault, or never ends, has no result.
-/

namespace EcmaFold

/-- The trivia that were passed over last: from where to where, and whether a line ended in them. -/
structure Passed where
  start : Nat
  stop : Nat
  newline : Bool
  deriving DecidableEq, Repr

/-- A source with a head that moves over it. Trivia are looked for only once at a place, as long as none are looked for
at another one. -/
structure Tape where
  source : Bytes
  head : Nat
  passed : Option Passed
  deriving DecidableEq, Repr

namespace Tape

/-- The head at the beginning of a source. -/
def ofSource (source : Bytes) : Tape := ⟨source, 0, none⟩

/-- The place of the head, without the trivia passed over last. -/
def scanner (t : Tape) : Scanner := ⟨t.source, t.head⟩

/-- The source from the head on. -/
def rest (t : Tape) : Bytes := t.source.drop t.head

/-- How many bytes are left from the head on. -/
def left (t : Tape) : Nat := t.source.length - t.head

/-- The head further on. -/
def advance (t : Tape) (width : Nat) : Tape := { t with head := t.head + width }

end Tape

/-- What reads a tape and moves its head. -/
abbrev Act (α : Type) := StateT Tape Option α

namespace Act

/-! Reading and moving -/

def size : Act Nat := fun t => some (t.source.length, t)

def offset : Act Nat := fun t => some (t.head, t)

/-- The byte at a place of the source. -/
def byteAt (place : Nat) : Act UInt8 := fun t => t.source[place]?.map (·, t)

/-- The part of the source from one place to another. -/
def part (start stop : Nat) : Act Bytes := fun t =>
  if start ≤ stop ∧ stop ≤ t.source.length then some ((t.source.drop start).take (stop - start), t) else none

/-- Moves the head to a place of the source, forwards or backwards. -/
def moveTo (place : Nat) : Act Unit := fun t =>
  if place ≤ t.source.length then some ((), { t with head := place }) else none

def move (width : Nat) : Act Unit := do
  moveTo ((← offset) + width)

/-- The byte that stands `k` bytes behind the head, zero behind the end. -/
def peek (k : Nat) : Act UInt8 := do
  let place := (← offset) + k
  if place < (← size) then byteAt place else return 0

/-- The character at the head of the bytes and its width: the replacement character for a bad byte, and without width
where nothing is left. -/
def runeAt : Bytes → Char × Nat
  | [] => (Utf8.replacement, 0)
  | bytes => (Utf8.decode? bytes).getD (Utf8.replacement, 1)

/-- The character at the head and its width. -/
def peekRune : Act (Char × Nat) := do
  let b ← peek 0
  if b < 0x80 then
    if b = 0 ∧ (← size) ≤ (← offset) then return (Utf8.replacement, 0)
    else return (Char.ofNat b.toNat, 1)
  else
    return runeAt (← part (← offset) (← size))

def atLineTerminator : Act Bool := do
  let b ← peek 0
  if b = 0x0A ∨ b = 0x0D then return true
  else if b = 0xE2 then return (← peek 1) = 0x80 && ((← peek 2) = 0xA8 || (← peek 2) = 0xA9)
  else return false

/-! Loops -/

/-- What a round of a loop comes to: the loop is done, or goes on with what the round hands on. -/
inductive Round (σ α : Type) where
  | done (value : α)
  | more (handed : σ)

/-- Repeats a round until one is done. A round that goes on has to leave less than before. If it does not, the loop
need never end, and it has no result. -/
def loop {σ α : Type} (left : σ → Tape → Nat) (round : σ → Act (Round σ α)) (handed : σ) : Act α := fun t =>
  match round handed t with
  | none => none
  | some (.done value, behind) => some (value, behind)
  | some (.more next, behind) => if left next behind < left handed t then loop left round next behind else none
termination_by t => left handed t

/-- A loop whose rounds have to move the head forward. -/
def loopAhead {σ α : Type} (round : σ → Act (Round σ α)) (handed : σ) : Act α := loop (fun _ => Tape.left) round handed

/-! Trivia -/

/-- Moves to the end of a line, in front of its terminator. -/
def passLine : Act Unit := loopAhead (fun _ => do
  if (← atLineTerminator) || (← size) ≤ (← offset) then return .done ()
  else
    move 1
    return .more ()) ()

/-- Moves behind the closing of a block comment, or to the end of the source if there is none. Tells whether a line
ended, given what came before, if the comment is closed. -/
def passBlock : (newline : Bool) → Act (Option Bool) := loopAhead fun newline => do
  if (← size) ≤ (← offset) then return .done none
  else if (← peek 0) = 0x2A ∧ (← peek 1) = 0x2F then
    move 2
    return .done (some newline)
  else
    let ends ← atLineTerminator
    move 1
    return .more (newline || ends)

/-- Moves behind one piece of trivia, if there is one, and tells whether a line ended in it. -/
def passPiece : Act (Option Bool) := do
  let b ← peek 0
  if b = 0x20 ∨ b = 0x09 ∨ b = 0x0B ∨ b = 0x0C then
    move 1
    return some false
  else if b = 0x0A ∨ b = 0x0D then
    move 1
    return some true
  else if b = 0x2F then
    let next ← peek 1
    if next = 0x2F then
      move 2
      passLine
      return some false
    else if next = 0x2A then
      let start ← offset
      move 2
      match ← passBlock false with
      | some newline => return some newline
      | none =>
        moveTo start
        return none
    else return none
  else if b < 0x80 then return none
  else
    let (c, width) ← peekRune
    if c = '\u2028' ∨ c = '\u2029' then
      move width
      return some true
    else if c = '\u00A0' ∨ c = '\uFEFF' ∨ Category.isSpaceSeparator c then
      move width
      return some false
    else return none

/-- Moves behind all trivia and tells whether a line ended, given what came before. -/
def passTrivia : (newline : Bool) → Act Bool := loopAhead fun newline => do
  match ← passPiece with
  | some ends => return .more (newline || ends)
  | none => return .done newline

/-- Moves behind all trivia and tells whether a line ended in them. -/
def skip : Act Bool := do
  let t ← get
  match t.passed.filter (·.start = t.head) with
  | some passed =>
    moveTo passed.stop
    return passed.newline
  | none =>
    let newline ← passTrivia false
    modify fun behind => { behind with passed := some ⟨t.head, behind.head, newline⟩ }
    return newline

/-- Whether nothing is left behind the trivia, where the head stays. -/
def atEnd : Act Bool := do
  let _ ← skip
  return (← size) ≤ (← offset)

/-- Whether a line ends before the next token. -/
def newlineAhead : Act Bool := do
  let start ← offset
  let newline ← skip
  moveTo start
  return newline

/-- The source from a place on, nothing behind the end. -/
def remaining (place : Nat) : Act Bytes := do
  if (← size) ≤ place then return []
  else part place (← size)

/-- What is looked for behind the trivia, given the place in front of them. -/
def behindTrivia {α : Type} (look : (start : Nat) → Act (Option α)) : Act (Option α) := do
  let start ← offset
  let _ ← skip
  look start

/-! Punctuators and words -/

/-- The longest of the punctuators that stands at the head, and its width. -/
def symbolHere : Act (Symbol × Nat) := do
  let start ← offset
  return Scanner.symbolAt (← part start (min (start + 4) (← size)))

def punctIn (symbols : List Symbol) : Act (Option Symbol) := behindTrivia fun start => do
  let (symbol, width) ← symbolHere
  if symbol ∈ symbols then
    move width
    return some symbol
  else
    moveTo start
    return none

def keyword (symbol : Symbol) : Act (Option Symbol) := behindTrivia fun start => do
  let place ← offset
  let width := symbol.spelling.length
  if place + width ≤ (← size) then
    if (← part place (place + width)) = symbol.spelling then
      move width
      let (c, _) ← peekRune
      if Name.isPart c then
        moveTo start
        return none
      else return some symbol
    else
      moveTo start
      return none
  else
    moveTo start
    return none

def keywordIn : List Symbol → Act (Option Symbol)
  | [] => return none
  | symbol :: symbols => do
    match ← keyword symbol with
    | some found => return some found
    | none => keywordIn symbols

/-- Moves behind the characters that a name goes on with. -/
def passName : Act Unit := loopAhead (fun _ => do
  let (c, width) ← peekRune
  if width = 0 ∨ ¬ Name.isPart c then return .done ()
  else
    move width
    return .more ()) ()

def identifierName : Act (Option Bytes) := behindTrivia fun start => do
  let place ← offset
  let (c, width) ← peekRune
  if width = 0 ∨ ¬ Name.isStart c then
    moveTo start
    return none
  else
    move width
    passName
    return some (← part place (← offset))

def identifier : Act (Option Bytes) := do
  let start ← offset
  match ← identifierName with
  | none => return none
  | some name =>
    if (Word.ofSpelling? name).isSome then
      moveTo start
      return none
    else return some name

/-! Numbers -/

/-- Looks at the byte behind those that could belong to a number from `start` on, which end at `stop` so far. -/
def windowRound (start stop : Nat) : Act (Round Nat Nat) := do
  if (← size) ≤ stop then return .done stop
  else
    let b ← byteAt stop
    if Number.belongs 0 b then return .more (stop + 1)
    else if (b = 0x2B ∨ b = 0x2D) ∧ start < stop then
      let before ← byteAt (stop - 1)
      if before = 0x65 ∨ before = 0x45 then return .more (stop + 1) else return .done stop
    else return .done stop

/-- Where the bytes end that could belong to a number from `start` on, given that they do so up to `stop`. -/
def windowStop (start : Nat) : (stop : Nat) → Act Nat :=
  loop (fun stop t => t.source.length - stop) (windowRound start)

/-- The bytes at the head that could belong to a number. -/
def window : Act Bytes := do
  let start ← offset
  part start (← windowStop start start)

/-- The beginning of a text, up to `width`. -/
def beginning (text : Bytes) (width : Nat) : Act Bytes := fun t =>
  if width ≤ text.length then some (text.take width, t) else none

/-- A number, by a matcher that gives the length of a spelling at the head of a text. What it finds has a value. -/
def number (find? : Bytes → Option Nat) : Act (Option Number) := behindTrivia fun start => do
  let text ← window
  match find? text with
  | none =>
    moveTo start
    return none
  | some width =>
    let raw ← beginning text width
    move raw.length
    let (c, width) ← peekRune
    if 0 < width ∧ Name.isPart c then
      moveTo start
      return none
    else return some ⟨raw, Number.valueOf raw⟩

/-! String literals -/

/-- What a letter stands for behind a backslash. -/
def letterEscape? (b : UInt8) : Option UInt8 :=
  if b = 0x6E then some 0x0A
  else if b = 0x74 then some 0x09
  else if b = 0x72 then some 0x0D
  else if b = 0x62 then some 0x08
  else if b = 0x66 then some 0x0C
  else if b = 0x76 then some 0x0B
  else none

/-- An escape by number: `count` hexadecimal digits behind the letter at the head. -/
def codeEscape (count : Nat) : Act (Option Bytes) := do
  let start ← offset
  if (← size) ≤ start + count then return none
  else
    match StringLiteral.hexCode? (← part (start + 1) (start + 1 + count)) with
    | none => return none
    | some code =>
      move (count + 1)
      return some (Utf8.encodeCode code)

/-- Moves behind an escape, whose backslash is passed, and tells what it stands for. -/
def escape : Act (Option Bytes) := do
  if (← size) ≤ (← offset) then return none
  else
    let b ← peek 0
    match letterEscape? b with
    | some decoded =>
      move 1
      return some [decoded]
    | none =>
      if b = 0x30 then
        if Bytes.isDigit (← peek 1) then return none
        else
          move 1
          return some [0]
      else if b = 0x78 then codeEscape 2
      else if b = 0x75 then codeEscape 4
      else if b = 0x0D then
        if (← peek 1) = 0x0A then
          move 1
          move 1
          return some []
        else
          move 1
          return some []
      else if b = 0x0A then
        move 1
        return some []
      else if ← atLineTerminator then
        move 3
        return some []
      else
        let (c, width) ← peekRune
        move width
        return some (Utf8.encode c)

/-- Moves behind the closing quote, or behind the next piece of the text, which goes on behind `value`. -/
def literalRound (quote : UInt8) (value : Bytes) : Act (Round Bytes (Option Bytes)) := do
  if (← size) ≤ (← offset) then return .done none
  else if ← atLineTerminator then return .done none
  else
    let b ← peek 0
    if b = quote then
      move 1
      return .done (some value)
    else if b = 0x5C then
      move 1
      match ← escape with
      | none => return .done none
      | some decoded => return .more (value ++ decoded)
    else
      let (c, width) ← peekRune
      move width
      return .more (value ++ if c = Utf8.replacement ∧ width = 1 then [b] else Utf8.encode c)

/-- Moves behind the closing quote and gives the decoded text, which goes on behind `value`. -/
def literalBody (quote : UInt8) : (value : Bytes) → Act (Option Bytes) := loopAhead (literalRound quote)

def stringLiteral : Act (Option Bytes) := behindTrivia fun start => do
  let quote ← peek 0
  if quote = 0x22 ∨ quote = 0x27 then
    move 1
    match ← literalBody quote [] with
    | some value => return some value
    | none =>
      moveTo start
      return none
  else
    moveTo start
    return none

end Act

end EcmaFold
