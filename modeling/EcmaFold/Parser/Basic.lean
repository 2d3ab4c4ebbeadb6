import EcmaFold.Lexeme

/-!
Parsers over lexemes with ordered choice. A parser reads from a cursor and either gives a value and
the cursor behind it or gives nothing; a caller that goes on after a failure does so from its own
cursor. Beside its result a parser reports what it missed farthest to the right, which explains a
rejected source and never changes a result.
-/

namespace EcmaFold

/-- What a rule can miss. -/
inductive Expectation where
  | symbol (symbol : Symbol)
  | identifier
  | expression
  | propertyName
  | endOfInput
  deriving DecidableEq, Repr

/-- What was missed at an offset, in the order in which it was tried. -/
structure Failure where
  offset : Nat
  expected : List Expectation
  deriving DecidableEq, Repr

namespace Failure

/-- Keeps the failure farther to the right. At one offset the expectations are joined, each kept
once. -/
def merge : Option Failure → Option Failure → Option Failure
  | none, later => later
  | earlier, none => earlier
  | some earlier, some later =>
    if earlier.offset < later.offset then some later
    else if later.offset < earlier.offset then some earlier
    else some ⟨earlier.offset,
      earlier.expected ++ later.expected.filter fun missed => missed ∉ earlier.expected⟩

end Failure

/-- Where a parser stands: the offset behind the last token it took and the lexemes not taken. -/
structure Cursor where
  stop : Nat
  rest : List Lexeme

namespace Cursor

/-- The offset of the next token. -/
def offset (cursor : Cursor) : Nat :=
  match cursor.rest with
  | [] => cursor.stop
  | next :: _ => next.span.start

/-- Whether all tokens are taken. -/
def atEnd (cursor : Cursor) : Bool :=
  match cursor.rest with
  | [] => true
  | ⟨.ending, _, _⟩ :: _ => true
  | _ => false

end Cursor

/-- The answer of a parser. -/
structure Reply (α : Type) where
  result : Option (α × Cursor)
  failure : Option Failure

/-- A parser for an `α`. -/
def Parser (α : Type) : Type := Cursor → Reply α

/-- Whether a token spells a symbol. -/
def Symbol.isSpelled : Symbol → Token → Bool
  | .punct p, .punct q => p = q
  | .word w, .keyword v => w = v
  | _, _ => false

namespace Parser

variable {α β : Type}

/-- Takes nothing. -/
protected def pure (value : α) : Parser α := fun cursor => ⟨some (value, cursor), none⟩

/-- One parser after the other. -/
protected def bind (first : Parser α) (next : α → Parser β) : Parser β := fun cursor =>
  match first cursor with
  | ⟨none, failure⟩ => ⟨none, failure⟩
  | ⟨some (value, after), failure⟩ =>
    let reply := next value after
    ⟨reply.result, Failure.merge failure reply.failure⟩

instance : Monad Parser where
  pure := Parser.pure
  bind := Parser.bind

/-- Fails and reports nothing. -/
def fail : Parser α := fun _ => ⟨none, none⟩

/-- Reports that something is missed at the next token. -/
def miss (expectation : Expectation) : Parser Unit := fun cursor =>
  ⟨some ((), cursor), some ⟨cursor.offset, [expectation]⟩⟩

/-- Fails because something is missed at the next token. -/
def failMissing (expectation : Expectation) : Parser α := do
  miss expectation
  fail

/-- The first parser, or the second from the same place if the first fails. -/
def either (first second : Parser α) : Parser α := fun cursor =>
  match first cursor with
  | ⟨some success, failure⟩ => ⟨some success, failure⟩
  | ⟨none, failure⟩ =>
    let reply := second cursor
    ⟨reply.result, Failure.merge failure reply.failure⟩

instance : OrElse (Parser α) where
  orElse first second := either first (second ())

/-- The parser's value, or nothing from the same place if it fails. -/
def optional (parser : Parser α) : Parser (Option α) :=
  either (some <$> parser) (pure none)

/-- The offset of the next token. -/
def offset : Parser Nat := fun cursor => ⟨some (cursor.offset, cursor), none⟩

/-- The offset behind the last token taken. -/
def reached : Parser Nat := fun cursor => ⟨some (cursor.stop, cursor), none⟩

/-- The value of a parser that is still to be told what part of the source it covers. -/
def spanned (parser : Parser (Span → α)) : Parser α := do
  let start ← offset
  let build ← parser
  let stop ← reached
  return build ⟨start, stop⟩

/-- Takes the next token if `select` gives a value for it. -/
def accept (select : Token → Option α) : Parser (Option α) := fun cursor =>
  match cursor.rest with
  | [] => ⟨some (none, cursor), none⟩
  | next :: rest =>
    match select next.token with
    | some value => ⟨some (some value, ⟨next.span.stop, rest⟩), none⟩
    | none => ⟨some (none, cursor), none⟩

/-- Whether the next token spells the symbol. -/
def ahead (symbol : Symbol) : Parser Bool := fun cursor =>
  ⟨some (cursor.rest.head?.any fun next => symbol.isSpelled next.token, cursor), none⟩

/-- Whether a line terminator stands before the next token. -/
def newlineAhead : Parser Bool := fun cursor =>
  ⟨some (cursor.rest.head?.any (·.newline), cursor), none⟩

/-- Takes the symbol if it is next. -/
def take (symbol : Symbol) : Parser Bool :=
  Option.isSome <$> accept fun token => if symbol.isSpelled token then some () else none

/-- Takes the symbol if it is next; otherwise it is missed. -/
def probe (symbol : Symbol) : Parser Bool := do
  if ← take symbol then return true
  miss (.symbol symbol)
  return false

/-- Takes the symbol or fails silently. -/
def require (symbol : Symbol) : Parser Unit := do
  if ← take symbol then return ()
  fail

/-- Takes the symbol or fails because it is missed. -/
def expect (symbol : Symbol) : Parser Unit := do
  if ← probe symbol then return ()
  fail

/-- The name at a token that is one. -/
def nameOf? : Token → Option Bytes
  | .name spelling => some spelling
  | _ => none

/-- Takes an identifier if one is next. -/
def identifier? : Parser (Option Bytes) := accept nameOf?

/-- Takes an identifier or fails because it is missed. -/
def identifier : Parser Bytes := do
  match ← identifier? with
  | some name => return name
  | none => failMissing .identifier

/-- Runs `round` until it says that it was the last one, at most once more than `bound` is long, and
joins what the rounds give. -/
def rounds (round : Parser (List α × Bool)) : (bound : List Lexeme) → Parser (List α)
  | [] => do
    let (found, again) ← round
    if again then fail else return found
  | _ :: bound => do
    let (found, again) ← round
    if again then
      let more ← rounds round bound
      return found ++ more
    else return found

/-- Runs `round` until it says that it was the last one. A round that is not the last has to take a
token, so the lexemes left bound the number of rounds. -/
def loop (round : Parser (List α × Bool)) : Parser (List α) := fun cursor =>
  rounds round cursor.rest cursor

/-- As many as match. -/
def many (parser : Parser α) : Parser (List α) :=
  loop do
    match ← optional parser with
    | some value => return ([value], true)
    | none => return ([], false)

/-- As many tokens as `select` gives a value for. -/
def manyTokens (select : Token → Option α) : Parser (List α) :=
  loop do
    match ← accept select with
    | some value => return ([value], true)
    | none => return ([], false)

/-- One or more with commas between them. After a comma another one has to follow. -/
def separated (parser : Parser α) : Parser (List α) := do
  let first ← parser
  let rest ← loop do
    if ← take (.punct .comma) then
      let value ← parser
      return ([value], true)
    else return ([], false)
  return first :: rest

end Parser

end EcmaFold
