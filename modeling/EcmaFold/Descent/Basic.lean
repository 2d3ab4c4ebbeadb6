import EcmaFold.Lexer.Scanner
import EcmaFold.Parser.Basic

/-!
Recursive descent over the bytes of a source. There is no list of tokens: a production probes the source
with lexical rules at a cursor, which stands before or behind the trivia of the next token. It moves the
cursor as it goes, and where it fails it leaves the cursor anywhere; whoever tries something else then
marks a place first and moves the cursor back to it.
-/

namespace EcmaFold

/-- What a descent carries along. -/
structure Descent.State where
  scanner : Scanner
  /-- Whether `in` is an operator. It is none in the initialisation of a loop. -/
  allowIn : Bool
  /-- What was missed farthest to the right. -/
  failure : Option Failure

/-- A production: a value, or nothing where it does not match, and in both cases the state it leaves. -/
def Descent (α : Type) : Type := Descent.State → Option α × Descent.State

/-- The token that spells a symbol. -/
def Symbol.token? : Symbol → Option Token
  | .punct p => some (.punct p)
  | .word w => some (.keyword w)
  | _ => none

namespace Descent

variable {α β : Type}

protected def pure (value : α) : Descent α := fun s => (some value, s)

protected def bind (first : Descent α) (next : α → Descent β) : Descent β := fun s =>
  match first s with
  | (some value, s) => next value s
  | (none, s) => (none, s)

instance : Monad Descent where
  pure := Descent.pure
  bind := Descent.bind

def fail : Descent α := fun s => (none, s)

/-- A production that need not match. Where it does not, the cursor stays where it was left. -/
def attempt (production : Descent α) : Descent (Option α) := fun s =>
  match production s with
  | (result, s) => (some result, s)

/-- The offset of the cursor. -/
def mark : Descent Nat := fun s => (some s.scanner.offset, s)

/-- Moves the cursor to an offset. -/
def reset (offset : Nat) : Descent Unit := fun s =>
  (some (), { s with scanner := s.scanner.moveTo offset })

/-- Passes over trivia. Gives the offset of the next token. -/
def start : Descent Nat := fun s => (some s.scanner.skip.offset, { s with scanner := s.scanner.skip })

/-- Passes over trivia. Gives whether the end of the source is reached. -/
def atEnd : Descent Bool := fun s => (some s.scanner.atEnd, { s with scanner := s.scanner.skip })

/-- Whether a line terminator stands between the cursor and the next token. -/
def newlineAhead : Descent Bool := fun s => (some s.scanner.newlineAhead, s)

/-- Whether `in` is an operator here. -/
def inAllowed : Descent Bool := fun s => (some s.allowIn, s)

/-- Sets whether `in` is an operator in a production, and behind it restores what was set before. -/
def withIn (allowed : Bool) (production : Descent α) : Descent α := fun s =>
  match production { s with allowIn := allowed } with
  | (result, after) => (result, { after with allowIn := s.allowIn })

/-- Records that something is missed at the next token. -/
def miss (expectation : Expectation) : Descent Unit := fun s =>
  (some (), { s with failure := Failure.merge s.failure (some ⟨s.scanner.skip.offset, [expectation]⟩) })

/-- Fails because something is missed at the next token. -/
def failMissing (expectation : Expectation) : Descent α := do
  miss expectation
  fail

/-! Lexical rules -/

/-- What a lexical rule finds. The cursor stays where it is if that is nothing. -/
def ask (rule : Scanner → Option (α × Scanner)) : Descent (Option α) := fun s =>
  match rule s.scanner with
  | some (value, after) => (some (some value), { s with scanner := after })
  | none => (some none, s)

/-- Which of the punctuators is the longest one that comes next, as a token. -/
def punctIn (puncts : List Punct) : Descent (Option Token) := do
  return (← ask (Scanner.punctIn? (puncts.map .punct))).bind Symbol.token?

/-- Which of the words comes next as a whole, as a token. -/
def keywordIn (words : List Word) : Descent (Option Token) := do
  return (← ask (Scanner.keywordIn? (words.map .word))).bind Symbol.token?

/-- A symbol, if it comes next: a punctuator that is the longest one there, or a whole word. -/
def find : Symbol → Descent (Option Symbol)
  | .punct p => ask (Scanner.punctIn? [.punct p])
  | .word w => ask (Scanner.keyword? (.word w))
  | _ => return none

/-- Takes a symbol if it comes next. -/
def take (symbol : Symbol) : Descent Bool := do
  return (← find symbol).isSome

def identifier? : Descent (Option Bytes) := ask Scanner.identifier?

/-- What the first of two rules finds that finds anything. -/
def firstOf (first second : Descent (Option α)) : Descent (Option α) := do
  match ← first with
  | some value => return some value
  | none => second

/-- Takes a symbol; otherwise it is missed. -/
def probe (symbol : Symbol) : Descent Bool := do
  if ← take symbol then return true
  miss (.symbol symbol)
  return false

/-- Takes a symbol or fails without a word. -/
def require (symbol : Symbol) : Descent Unit := do
  if ← take symbol then return ()
  fail

/-- Takes a symbol or fails because it is missed. -/
def expect (symbol : Symbol) : Descent Unit := do
  if ← probe symbol then return ()
  fail

/-- Takes an identifier or fails because it is missed. -/
def identifier : Descent Bytes := do
  match ← identifier? with
  | some name => return name
  | none => failMissing .identifier

/-- Whether a symbol comes next. The cursor stays. -/
def ahead (symbol : Symbol) : Descent Bool := do
  let m ← mark
  if ← take symbol then
    reset m
    return true
  return false

/-! Choice and repetition -/

/-- The first production, or from the same place the second if the first fails. -/
def either (first second : Descent α) : Descent α := do
  let m ← mark
  match ← attempt first with
  | some value => return value
  | none =>
    reset m
    second

instance : OrElse (Descent α) where
  orElse first second := either first (second ())

/-- What a production gives, or nothing from the same place if it fails. -/
def optional (production : Descent α) : Descent (Option α) :=
  either (some <$> production) (pure none)

/-- The value of a production that is still to be told what part of the source it covers: from the next
token on up to where the cursor stands behind it. -/
def spanned (production : Descent (Span → α)) : Descent α := do
  let start ← start
  let build ← production
  return build ⟨start, ← mark⟩

/-- Runs `round` until it says that it was the last one, at most `bound` times, and joins what the rounds
give. -/
def rounds (round : Descent (List α × Bool)) : (bound : Nat) → Descent (List α)
  | 0 => fail
  | bound + 1 => do
    let (found, again) ← round
    if again then
      let more ← rounds round bound
      return found ++ more
    else return found

/-- More rounds than any loop makes: all but the last move the cursor on. -/
def roundLimit : Descent Nat := fun s => (some (s.scanner.source.length + 1), s)

/-- Runs `round` until it says that it was the last one. -/
def loop (round : Descent (List α × Bool)) : Descent (List α) := do
  rounds round (← roundLimit)

/-- As many as match. -/
def many (production : Descent α) : Descent (List α) :=
  loop do
    match ← optional production with
    | some value => return ([value], true)
    | none => return ([], false)

/-- As often as a rule finds something. -/
def manyFound (rule : Descent (Option α)) : Descent (List α) :=
  loop do
    match ← rule with
    | some value => return ([value], true)
    | none => return ([], false)

/-- One or more with commas between them. -/
def separated (production : Descent α) : Descent (List α) := do
  let first ← production
  let rest ← loop do
    if ← take (.punct .comma) then
      let value ← production
      return ([value], true)
    else return ([], false)
  return first :: rest

end Descent

end EcmaFold
