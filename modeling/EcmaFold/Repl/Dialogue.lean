import EcmaFold.Repl.History
import EcmaFold.Repl.Session
import EcmaFold.Repl.Unclosed

/-!
A dialogue: lines come in, are joined until nothing is left open, and are then evaluated. A line that
begins with a point is a command, if no source is under way.
-/

namespace EcmaFold

/-- Where a dialogue stands. -/
structure Dialogue where
  session : Session
  history : History
  /-- The lines of the source under way. -/
  pending : Bytes := []

namespace Dialogue

/-- Printed at the beginning. -/
def banner : Bytes := utf8 "kunjs 0.1.0\nType .help for commands, Ctrl+D to quit\n"

/-- Asks for another line of a source. -/
def continuationPrompt : Bytes := utf8 "...... "

/-- What asks for the next line; `main` asks for a new source. -/
def prompt (dialogue : Dialogue) (main : Bytes) : Bytes :=
  if dialogue.pending.isEmpty then main else continuationPrompt

/-- Whether a text can be a prompt: a terminal has to know its width. -/
def isPrompt (text : Bytes) : Bool := (Utf8.chars text).all fun c => !Category.isControl c

/-- The characters of a text with the bytes of each. -/
def split (text : Bytes) : List (Char × Bytes) :=
  (Utf8.runes text).map fun
    | (some c, _) => (c, Utf8.encode c)
    | (none, bad) => (Utf8.replacement, [bad])

/-- A text without white space at either end. -/
def trim (text : Bytes) : Bytes :=
  let blank (part : Char × Bytes) : Bool := Category.isWhiteSpace part.1
  (((((split text).dropWhile blank).reverse).dropWhile blank).reverse).flatMap (·.2)

/-- What a line leads to. -/
structure Reply where
  /-- The dialogue to go on with, or the history if it is over. -/
  next : Dialogue ⊕ History
  out : Bytes
  log : Bytes

/-- Takes in a source that is complete. -/
def evaluate (dialogue : Dialogue) (source : Bytes) : Reply :=
  let result := dialogue.session.eval source
  ⟨.inl ⟨result.session, dialogue.history.record source, []⟩, result.out, result.log⟩

/-- Takes in a line. -/
def feed (dialogue : Dialogue) (line : Bytes) : Reply :=
  let extend (source : Bytes) : Reply :=
    if Unclosed.isUnclosed source then ⟨.inl { dialogue with pending := source }, [], []⟩
    else dialogue.evaluate source
  if dialogue.pending.isEmpty then
    let command := trim line
    if command.isEmpty then ⟨.inl dialogue, [], []⟩
    else if command.head? = some 0x2E then
      match dialogue.session.obey command with
      | (some session, out) => ⟨.inl { dialogue with session }, out, []⟩
      | (none, out) => ⟨.inr dialogue.history, out, []⟩
    else extend line
  else extend (dialogue.pending ++ [0x0A] ++ line)

/-- What a dialogue printed and logged, and the history it left. -/
structure Transcript where
  out : Bytes
  log : Bytes
  history : History

/-- The rest of a dialogue over the lines to come. At the end of the input the last prompt is closed by a
line feed. -/
def hold (main : Bytes) : Dialogue → List Bytes → Transcript
  | dialogue, [] => ⟨dialogue.prompt main ++ [0x0A], [], dialogue.history⟩
  | dialogue, line :: rest =>
    let reply := dialogue.feed line
    let printed := dialogue.prompt main ++ reply.out
    match reply.next with
    | .inr history => ⟨printed, reply.log, history⟩
    | .inl dialogue =>
      let later := hold main dialogue rest
      ⟨printed ++ later.out, reply.log ++ later.log, later.history⟩

end Dialogue

end EcmaFold
