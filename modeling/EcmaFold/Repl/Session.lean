import EcmaFold.Compile
import EcmaFold.Repl.Completion
import EcmaFold.Tree.Dump
import EcmaFold.Tree.Layout

/-!
An interactive session: sources are compiled one by one, and commands choose what is shown of each.
-/

namespace EcmaFold

/-- What is shown of a source beside its value, and the names that sources so far contained. -/
structure Session where
  showTree : Bool := false
  showSource : Bool := false
  showTrace : Bool := false
  /-- Increasing in byte order. -/
  names : List Bytes := []

namespace Session

/-- A command to the session itself. -/
inductive Command where
  | tree
  | exit
  | source
  | help
  | trace
  deriving DecidableEq, Repr

namespace Command

/-- Every command, in the order of the spellings. -/
def all : List Command := [tree, exit, source, help, trace]

def spelling : Command → Bytes
  | tree => utf8 ".ast"
  | exit => utf8 ".exit"
  | source => utf8 ".fmt"
  | help => utf8 ".help"
  | trace => utf8 ".trace"

def ofSpelling? (text : Bytes) : Option Command := all.find? fun command => command.spelling = text

/-- The text of the help command. -/
def helpText : Bytes :=
  utf8 ".ast    toggle printing the syntax tree\n" ++
  utf8 ".fmt    toggle printing normalized source\n" ++
  utf8 ".trace  toggle printing IR operations\n" ++
  utf8 ".exit   quit\n"

end Command

/-- The answer to a switch that was turned. -/
def switched (name : String) (on : Bool) : Bytes :=
  utf8 name ++ (if on then utf8 " on\n" else utf8 " off\n")

/-- Obeys a command given by its text. Gives the session to go on with, if it does go on, and what is
printed. -/
def obey (session : Session) (text : Bytes) : Option Session × Bytes :=
  match Command.ofSpelling? text with
  | some .exit => (none, [])
  | some .tree =>
    let on := !session.showTree
    (some { session with showTree := on }, switched "ast" on)
  | some .source =>
    let on := !session.showSource
    (some { session with showSource := on }, switched "fmt" on)
  | some .trace =>
    let on := !session.showTrace
    (some { session with showTrace := on }, switched "trace" on)
  | some .help => (some session, Command.helpText)
  | none => (some session, utf8 "unknown command " ++ text ++ utf8 "\n")

/-- What came of a source. -/
structure Evaluation where
  session : Session
  /-- What is printed. -/
  out : Bytes
  /-- The lines of the log. -/
  log : Bytes

/-- Compiles a source. The names of an accepted one are kept for completion. -/
def eval (session : Session) (source : Bytes) : Evaluation :=
  match Program.parse [] source with
  | .error error => ⟨session, error.message ++ utf8 "\n" ++ error.context ++ utf8 "\n", []⟩
  | .ok program =>
    let compiled := program.compile
    let part (shown : Bool) (text : Bytes) : Bytes := if shown then text else []
    { session := { session with names := Bytes.sortedSet (session.names ++ program.tree.identifiers) }
      out := part session.showTree (program.tree.dump 2) ++ part session.showSource program.tree.format ++
        part session.showTrace compiled.trace.disassemble ++ compiled.value.text ++ utf8 "\n"
      log := compiled.log.flatMap (·.line (.ofSource [] source)) }

/-- Ways to complete a line: a command if it begins like one, else its last word. -/
def complete (session : Session) (line : Bytes) : List Bytes :=
  if [0x2E].isPrefixOf line then Completion.extending [] line (Command.all.map Command.spelling)
  else Completion.ofWords session.names line

end Session

end EcmaFold
