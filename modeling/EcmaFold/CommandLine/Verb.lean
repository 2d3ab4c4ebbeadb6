import EcmaFold.Text.Bytes

/-!
What the program can be asked for, and the flags that say how.
-/

namespace EcmaFold.CommandLine

/-- The name of the program. -/
def programName : Bytes := utf8 "kunjs"

/-- What the program can be asked for. -/
inductive Verb where
  | parse
  | format
  | compile
  | repl
  | help
  deriving DecidableEq, Repr

namespace Verb

def all : List Verb := [parse, format, compile, repl, help]

/-- The verbs in the order of their names. -/
def sorted : List Verb := [compile, format, help, parse, repl]

def name : Verb → Bytes
  | parse => utf8 "parse"
  | format => utf8 "fmt"
  | compile => utf8 "compile"
  | repl => utf8 "repl"
  | help => utf8 "help"

def ofName? (name : Bytes) : Option Verb := all.find? fun verb => verb.name = name

/-- How a call with the verb begins. -/
def path (verb : Verb) : Bytes := programName ++ utf8 " " ++ verb.name

/-- What a verb takes besides flags. -/
def operands : Verb → Bytes
  | parse | format | compile => utf8 " [file]"
  | repl => []
  | help => utf8 " [command]"

/-- One line on what a verb does. -/
def summary : Verb → Bytes
  | parse => utf8 "print the syntax tree as an S-expression"
  | format => utf8 "print the program as normalized source"
  | compile => utf8 "lower the program and print the value of its last statement"
  | repl => utf8 "compile statements interactively"
  | help => utf8 "Help about any command"

end Verb

/-- A flag of the command line. -/
inductive Flag where
  | config
  | logLevel
  | indent
  | trace
  | version
  | help
  deriving DecidableEq, Repr

namespace Flag

def all : List Flag := [config, logLevel, indent, trace, version, help]

def name : Flag → Bytes
  | config => utf8 "config"
  | logLevel => utf8 "log-level"
  | indent => utf8 "indent"
  | trace => utf8 "trace"
  | version => utf8 "version"
  | help => utf8 "help"

/-- The letter that also stands for a flag. -/
def letter? : Flag → Option UInt8
  | version => some 0x76
  | help => some 0x68
  | config | logLevel | indent | trace => none

/-- The flags that every verb has from the program. -/
def shared : List Flag := [config, logLevel]

/-- The flags that only one verb has. -/
def own : Verb → List Flag
  | .parse => [indent]
  | .compile => [trace]
  | .format | .repl | .help => []

/-- Whether a verb knows a flag; without a verb there are only flags about the program. -/
def known (flag : Flag) (verb : Option Verb) : Bool :=
  match flag with
  | config | logLevel | help => true
  | indent => verb = some .parse
  | trace => verb = some .compile
  | version => verb = none

/-- Whether a flag is a switch, which needs no value. -/
def isSwitch : Flag → Bool
  | trace | version | help => true
  | config | logLevel | indent => false

/-- How messages name a flag. -/
def label (flag : Flag) : Bytes :=
  match flag.letter? with
  | some letter => [0x2D, letter] ++ utf8 ", --" ++ flag.name
  | none => utf8 "--" ++ flag.name

/-- What a flag is for. The flags about the program speak of its name or that of a verb. -/
def purpose (subject : Bytes) : Flag → Bytes
  | config => utf8 "config file (default $HOME/.kunjs.yaml)"
  | logLevel => utf8 "log level: debug, info, warn or error"
  | indent => utf8 "base indentation of every line"
  | trace => utf8 "print the IR operations performed"
  | version => utf8 "version for " ++ subject
  | help => utf8 "help for " ++ subject

end Flag

end EcmaFold.CommandLine
