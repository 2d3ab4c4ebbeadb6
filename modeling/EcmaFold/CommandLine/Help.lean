import EcmaFold.CommandLine.Verb

/-!
The texts that explain the program: what a call looks like, which verbs there are, and what the flags of
a call are for.
-/

namespace EcmaFold.CommandLine

/-- The answer to `--version`. -/
def versionText : Bytes := programName ++ utf8 " version dev (library 0.1.0)\n"

/-- What the program does. -/
def programSummary : Bytes := utf8 "parse and compile a JavaScript subset"

namespace Flag

/-- What kind of value a flag takes. -/
def valueKind : Flag → Bytes
  | config | logLevel => utf8 " string"
  | indent => utf8 " int"
  | trace | version | help => []

/-- The value that holds where a flag is not given, as far as it is worth telling. -/
def usualValue : Flag → Bytes
  | logLevel => utf8 " (default \"warn\")"
  | config | indent | trace | version | help => []

/-- How a flag is written, set in behind the room for a letter. -/
def usage (flag : Flag) : Bytes :=
  (if flag.letter?.isSome then utf8 "  " else utf8 "      ") ++ flag.label ++ flag.valueKind

/-- Flags on a line each, with what they are for in a column three blanks behind the longest. -/
def table (subject : Bytes) (flags : List Flag) : Bytes :=
  let width := (flags.map fun flag => flag.usage.length).foldl max 0
  flags.flatMap fun flag =>
    flag.usage ++ Bytes.spaces (width - flag.usage.length + 3) ++ flag.purpose subject ++
      flag.usualValue ++ utf8 "\n"

end Flag

namespace Verb

/-- The width of the column with the names of the verbs. -/
def nameWidth : Nat := 11

/-- The verbs on a line each, with what they do. -/
def table : Bytes :=
  sorted.flatMap fun verb =>
    utf8 "  " ++ verb.name ++ Bytes.spaces (nameWidth - verb.name.length + 1) ++ verb.summary ++ utf8 "\n"

/-- What a verb does, at length. -/
def description : Verb → Bytes
  | help =>
    utf8 "Help provides help for any command in the application.\n" ++
      utf8 "Simply type " ++ programName ++ utf8 " help [path to command] for full details."
  | verb => verb.summary

/-- The flags of a verb alone, in the order of their names. -/
def flags : Verb → List Flag
  | parse => [.help, .indent]
  | compile => [.help, .trace]
  | format | repl | help => [.help]

/-- The answer to a call for help on a verb. -/
def helpText (verb : Verb) : Bytes :=
  verb.description ++ utf8 "\n\nUsage:\n  " ++ verb.path ++ verb.operands ++ utf8 " [flags]\n\nFlags:\n" ++
    Flag.table verb.name verb.flags ++ utf8 "\nGlobal Flags:\n" ++ Flag.table verb.name Flag.shared

end Verb

/-- How the program is called, with some of its flags. -/
def programUsage (flags : List Flag) : Bytes :=
  utf8 "Usage:\n  " ++ programName ++ utf8 " [command]\n\nAvailable Commands:\n" ++ Verb.table ++
    utf8 "\nFlags:\n" ++ Flag.table programName flags ++ utf8 "\nUse \"" ++ programName ++
    utf8 " [command] --help\" for more information about a command.\n"

/-- What the program does and how it is called, with some of its flags. -/
def programHelp (flags : List Flag) : Bytes :=
  programSummary ++ utf8 "\n\n" ++ programUsage flags

/-- The answer to a call that names no verb or asks for help; on a verb if it names one. -/
def helpText : Option Verb → Bytes
  | some verb => verb.helpText
  | none => programHelp [.config, .help, .logLevel, .version]

end EcmaFold.CommandLine
